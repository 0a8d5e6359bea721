/-
# Simplification and bounds

Interval evaluation does not see that two occurrences of a symbol stand for the same number, so that
what an expression is rewritten to matters for its bounds.  Between non-empty bounds of the symbols
no rule of simplification loosens them: `Expr.Tightens` says that an expression has bounds wherever
another one has them, and that they are a part of those.  Operations keep this relation, each rule
of simplification gives an instance of it, and so do the simplifications within a derivative.
-/
import Mathlib
import Roundoff.Proofs.ClosedForm.Trajectory
import Roundoff.Proofs.Expr.Derivative
import Roundoff.Proofs.Expr.Enclosure
import Roundoff.Proofs.Expr.Simplification

namespace Roundoff

namespace Bounds

variable {a b c : Bounds ℝ} {x : ℝ}

lemma IsPartOf.trans (hab : a.IsPartOf b) (hbc : b.IsPartOf c) : a.IsPartOf c :=
  ⟨hbc.lo_le.trans hab.lo_le, hab.lo_le_hi, hab.hi_le.trans hbc.hi_le⟩

/-- Non-empty bounds are a part of all bounds that contain their ends. -/
lemma isPartOf_of_mem (ha : a.lo ≤ a.hi) (hlo : a.lo ∈ b) (hhi : a.hi ∈ b) : a.IsPartOf b :=
  ⟨hlo.1, ha, hhi.2⟩

lemma IsPartOf.maxAbs_le (h : a.IsPartOf b) : a.maxAbs ≤ b.maxAbs := by
  rw [maxAbs, Number.max_real, Number.abs_real, Number.abs_real]
  exact max_le (abs_le_maxAbs h.lo_mem) (abs_le_maxAbs h.hi_mem)

end Bounds

/-- Whether the bounds of all symbols that have some contain a number. -/
def SymbolBounds.IsNonempty (lookup : SymbolBounds ℝ) : Prop :=
  ∀ s b, lookup s = .ok b → b.lo ≤ b.hi

lemma SymbolBounds.IsNonempty.refines {lookup : SymbolBounds ℝ} (h : lookup.IsNonempty) :
    lookup.Refines lookup :=
  fun s b hb => ⟨b, hb, le_rfl, h s b hb, le_rfl⟩

namespace Expr

variable {lookup : SymbolBounds ℝ} {o : Arith} {a a' b b' c e e' : Expr ℝ}

/-- One expression has bounds wherever another one has them, and they are a part of those. -/
def Tightens (lookup : SymbolBounds ℝ) (e' e : Expr ℝ) : Prop :=
  ∀ b, e.evaluate lookup = .ok b → ∃ b', e'.evaluate lookup = .ok b' ∧ b'.IsPartOf b

namespace Tightens

lemma refl (hlookup : lookup.IsNonempty) (e : Expr ℝ) : Tightens lookup e e :=
  fun _ hb => exists_evaluate_isPartOf hlookup.refines hb

lemma trans (hab : Tightens lookup a b) (hbc : Tightens lookup b c) : Tightens lookup a c := by
  intro C hC
  obtain ⟨B, hB, hBC⟩ := hbc C hC
  obtain ⟨A, hA, hAB⟩ := hab B hB
  exact ⟨A, hA, hAB.trans hBC⟩

lemma op (o : Arith) (ha : Tightens lookup a' a) (hb : Tightens lookup b' b) :
    Tightens lookup (op o a' b') (op o a b) := by
  intro C hC
  obtain ⟨A, hA, B, hB, hC⟩ := evaluate_op_eq_ok_iff.1 hC
  obtain ⟨A', hA', hpartA⟩ := ha A hA
  obtain ⟨B', hB', hpartB⟩ := hb B hB
  obtain ⟨C', hC', hpartC⟩ := Arith.exists_bounds?_isPartOf hpartA hpartB hC
  exact ⟨C', evaluate_op_eq_ok_iff.2 ⟨A', hA', B', hB', hC'⟩, hpartC⟩

end Tightens

/-- Between non-empty bounds of the symbols an expression has non-empty bounds. -/
lemma lo_le_hi_of_evaluate {b : Bounds ℝ} (hlookup : lookup.IsNonempty)
    (h : e.evaluate lookup = .ok b) : b.lo ≤ b.hi := by
  obtain ⟨b', hb', hpart⟩ := Tightens.refl hlookup e b h
  rw [h] at hb'
  cases hb'
  exact hpart.lo_le_hi

/-! ## The rules -/

/-- No rule loosens the bounds of an operation.  A fixed result is the value of the operation for
every assignment between the bounds of the symbols, and with a neutral operand the operation maps
the ends of the bounds of the other one to themselves. -/
lemma IsCombination.tightens (h : IsCombination o a b e) (hlookup : lookup.IsNonempty)
    (hvalue : ∀ x, e.value x = (Expr.op o a b).value x) : Tightens lookup e (.op o a b) := by
  intro C hC
  obtain ⟨A, hA, B, hB, hbounds⟩ := evaluate_op_eq_ok_iff.1 hC
  have hAne := lo_le_hi_of_evaluate hlookup hA
  have hBne := lo_le_hi_of_evaluate hlookup hB
  cases h with
  | const c =>
    obtain ⟨x, hx⟩ := SymbolBounds.exists_admits hlookup
    have hc := value_mem_evaluate hx hC
    rw [← hvalue x, value_const] at hc
    exact ⟨_, evaluate_const c, Bounds.isPartOf_of_mem le_rfl hc hc⟩
  | @left z hb hz =>
    rw [hb, evaluate_const] at hB
    cases hB
    have hmem (u : ℝ) (hu : u ∈ A) : u ∈ C := by
      simpa only [hz] using Arith.apply_mem hu (Bounds.mem_point z) hbounds
    exact ⟨A, hA, Bounds.isPartOf_of_mem hAne (hmem _ ⟨le_rfl, hAne⟩) (hmem _ ⟨hAne, le_rfl⟩)⟩
  | @right z ha hz =>
    rw [ha, evaluate_const] at hA
    cases hA
    have hmem (u : ℝ) (hu : u ∈ B) : u ∈ C := by
      simpa only [hz] using Arith.apply_mem (Bounds.mem_point z) hu hbounds
    exact ⟨B, hB, Bounds.isPartOf_of_mem hBne (hmem _ ⟨le_rfl, hBne⟩) (hmem _ ⟨hBne, le_rfl⟩)⟩
  | op _ => exact Tightens.refl hlookup _ C hC

/-- Simplification does not loosen the bounds of an expression. -/
lemma tightens_simplify (hlookup : lookup.IsNonempty) (e : Expr ℝ) :
    Tightens lookup e.simplify e := by
  induction e with
  | const c => exact Tightens.refl hlookup _
  | symbol s => exact Tightens.refl hlookup _
  | op o a b iha ihb =>
    have hcombine := (isCombination_combine o a.simplify b.simplify).tightens hlookup
      fun _ => value_combine o _ _
    exact hcombine.trans (iha.op o ihb)

/-! ## Derivatives -/

/-- The partial derivative by a symbol as the rules of differentiation give it, not simplified. -/
def formalDiff (s : ℕ) : Expr ℝ → Expr ℝ
  | const _ => const 0
  | symbol t => const (if t = s then 1 else 0)
  | .op .add a b => .op .add (a.formalDiff s) (b.formalDiff s)
  | .op .sub a b => .op .sub (a.formalDiff s) (b.formalDiff s)
  | .op .mul a b => .op .add (.op .mul (a.formalDiff s) b) (.op .mul a (b.formalDiff s))
  | .op .div a b =>
    .op .div (.op .sub (.op .mul (a.formalDiff s) b) (.op .mul a (b.formalDiff s))) (.op .mul b b)

/-- The simplifications within a derivative do not loosen its bounds. -/
lemma tightens_diff (hlookup : lookup.IsNonempty) (s : ℕ) (e : Expr ℝ) :
    Tightens lookup (e.diff s) (e.formalDiff s) := by
  induction e with
  | const c => exact Tightens.refl hlookup _
  | symbol t => exact Tightens.refl hlookup _
  | op o a b iha ihb =>
    have ha := Tightens.refl hlookup a
    have hb := Tightens.refl hlookup b
    cases o with
    | add => exact (tightens_simplify hlookup _).trans (iha.op .add ihb)
    | sub => exact (tightens_simplify hlookup _).trans (iha.op .sub ihb)
    | mul => exact (tightens_simplify hlookup _).trans ((iha.op .mul hb).op .add (ha.op .mul ihb))
    | div =>
      exact (tightens_simplify hlookup _).trans
        (((iha.op .mul hb).op .sub (ha.op .mul ihb)).op .div (hb.op .mul hb))

/-! ## Magnitudes -/

/-- What tightens the bounds does not raise the largest magnitude. -/
lemma Tightens.exists_maxAbs_le (h : Tightens lookup e' e) {k : ℝ} (hk : e.maxAbs lookup = .ok k) :
    ∃ k' ≤ k, e'.maxAbs lookup = .ok k' := by
  obtain ⟨b, hb, rfl⟩ := maxAbs_eq_ok_iff.1 hk
  obtain ⟨b', hb', hpart⟩ := h b hb
  exact ⟨b'.maxAbs, hpart.maxAbs_le, maxAbs_eq_ok_iff.2 ⟨b', hb', rfl⟩⟩

/-- **Simplification never loosens a bound.**  Between non-empty bounds of the symbols a simplified
expression has bounds wherever the expression has bounds, and they are a part of those; its largest
magnitude is not larger.  So what bounds a derivative without any simplification bounds the
derivative that is simplified step by step. -/
theorem simplify_tightens_bounds (hlookup : lookup.IsNonempty) (e : Expr ℝ) :
    (∀ b, e.evaluate lookup = .ok b →
        ∃ b', e.simplify.evaluate lookup = .ok b' ∧ b'.IsPartOf b) ∧
      (∀ k, e.maxAbs lookup = .ok k → ∃ k' ≤ k, e.simplify.maxAbs lookup = .ok k') ∧
      ∀ s k, (e.formalDiff s).maxAbs lookup = .ok k →
        ∃ k' ≤ k, (e.diff s).maxAbs lookup = .ok k' :=
  ⟨tightens_simplify hlookup e, fun _ hk => (tightens_simplify hlookup e).exists_maxAbs_le hk,
    fun s _ hk => (tightens_diff hlookup s e).exists_maxAbs_le hk⟩

end Expr

namespace DrainedSum

/-- An expression whose bounds simplification tightens: `(s₀ - s₀) + s₁ · 1`. -/
def drained : Expr ℝ :=
  .op .add (.op .sub (.symbol 0) (.symbol 0)) (.op .mul (.symbol 1) (.const 1))

/-- Both symbols lie between -1 and 1. -/
def unit : SymbolBounds ℝ := fun _ => .ok ⟨-1, 1⟩

lemma isNonempty_unit : unit.IsNonempty := by
  intro s b h
  cases h
  norm_num

lemma simplify_drained : drained.simplify = .symbol 1 := by
  simp [drained, Expr.simplify, Expr.combine, Expr.subSimplified, Expr.mulSimplified,
    Expr.addSimplified, Expr.isZero, Expr.isOne]

lemma evaluate_drained : drained.evaluate unit = .ok ⟨-3, 3⟩ := by
  have hsymbol (s : ℕ) : (Expr.symbol s).evaluate unit = .ok ⟨-1, 1⟩ := Expr.evaluate_symbol s
  refine Expr.evaluate_op_eq_ok_iff.2 ⟨⟨-2, 2⟩, ?_, ⟨-1, 1⟩, ?_, ?_⟩
  · refine Expr.evaluate_op_eq_ok_iff.2 ⟨⟨-1, 1⟩, hsymbol 0, ⟨-1, 1⟩, hsymbol 0, ?_⟩
    norm_num [Arith.bounds?, Bounds.sub, Bounds.of]
  · refine Expr.evaluate_op_eq_ok_iff.2 ⟨⟨-1, 1⟩, hsymbol 1, ⟨1, 1⟩, Expr.evaluate_const 1, ?_⟩
    norm_num [Arith.bounds?, Bounds.mul, Bounds.of]
  · norm_num [Arith.bounds?, Bounds.add, Bounds.of]

lemma maxAbs_formalDiff_drained : (drained.formalDiff 1).maxAbs unit = .ok 1 := by
  have hderivative : drained.formalDiff 1 = .op .add (.op .sub (.const 0) (.const 0))
      (.op .add (.op .mul (.const 1) (.const 1)) (.op .mul (.symbol 1) (.const 0))) := by
    simp [drained, Expr.formalDiff]
  have hbounds : (drained.formalDiff 1).evaluate unit = .ok ⟨1, 1⟩ := by
    rw [hderivative, Expr.evaluate_eq_bounds]
    simp [Expr.bounds, unit, bind, Except.bind, Arith.bounds, Arith.bounds?, Bounds.point,
      Bounds.add, Bounds.sub, Bounds.mul, Bounds.of]
  exact Expr.maxAbs_eq_ok_iff.2 ⟨_, hbounds, by norm_num [Bounds.maxAbs]⟩

/-- The bounds of the expression shrink from ±3 to ±1, and its derivative by the second symbol keeps
a bound. -/
theorem simplify_tightens_bounds_of_drained :
    unit.IsNonempty ∧ drained.evaluate unit = .ok ⟨-3, 3⟩ ∧
      (∃ b, (Expr.symbol 1).evaluate unit = .ok b ∧ b.IsPartOf ⟨-3, 3⟩) ∧
      drained.maxAbs unit = .ok 3 ∧ (∃ k ≤ 3, (Expr.symbol 1).maxAbs unit = .ok k) ∧
      (drained.formalDiff 1).maxAbs unit = .ok 1 ∧
      ∃ k ≤ 1, (drained.diff 1).maxAbs unit = .ok k := by
  obtain ⟨hbounds, hmax, hdiff⟩ := Expr.simplify_tightens_bounds isNonempty_unit drained
  have hthree : drained.maxAbs unit = .ok 3 :=
    Expr.maxAbs_eq_ok_iff.2 ⟨_, evaluate_drained, by norm_num [Bounds.maxAbs]⟩
  rw [simplify_drained] at hbounds hmax
  exact ⟨isNonempty_unit, evaluate_drained, hbounds _ evaluate_drained, hthree, hmax 3 hthree,
    maxAbs_formalDiff_drained, hdiff 1 1 maxAbs_formalDiff_drained⟩

end DrainedSum

namespace LoopSystem

/-! ## The Lipschitz matrix of a loop -/

variable {system : LoopSystem ℝ} {s : Store ℝ}

/-- The recorded ranges give bounds in order. -/
lemma isNonempty_bounds (system : LoopSystem ℝ) (s : Store ℝ) : (system.bounds s).IsNonempty := by
  intro n b h
  unfold bounds at h
  split at h
  · cases h
  · split at h
    · split at h
      · cases h
      · cases h
        rw [Bounds.ofRange, Bounds.of, Number.min_real, Number.max_real]
        exact min_le_max
    · cases h

/-- Bounds of the derivatives without any simplification bound the Lipschitz matrix of a loop, which
exists then. -/
theorem exists_lipschitz_le {k : Fin system.length → Fin system.length → ℝ}
    (h : ∀ i j : Fin system.length,
      ((system.get i).expr.formalDiff j).maxAbs (system.bounds s) = .ok (k i j)) :
    ∃ K, system.lipschitz s = .ok K ∧ ∀ i j, K.get i j ≤ k i j := by
  have hentry (i j : Fin system.length) :=
    (Expr.tightens_diff (isNonempty_bounds system s) j (system.get i).expr).exists_maxAbs_le (h i j)
  choose K hle hK using hentry
  refine ⟨DenseMatrix.ofFn K, lipschitz_eq_ok_iff.2 fun i j => ?_, fun i j => ?_⟩
  · rw [DenseMatrix.get_ofFn]
    exact hK i j
  · rw [DenseMatrix.get_ofFn]
    exact hle i j

end LoopSystem

end Roundoff
