/-
# Evaluation over smaller bounds

Interval evaluation answers for every assignment at once: where it finds bounds, no divisor is zero
and the value lies between them.  It also answers for smaller bounds of the symbols: an operation on
parts of the bounds of its operands is defined where it was defined before, and what it makes of
them is a part of what it made of the whole.  Both facts go along the expression, from what each
operation does.
-/
import Mathlib
import Roundoff.Proofs.Expr.Value

namespace Roundoff

/-! ## Parts of bounds -/

namespace Bounds

/-- One pair of bounds lies between another one and has numbers between them. -/
structure IsPartOf (a' a : Bounds ℝ) : Prop where
  /-- The lower bound is not lowered. -/
  lo_le : a.lo ≤ a'.lo
  /-- There are numbers between the bounds. -/
  lo_le_hi : a'.lo ≤ a'.hi
  /-- The upper bound is not raised. -/
  hi_le : a'.hi ≤ a.hi

variable {a a' b b' c : Bounds ℝ} {x y : ℝ}

namespace IsPartOf

lemma lo_mem (h : a'.IsPartOf a) : a'.lo ∈ a := ⟨h.lo_le, h.lo_le_hi.trans h.hi_le⟩

lemma hi_mem (h : a'.IsPartOf a) : a'.hi ∈ a := ⟨h.lo_le.trans h.lo_le_hi, h.hi_le⟩

lemma mem (h : a'.IsPartOf a) (hx : x ∈ a') : x ∈ a :=
  ⟨h.lo_le.trans hx.1, hx.2.trans h.hi_le⟩

end IsPartOf

lemma isPartOf_point (x : ℝ) : (point x).IsPartOf (point x) := ⟨le_rfl, le_rfl, le_rfl⟩

lemma min_mem (hx : x ∈ c) (hy : y ∈ c) : min x y ∈ c :=
  ⟨le_min hx.1 hy.1, (min_le_left x y).trans hx.2⟩

lemma max_mem (hx : x ∈ c) (hy : y ∈ c) : max x y ∈ c :=
  ⟨hx.1.trans (le_max_left x y), max_le hx.2 hy.2⟩

/-- The bounds given by two numbers are a part of all bounds that contain both. -/
lemma isPartOf_of (hx : x ∈ c) (hy : y ∈ c) : (of x y).IsPartOf c := by
  rw [of, Number.min_real, Number.max_real]
  exact ⟨(min_mem hx hy).1, min_le_max, (max_mem hx hy).2⟩

/-! ## Operations on parts -/

lemma IsPartOf.add (ha : a'.IsPartOf a) (hb : b'.IsPartOf b) :
    (a'.add b').IsPartOf (a.add b) :=
  isPartOf_of (add_mem ha.lo_mem hb.lo_mem) (add_mem ha.hi_mem hb.hi_mem)

lemma IsPartOf.sub (ha : a'.IsPartOf a) (hb : b'.IsPartOf b) :
    (a'.sub b').IsPartOf (a.sub b) :=
  isPartOf_of (sub_mem ha.lo_mem hb.hi_mem) (sub_mem ha.hi_mem hb.lo_mem)

/-- The products of the ends of the parts are products of numbers between the bounds. -/
lemma IsPartOf.mul (ha : a'.IsPartOf a) (hb : b'.IsPartOf b) :
    (a'.mul b').IsPartOf (a.mul b) := by
  have hll := mul_mem ha.lo_mem hb.lo_mem
  have hlh := mul_mem ha.lo_mem hb.hi_mem
  have hhl := mul_mem ha.hi_mem hb.lo_mem
  have hhh := mul_mem ha.hi_mem hb.hi_mem
  rw [Bounds.mul]
  simp only [Number.isNaN_real, Bool.false_eq_true, if_false, Number.min_real, Number.max_real]
  exact isPartOf_of (min_mem (min_mem (min_mem hll hlh) hhl) hhh)
    (max_mem (max_mem (max_mem hll hlh) hhl) hhh)

lemma div_eq_some_iff :
    a.div b = some c ↔ (0 : ℝ) ∉ b ∧ a.mul (of (1 / b.hi) (1 / b.lo)) = c := by
  rw [div, ← containsZero_iff]
  split
  · next h => simp [h]
  · next h => simp [h]

/-- A part of a divisor that cannot be zero cannot be zero either. -/
lemma IsPartOf.div (ha : a'.IsPartOf a) (hb : b'.IsPartOf b) (h : a.div b = some c) :
    ∃ c', a'.div b' = some c' ∧ c'.IsPartOf c := by
  obtain ⟨hzero, rfl⟩ := div_eq_some_iff.1 h
  have hinverse := isPartOf_of (inv_mem hb.hi_mem hzero) (inv_mem hb.lo_mem hzero)
  exact ⟨_, div_eq_some_iff.2 ⟨fun h0 => hzero (hb.mem h0), rfl⟩, ha.mul hinverse⟩

end Bounds

/-- An operation on parts of the bounds of its operands has a part of its bounds. -/
lemma Arith.exists_bounds?_isPartOf {o : Arith} {a a' b b' c : Bounds ℝ} (ha : a'.IsPartOf a)
    (hb : b'.IsPartOf b) (h : o.bounds? a b = some c) :
    ∃ c', o.bounds? a' b' = some c' ∧ c'.IsPartOf c := by
  cases o with
  | add => exact ⟨_, rfl, Option.some.inj h ▸ ha.add hb⟩
  | sub => exact ⟨_, rfl, Option.some.inj h ▸ ha.sub hb⟩
  | mul => exact ⟨_, rfl, Option.some.inj h ▸ ha.mul hb⟩
  | div => exact ha.div hb h

/-! ## Evaluation -/

/-- Whatever symbol has bounds in `lookup` has a part of them in `lookup'`. -/
def SymbolBounds.Refines (lookup' lookup : SymbolBounds ℝ) : Prop :=
  ∀ s b, lookup s = .ok b → ∃ b', lookup' s = .ok b' ∧ b'.IsPartOf b

namespace Expr

variable {x : ℕ → ℝ} {lookup lookup' : SymbolBounds ℝ} {e : Expr ℝ} {b : Bounds ℝ}

/-- Where an expression has bounds, no divisor is zero. -/
lemma isDefinedAt_of_evaluate (hx : lookup.Admits x) (h : e.evaluate lookup = .ok b) :
    e.IsDefinedAt x := by
  induction e generalizing b with
  | const c => trivial
  | symbol s => trivial
  | op o l r ihl ihr =>
    obtain ⟨bl, hl, br, hr, h⟩ := evaluate_op_eq_ok_iff.1 h
    refine ⟨ihl hl, ihr hr, ?_⟩
    rintro rfl hzero
    have hmem := value_mem_evaluate hx hr
    rw [hzero] at hmem
    exact (Bounds.div_eq_some_iff.1 h).1 hmem

/-- Over parts of the bounds of the symbols an expression has a part of its bounds. -/
lemma exists_evaluate_isPartOf (hlookup : lookup'.Refines lookup) (h : e.evaluate lookup = .ok b) :
    ∃ b', e.evaluate lookup' = .ok b' ∧ b'.IsPartOf b := by
  induction e generalizing b with
  | const c =>
    rw [evaluate_const] at h
    cases h
    exact ⟨_, evaluate_const c, Bounds.isPartOf_point c⟩
  | symbol s =>
    rw [evaluate_symbol] at h ⊢
    exact hlookup s b h
  | op o l r ihl ihr =>
    obtain ⟨bl, hl, br, hr, h⟩ := evaluate_op_eq_ok_iff.1 h
    obtain ⟨bl', hl', hpl⟩ := ihl hl
    obtain ⟨br', hr', hpr⟩ := ihr hr
    obtain ⟨b', h', hp⟩ := Arith.exists_bounds?_isPartOf hpl hpr h
    exact ⟨b', evaluate_op_eq_ok_iff.2 ⟨bl', hl', br', hr', h'⟩, hp⟩

/-- **Interval evaluation is sound and isotonic.**  Where it finds bounds of an expression, no
divisor is zero for any assignment between the bounds of the symbols, and the value lies between the
bounds that are found.  For bounds of the symbols that are parts of the given ones it finds bounds
as well, which are a part of those. -/
theorem evaluate_encloses (h : e.evaluate lookup = .ok b) :
    (∀ x, lookup.Admits x → e.IsDefinedAt x ∧ e.value x ∈ b) ∧
      ∀ lookup' : SymbolBounds ℝ, lookup'.Refines lookup →
        ∃ b', e.evaluate lookup' = .ok b' ∧ b'.IsPartOf b :=
  ⟨fun _ hx => ⟨isDefinedAt_of_evaluate hx h, value_mem_evaluate hx h⟩,
    fun _ hlookup => exists_evaluate_isPartOf hlookup h⟩

end Expr

namespace ShiftedRatio

/-- The ratio of `s₀·s₁ + 1` and `s₀`. -/
def ratio : Expr ℝ := .op .div (.op .add (.op .mul (.symbol 0) (.symbol 1)) (.const 1)) (.symbol 0)

/-- The divisor is between 1 and 2, the other symbol between -3 and 1. -/
noncomputable def wide : SymbolBounds ℝ := fun s =>
  if s = 0 then .ok ⟨1, Number.ofInt 2⟩ else .ok ⟨Number.ofInt (-3), 1⟩

/-- The divisor is 2, the other symbol between 0 and 1. -/
noncomputable def narrow : SymbolBounds ℝ := fun s =>
  if s = 0 then .ok ⟨Number.ofInt 2, Number.ofInt 2⟩ else .ok ⟨0, 1⟩

lemma evaluate_ratio : ratio.evaluate wide = .ok ⟨-5, 3⟩ := by
  have hdivisor : (Expr.symbol 0).evaluate wide = .ok ⟨1, 2⟩ := by simp [Expr.evaluate_symbol, wide]
  have hother : (Expr.symbol 1).evaluate wide = .ok ⟨-3, 1⟩ := by simp [Expr.evaluate_symbol, wide]
  refine Expr.evaluate_op_eq_ok_iff.2 ⟨⟨-5, 3⟩, ?_, ⟨1, 2⟩, hdivisor, ?_⟩
  · refine Expr.evaluate_op_eq_ok_iff.2 ⟨⟨-6, 2⟩, ?_, ⟨1, 1⟩, Expr.evaluate_const 1, ?_⟩
    · refine Expr.evaluate_op_eq_ok_iff.2 ⟨⟨1, 2⟩, hdivisor, ⟨-3, 1⟩, hother, ?_⟩
      norm_num [Arith.bounds?, Bounds.mul, Bounds.of]
    · norm_num [Arith.bounds?, Bounds.add, Bounds.of]
  · norm_num [Arith.bounds?, Bounds.div, Bounds.containsZero, Bounds.mul, Bounds.of]

/-- The divisor 2 and the other symbol -1. -/
noncomputable def inner : ℕ → ℝ := fun s => if s = 0 then Number.ofInt 2 else -1

lemma admits_inner : wide.Admits inner := by
  intro s b h
  rcases eq_or_ne s 0 with rfl | hs
  · cases h
    norm_num [inner, Bounds.mem_iff]
  · rw [wide, if_neg hs] at h
    cases h
    norm_num [inner, hs, Bounds.mem_iff]

lemma refines_narrow : narrow.Refines wide := by
  intro s b h
  rcases eq_or_ne s 0 with rfl | hs
  · cases h
    exact ⟨⟨Number.ofInt 2, Number.ofInt 2⟩, rfl, by norm_num, le_rfl, le_rfl⟩
  · rw [wide, if_neg hs] at h
    cases h
    exact ⟨⟨0, 1⟩, if_neg hs, by norm_num, by norm_num, by norm_num⟩

/-- The bounds of the ratio contain its value -1/2 for the symbols 2 and -1, and over the smaller
bounds of the symbols there are bounds again, which are a part of them. -/
theorem evaluate_ratio_encloses :
    ratio.evaluate wide = .ok ⟨-5, 3⟩ ∧ wide.Admits inner ∧ ratio.IsDefinedAt inner ∧
      ratio.value inner = -1 / 2 ∧ ratio.value inner ∈ (⟨-5, 3⟩ : Bounds ℝ) ∧
      narrow.Refines wide ∧ ∃ b, ratio.evaluate narrow = .ok b ∧ b.IsPartOf ⟨-5, 3⟩ := by
  obtain ⟨hsound, hisotonic⟩ := Expr.evaluate_encloses evaluate_ratio
  obtain ⟨hdefined, hvalue⟩ := hsound inner admits_inner
  refine ⟨evaluate_ratio, admits_inner, hdefined, ?_, hvalue, refines_narrow,
    hisotonic narrow refines_narrow⟩
  norm_num [ratio, inner, Arith.apply]

end ShiftedRatio

end Roundoff
