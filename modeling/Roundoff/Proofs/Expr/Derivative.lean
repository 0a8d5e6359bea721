/-
# Derivatives of expressions

Along a straight line through its assignments an expression is a function of one real variable.
Where the expression is defined, the derivative of this function is the sum of the symbolic
derivatives, each times the speed of its symbol.  By the mean value inequality two assignments in a
box give values that differ by at most `Σ Kⱼ · |yⱼ - xⱼ|`, if `Kⱼ` bounds the magnitude of the
derivative by the symbol `j` over the box.  If the value changes at a constant rate along a line,
then the rate is that sum at any point of the line, so a box that the line only touches bounds it.

The symbolic derivative of an expression by a symbol is simplified at every level, which keeps its
value and introduces no zero divisor.  So wherever the expression is defined, and then also nearby,
the symbolic derivative is defined and is the derivative of the expression as a function of this
symbol alone.  The derivative by a symbol that does not occur is simplified to the constant zero.
-/
import Mathlib
import Roundoff.Proofs.Expr.Simplification
import Roundoff.Proofs.Expr.Value

namespace Roundoff

namespace Expr

variable {x d : ℕ → ℝ} {t : ℝ}

/-! ## Symbolic derivatives -/

lemma value_diff_add (s : ℕ) (a b : Expr ℝ) :
    ((op .add a b).diff s).value x = (a.diff s).value x + (b.diff s).value x := by
  change (op .add (a.diff s) (b.diff s)).simplify.value x = _
  rw [value_simplify]
  rfl

lemma value_diff_sub (s : ℕ) (a b : Expr ℝ) :
    ((op .sub a b).diff s).value x = (a.diff s).value x - (b.diff s).value x := by
  change (op .sub (a.diff s) (b.diff s)).simplify.value x = _
  rw [value_simplify]
  rfl

lemma value_diff_mul (s : ℕ) (a b : Expr ℝ) :
    ((op .mul a b).diff s).value x
      = (a.diff s).value x * b.value x + a.value x * (b.diff s).value x := by
  change (op .add (op .mul (a.diff s) b) (op .mul a (b.diff s))).simplify.value x = _
  rw [value_simplify]
  rfl

lemma value_diff_div (s : ℕ) (a b : Expr ℝ) :
    ((op .div a b).diff s).value x
      = ((a.diff s).value x * b.value x - a.value x * (b.diff s).value x)
        / (b.value x * b.value x) := by
  change (op .div (op .sub (op .mul (a.diff s) b) (op .mul a (b.diff s)))
    (op .mul b b)).simplify.value x = _
  rw [value_simplify]
  rfl

/-! ## Derivatives along a line -/

/-- The assignment at time `t` on the line through `x` with speed `d`. -/
def line (x d : ℕ → ℝ) (t : ℝ) : ℕ → ℝ := fun s => x s + t * d s

/-- The derivative of an expression along a line, found symbol by symbol. -/
noncomputable def speed (symbols : Finset ℕ) (x d : ℕ → ℝ) (e : Expr ℝ) : ℝ :=
  ∑ s ∈ symbols, (e.diff s).value x * d s

lemma speed_symbol {symbols : Finset ℕ} (hd : ∀ s ∉ symbols, d s = 0) (s : ℕ) :
    speed symbols x d (symbol s) = d s := by
  have hterm : ∀ r, ((symbol s : Expr ℝ).diff r).value x * d r = if s = r then d r else 0 := by
    intro r
    rw [diff, value_const]
    split <;> simp
  rw [speed, Finset.sum_congr rfl fun r _ => hterm r, Finset.sum_ite_eq]
  split
  · rfl
  · next hs => exact (hd s hs).symm

lemma hasDerivAt_value_line {symbols : Finset ℕ} (hd : ∀ s ∉ symbols, d s = 0) {e : Expr ℝ}
    (he : e.IsDefinedAt (line x d t)) :
    HasDerivAt (fun t => e.value (line x d t)) (speed symbols (line x d t) d e) t := by
  induction e with
  | const c =>
    have hzero : speed symbols (line x d t) d (const c) = 0 := by
      simp [speed, diff]
    rw [hzero]
    exact hasDerivAt_const t c
  | symbol s =>
    rw [speed_symbol hd]
    change HasDerivAt (fun t => x s + t * d s) (d s) t
    simpa only [one_mul] using ((hasDerivAt_id' t).mul_const (d s)).const_add (x s)
  | op o a b iha ihb =>
    obtain ⟨ha, hb, hne⟩ := he
    cases o with
    | add =>
      refine ((iha ha).add (ihb hb)).congr_deriv ?_
      simp only [speed, value_diff_add, add_mul, Finset.sum_add_distrib]
    | sub =>
      refine ((iha ha).sub (ihb hb)).congr_deriv ?_
      simp only [speed, value_diff_sub, sub_mul, Finset.sum_sub_distrib]
    | mul =>
      refine ((iha ha).mul (ihb hb)).congr_deriv ?_
      simp only [speed, value_diff_mul, add_mul, Finset.sum_add_distrib, Finset.sum_mul,
        Finset.mul_sum]
      congr 1 <;> exact Finset.sum_congr rfl fun s _ => by ring
    | div =>
      refine ((iha ha).div (ihb hb) (hne rfl)).congr_deriv ?_
      simp only [speed, value_diff_div, Finset.sum_mul, Finset.mul_sum, ← Finset.sum_sub_distrib,
        Finset.sum_div]
      exact Finset.sum_congr rfl fun s _ => by ring

/-! ## The mean value inequality -/

/-- The values of an expression at the ends of a line differ by at most the sum of the steps of the
symbols, each times a bound of the derivative by it. -/
lemma abs_value_sub_le {symbols : Finset ℕ} (hd : ∀ s ∉ symbols, d s = 0) {e : Expr ℝ}
    (he : ∀ t ∈ Set.Icc (0 : ℝ) 1, e.IsDefinedAt (line x d t)) {K : ℕ → ℝ}
    (hK : ∀ s ∈ symbols, ∀ t ∈ Set.Icc (0 : ℝ) 1, |(e.diff s).value (line x d t)| ≤ K s) :
    |e.value (line x d 1) - e.value (line x d 0)| ≤ ∑ s ∈ symbols, K s * |d s| := by
  have hspeed : ∀ t ∈ Set.Icc (0 : ℝ) 1,
      |speed symbols (line x d t) d e| ≤ ∑ s ∈ symbols, K s * |d s| := by
    intro t ht
    refine (Finset.abs_sum_le_sum_abs _ _).trans (Finset.sum_le_sum fun s hs => ?_)
    rw [abs_mul]
    exact mul_le_mul_of_nonneg_right (hK s hs t ht) (abs_nonneg _)
  exact norm_image_sub_le_of_norm_deriv_le_segment_01'
    (fun t ht => (hasDerivAt_value_line hd (he t ht)).hasDerivWithinAt)
    (fun t ht => hspeed t (Set.Ico_subset_Icc_self ht))

end Expr

/-! ## Boxes -/

/-- A line between two assignments in a box stays in the box. -/
lemma SymbolBounds.Admits.line {lookup : SymbolBounds ℝ} {x y : ℕ → ℝ} (hx : lookup.Admits x)
    (hy : lookup.Admits y) {t : ℝ} (ht : t ∈ Set.Icc (0 : ℝ) 1) :
    lookup.Admits (Expr.line x (y - x) t) := by
  intro s b hb
  obtain ⟨hx₁, hx₂⟩ := hx s b hb
  obtain ⟨hy₁, hy₂⟩ := hy s b hb
  have hsplit : Expr.line x (y - x) t s = (1 - t) * x s + t * y s := by
    simp only [Expr.line, Pi.sub_apply]
    ring
  have h1t : 0 ≤ 1 - t := sub_nonneg.2 ht.2
  rw [Bounds.mem_iff, hsplit]
  constructor
  · nlinarith [mul_le_mul_of_nonneg_left hx₁ h1t, mul_le_mul_of_nonneg_left hy₁ ht.1]
  · nlinarith [mul_le_mul_of_nonneg_left hx₂ h1t, mul_le_mul_of_nonneg_left hy₂ ht.1]

/-- Two assignments in a box that agree outside some symbols give values that differ by at most the
differences of these symbols, each times a bound of the derivative over the box. -/
lemma Expr.abs_value_sub_le_of_admits {lookup : SymbolBounds ℝ} {x y : ℕ → ℝ}
    (hx : lookup.Admits x) (hy : lookup.Admits y) {symbols : Finset ℕ}
    (hsame : ∀ s ∉ symbols, y s = x s) {e : Expr ℝ}
    (he : ∀ t ∈ Set.Icc (0 : ℝ) 1, e.IsDefinedAt (line x (y - x) t)) {K : ℕ → ℝ}
    (hK : ∀ s ∈ symbols, (e.diff s).maxAbs lookup = .ok (K s)) :
    |e.value y - e.value x| ≤ ∑ s ∈ symbols, K s * |y s - x s| := by
  have h0 : line x (y - x) 0 = x := by
    funext s
    simp [line]
  have h1 : line x (y - x) 1 = y := by
    funext s
    simp [line]
  have hzero : ∀ s ∉ symbols, (y - x) s = 0 := fun s hs => sub_eq_zero.2 (hsame s hs)
  have hmain := abs_value_sub_le hzero he
    (fun s hs t ht => abs_value_le_maxAbs (hx.line hy ht) (hK s hs))
  rwa [h0, h1] at hmain

namespace Expr

variable {x d : ℕ → ℝ} {e : Expr ℝ} {ℓ : ℝ}

/-! ## Constant rates -/

/-- A constant rate of change along a line through a box is bounded by bounds of the derivatives. -/
lemma abs_rate_le {symbols : Finset ℕ} (hd : ∀ s ∉ symbols, d s = 0) (he : e.IsDefinedAt x)
    (hrate : ∀ t, e.value (line x d t) = e.value x + t * ℓ) {lookup : SymbolBounds ℝ}
    (hx : lookup.Admits x) {K : ℕ → ℝ}
    (hK : ∀ s ∈ symbols, (e.diff s).maxAbs lookup = .ok (K s)) :
    |ℓ| ≤ ∑ s ∈ symbols, K s * |d s| := by
  have hstart : line x d 0 = x := by
    funext s
    simp [line]
  have hderiv := hasDerivAt_value_line (x := x) (t := 0) hd (by rwa [hstart])
  rw [hstart, funext hrate] at hderiv
  have hconst : HasDerivAt (fun t => e.value x + t * ℓ) ℓ 0 := by
    simpa only [one_mul] using ((hasDerivAt_id' (0 : ℝ)).mul_const ℓ).const_add (e.value x)
  rw [hconst.unique hderiv, speed]
  refine (Finset.abs_sum_le_sum_abs _ _).trans (Finset.sum_le_sum fun s hs => ?_)
  rw [abs_mul]
  exact mul_le_mul_of_nonneg_right (abs_value_le_maxAbs hx (hK s hs)) (abs_nonneg _)

end Expr

/-- Bounds of symbols that are given in order admit some assignment. -/
lemma SymbolBounds.exists_admits {lookup : SymbolBounds ℝ}
    (h : ∀ s b, lookup s = .ok b → b.lo ≤ b.hi) : ∃ x, lookup.Admits x := by
  refine ⟨fun s => match lookup s with
    | .ok b => b.lo
    | .error _ => 0, fun s b hb => ?_⟩
  dsimp only
  rw [hb]
  exact ⟨le_rfl, h s b hb⟩

section PartialDerivatives

open Filter Topology

namespace Expr

variable {x : ℕ → ℝ} {s : ℕ} {e : Expr ℝ}

/-! ## Where derivatives are defined -/

/-- Differentiation divides by squares of divisors only. -/
lemma IsDefinedAt.diff (h : e.IsDefinedAt x) (s : ℕ) : (e.diff s).IsDefinedAt x := by
  induction e with
  | const c => trivial
  | symbol t => trivial
  | op o a b iha ihb =>
    obtain ⟨ha, hb, hne⟩ := h
    have ha' := iha ha
    have hb' := ihb hb
    cases o with
    | add => exact IsDefinedAt.simplify ⟨ha', hb', nofun⟩
    | sub => exact IsDefinedAt.simplify ⟨ha', hb', nofun⟩
    | mul => exact IsDefinedAt.simplify ⟨⟨ha', hb, nofun⟩, ⟨ha, hb', nofun⟩, nofun⟩
    | div =>
      have hsquare : b.value x * b.value x ≠ 0 := mul_ne_zero (hne rfl) (hne rfl)
      exact IsDefinedAt.simplify ⟨⟨⟨ha', hb, nofun⟩, ⟨ha, hb', nofun⟩, nofun⟩, ⟨hb, hb, nofun⟩,
        fun _ => hsquare⟩

/-! ## Changing a single symbol -/

/-- A single symbol changes along a line that starts where it is zero. -/
lemma line_update (x : ℕ → ℝ) (s : ℕ) (t : ℝ) :
    line (Function.update x s 0) (Pi.single s 1) t = Function.update x s t := by
  funext r
  rcases eq_or_ne r s with rfl | hr
  · simp [line]
  · simp [line, hr]

lemma hasDerivAt_value_update (h : e.IsDefinedAt x) (s : ℕ) :
    HasDerivAt (fun t => e.value (Function.update x s t)) ((e.diff s).value x) (x s) := by
  have hzero : ∀ r ∉ ({s} : Finset ℕ), (Pi.single s 1 : ℕ → ℝ) r = 0 := by
    intro r hr
    exact Pi.single_eq_of_ne (Finset.notMem_singleton.1 hr) 1
  have hderiv := hasDerivAt_value_line (x := Function.update x s 0) (t := x s) hzero (e := e)
  simp only [line_update, Function.update_eq_self] at hderiv
  simpa [speed] using hderiv h

/-- Where no divisor is zero, none is zero after a small change of a symbol. -/
lemma IsDefinedAt.eventually_update (h : e.IsDefinedAt x) (s : ℕ) :
    ∀ᶠ t in 𝓝 (x s), e.IsDefinedAt (Function.update x s t) := by
  induction e with
  | const c => exact Eventually.of_forall fun _ => trivial
  | symbol r => exact Eventually.of_forall fun _ => trivial
  | op o a b iha ihb =>
    obtain ⟨ha, hb, hne⟩ := h
    have hdivisor : ∀ᶠ t in 𝓝 (x s), o = .div → b.value (Function.update x s t) ≠ 0 := by
      by_cases ho : o = .div
      · have hcontinuous := (hasDerivAt_value_update hb s).continuousAt
        have hvalue : b.value (Function.update x s (x s)) ≠ 0 := by
          rw [Function.update_eq_self]
          exact hne ho
        filter_upwards [hcontinuous.eventually_ne hvalue] with t ht _ using ht
      · exact Eventually.of_forall fun _ h => absurd h ho
    filter_upwards [iha ha, ihb hb, hdivisor] with t hat hbt hdt using ⟨hat, hbt, hdt⟩

/-! ## Symbols that do not occur -/

lemma mulSimplified_zero_left (b : Expr ℝ) : mulSimplified (const 0) b = const 0 := by
  cases b <;> simp [mulSimplified, isZero]

lemma mulSimplified_zero_right (a : Expr ℝ) : mulSimplified a (const 0) = const 0 := by
  cases a <;> simp [mulSimplified, isZero]

lemma divSimplified_zero_left (b : Expr ℝ) : divSimplified (const 0) b = const 0 := by
  simp [divSimplified, isZero]

lemma diff_eq_zero (h : s ∉ e.occurrences) : e.diff s = const 0 := by
  induction e with
  | const c => rfl
  | symbol t =>
    have ht : t ≠ s := fun hts => h (by simp [occurrences, hts])
    rw [diff, if_neg ht]
  | op o a b iha ihb =>
    rw [occurrences, List.mem_append, not_or] at h
    have ha := iha h.1
    have hb := ihb h.2
    cases o with
    | add => simp [diff, ha, hb, simplify, combine, addSimplified]
    | sub => simp [diff, ha, hb, simplify, combine, subSimplified]
    | mul =>
      simp [diff, ha, hb, simplify, combine, mulSimplified_zero_left, mulSimplified_zero_right,
        addSimplified]
    | div =>
      simp [diff, ha, hb, simplify, combine, mulSimplified_zero_left, mulSimplified_zero_right,
        subSimplified, divSimplified_zero_left]

/-- **Symbolic derivatives are partial derivatives.**  Wherever an expression is defined it stays
defined while one symbol changes a little, its derivative by this symbol is defined there, and the
value of the derivative is the partial derivative of the value.  The derivative by a symbol that
does not occur is the constant zero. -/
theorem diff_isPartialDerivative (e : Expr ℝ) (s : ℕ) :
    (∀ x : ℕ → ℝ, e.IsDefinedAt x →
        (∀ᶠ t in 𝓝 (x s), e.IsDefinedAt (Function.update x s t)) ∧
          (e.diff s).IsDefinedAt x ∧
          HasDerivAt (fun t => e.value (Function.update x s t)) ((e.diff s).value x) (x s)) ∧
      (s ∉ e.symbols → e.diff s = const 0) := by
  refine ⟨fun x h => ⟨h.eventually_update s, h.diff s, hasDerivAt_value_update h s⟩, fun h => ?_⟩
  rw [mem_symbols] at h
  exact diff_eq_zero h

end Expr

namespace SymbolRatio

/-- The quotient of two symbols. -/
def ratio : Expr ℝ := .op .div (.symbol 0) (.symbol 1)

/-- The dividend 6 and the divisor 2. -/
noncomputable def sixOverTwo : ℕ → ℝ := fun s =>
  if s = 0 then Number.ofInt 6 else Number.ofInt 2

/-- At the divisor 2 the slope of `6 / t` is -3/2, as the derivative of the quotient says; a third
symbol has the derivative zero. -/
theorem diff_isPartialDerivative_of_ratio :
    ratio.IsDefinedAt sixOverTwo ∧ (ratio.diff 1).IsDefinedAt sixOverTwo ∧
      (∀ᶠ t in 𝓝 2, ratio.IsDefinedAt (Function.update sixOverTwo 1 t)) ∧
      HasDerivAt (fun t => 6 / t) (-3 / 2 : ℝ) 2 ∧
      2 ∉ ratio.symbols ∧ ratio.diff 2 = .const 0 := by
  obtain ⟨hderiv, -⟩ := Expr.diff_isPartialDerivative ratio 1
  obtain ⟨-, hzero⟩ := Expr.diff_isPartialDerivative ratio 2
  have hratio : ratio.IsDefinedAt sixOverTwo :=
    ⟨trivial, trivial, fun _ => by norm_num [sixOverTwo]⟩
  have habsent : 2 ∉ ratio.symbols := by
    rw [Expr.mem_symbols]
    simp [ratio, Expr.occurrences]
  obtain ⟨hnear, hdefined, hslope⟩ := hderiv sixOverTwo hratio
  have hvalue : (ratio.diff 1).value sixOverTwo = -3 / 2 := by
    rw [ratio, Expr.value_diff_div]
    norm_num [Expr.diff, sixOverTwo]
  rw [hvalue] at hslope
  refine ⟨hratio, hdefined, by simpa [sixOverTwo] using hnear, ?_, habsent, hzero habsent⟩
  simpa [ratio, sixOverTwo, Arith.apply] using hslope

end SymbolRatio

end PartialDerivatives

end Roundoff
