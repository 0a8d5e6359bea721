/-
# Values and bounds of expressions

An expression has a value for every assignment of numbers to its symbols.  Over the reals two facts
about it are set up here: simplification does not change the value, and interval evaluation encloses
it.  The second one is `value_mem_evaluate`, by induction over the expression: the bounds of an
operation contain the results on all numbers between the bounds of its operands.
-/
import Mathlib
import Roundoff.Proofs.Expr.Recursion
import Roundoff.Proofs.Number.Exact

namespace Roundoff

deriving instance ReflBEq, LawfulBEq for Expr

/-! ## Values -/

/-- The result of an operation on two numbers. -/
def Arith.apply {R : Type} [Number R] (x y : R) : Arith → R
  | add => x + y
  | sub => x - y
  | mul => x * y
  | div => x / y

namespace Expr

/-- The value of an expression for an assignment of its symbols. -/
def value {R : Type} [Number R] (x : ℕ → R) : Expr R → R
  | const c => c
  | symbol s => x s
  | op o a b => o.apply (a.value x) (b.value x)

/-- Whether no divisor in an expression is zero. -/
def IsDefinedAt {R : Type} [Number R] (x : ℕ → R) : Expr R → Prop
  | const _ | symbol _ => True
  | op o a b => a.IsDefinedAt x ∧ b.IsDefinedAt x ∧ (o = .div → b.value x ≠ 0)

variable {x : ℕ → ℝ}

@[simp] lemma value_const (c : ℝ) : (const c).value x = c := rfl

@[simp] lemma value_symbol (s : ℕ) : (symbol s).value x = x s := rfl

@[simp] lemma value_op (o : Arith) (a b : Expr ℝ) :
    (op o a b).value x = o.apply (a.value x) (b.value x) := rfl

/-! ## Simplification -/

lemma isZero_iff {e : Expr ℝ} : e.isZero = true ↔ e = const 0 := by
  cases e <;> simp [isZero]

lemma isOne_iff {e : Expr ℝ} : e.isOne = true ↔ e = const 1 := by
  cases e <;> simp [isOne]

lemma value_of_isZero {e : Expr ℝ} (h : e.isZero) : e.value x = 0 := by
  rw [isZero_iff.1 h, value_const]

lemma value_of_isOne {e : Expr ℝ} (h : e.isOne) : e.value x = 1 := by
  rw [isOne_iff.1 h, value_const]

lemma value_addSimplified (a b : Expr ℝ) : (addSimplified a b).value x = a.value x + b.value x := by
  unfold addSimplified
  split
  · rfl
  · split_ifs with ha hb
    · rw [value_of_isZero ha, zero_add]
    · rw [value_of_isZero hb, add_zero]
    · rfl

lemma value_subSimplified (a b : Expr ℝ) : (subSimplified a b).value x = a.value x - b.value x := by
  unfold subSimplified
  split
  · rfl
  · split_ifs with hb hab
    · rw [value_of_isZero hb, sub_zero]
    · rw [eq_of_beq hab, sub_self]
      rfl
    · rfl

lemma value_mulSimplified (a b : Expr ℝ) : (mulSimplified a b).value x = a.value x * b.value x := by
  unfold mulSimplified
  split
  · rfl
  · split_ifs with h₀ ha hb
    · rcases Bool.or_eq_true_iff.1 h₀ with ha | hb
      · rw [value_of_isZero ha, zero_mul]
        rfl
      · rw [value_of_isZero hb, mul_zero]
        rfl
    · rw [value_of_isOne ha, one_mul]
    · rw [value_of_isOne hb, mul_one]
    · rfl

/-- Over the reals a quotient with divisor zero is zero, so that a dividend zero may be dropped
without a look at the divisor. -/
lemma value_divSimplified (a b : Expr ℝ) : (divSimplified a b).value x = a.value x / b.value x := by
  unfold divSimplified
  split_ifs with ha
  · rw [value_of_isZero ha, zero_div]
    rfl
  · split
    · split_ifs <;> rfl
    · split_ifs with hb
      · rw [value_of_isOne hb, div_one]
      · rfl

lemma value_combine (o : Arith) (a b : Expr ℝ) :
    (combine o a b).value x = o.apply (a.value x) (b.value x) := by
  cases o with
  | add => exact value_addSimplified a b
  | sub => exact value_subSimplified a b
  | mul => exact value_mulSimplified a b
  | div => exact value_divSimplified a b

@[simp] lemma value_simplify (e : Expr ℝ) : e.simplify.value x = e.value x := by
  induction e with
  | const c => rfl
  | symbol s => rfl
  | op o a b iha ihb => rw [simplify, value_combine, iha, ihb, value_op]

end Expr

/-! ## Bounds -/

namespace Bounds

/-- A number lies between two bounds. -/
instance : Membership ℝ (Bounds ℝ) := ⟨fun b x => b.lo ≤ x ∧ x ≤ b.hi⟩

variable {x y : ℝ} {a b : Bounds ℝ}

lemma mem_iff : x ∈ a ↔ a.lo ≤ x ∧ x ≤ a.hi := Iff.rfl

lemma mem_point (x : ℝ) : x ∈ point x := ⟨le_rfl, le_rfl⟩

lemma mem_of {l h : ℝ} (hl : l ≤ x) (hh : x ≤ h) : x ∈ of l h := by
  rw [mem_iff, of, Number.min_real, Number.max_real]
  exact ⟨(min_le_left l h).trans hl, hh.trans (le_max_right l h)⟩

lemma add_mem (hx : x ∈ a) (hy : y ∈ b) : x + y ∈ a.add b :=
  mem_of (add_le_add hx.1 hy.1) (add_le_add hx.2 hy.2)

lemma sub_mem (hx : x ∈ a) (hy : y ∈ b) : x - y ∈ a.sub b :=
  mem_of (sub_le_sub hx.1 hy.2) (sub_le_sub hx.2 hy.1)

/-- A product by a fixed factor lies between the products of the ends. -/
lemma mul_mem_ends (hx : x ∈ a) (y : ℝ) :
    min (a.lo * y) (a.hi * y) ≤ x * y ∧ x * y ≤ max (a.lo * y) (a.hi * y) := by
  rcases le_total 0 y with hy | hy
  · exact ⟨min_le_of_left_le (mul_le_mul_of_nonneg_right hx.1 hy),
      le_max_of_le_right (mul_le_mul_of_nonneg_right hx.2 hy)⟩
  · exact ⟨min_le_of_right_le (mul_le_mul_of_nonpos_right hx.2 hy),
      le_max_of_le_left (mul_le_mul_of_nonpos_right hx.1 hy)⟩

lemma mul_mem (hx : x ∈ a) (hy : y ∈ b) : x * y ∈ a.mul b := by
  have hxy := mul_mem_ends hx y
  have hlo := mul_mem_ends hy a.lo
  have hhi := mul_mem_ends hy a.hi
  simp only [mul_comm _ a.lo, mul_comm _ a.hi] at hlo hhi
  simp only [mul, Number.isNaN_real, Bool.false_eq_true, if_false, Number.min_real, Number.max_real]
  apply mem_of
  · exact le_trans (by grind) hxy.1
  · exact hxy.2.trans (by grind)

lemma containsZero_iff : a.containsZero = true ↔ (0 : ℝ) ∈ a := by
  simp [containsZero, mem_iff]

lemma inv_mem (hy : y ∈ b) (h0 : (0 : ℝ) ∉ b) : 1 / y ∈ of (1 / b.hi) (1 / b.lo) := by
  rcases lt_or_ge 0 b.lo with hlo | hlo
  · have hy0 : 0 < y := hlo.trans_le hy.1
    exact mem_of (one_div_le_one_div_of_le hy0 hy.2) (one_div_le_one_div_of_le hlo hy.1)
  · have hhi : b.hi < 0 := lt_of_not_ge fun h => h0 ⟨hlo, h⟩
    have hy0 : y < 0 := hy.2.trans_lt hhi
    exact mem_of (one_div_le_one_div_of_neg_of_le hhi hy.2)
      (one_div_le_one_div_of_neg_of_le hy0 hy.1)

lemma div_mem {c : Bounds ℝ} (hx : x ∈ a) (hy : y ∈ b) (h : a.div b = some c) : x / y ∈ c := by
  unfold div at h
  split at h
  · cases h
  · next h0 =>
    rw [containsZero_iff] at h0
    cases h
    rw [div_eq_mul_one_div x y]
    exact mul_mem hx (inv_mem hy h0)

lemma abs_le_maxAbs (hx : x ∈ a) : |x| ≤ a.maxAbs := by
  rw [maxAbs, Number.max_real, Number.abs_real, Number.abs_real]
  exact abs_le_max_abs_abs hx.1 hx.2

lemma maxAbs_nonneg (a : Bounds ℝ) : 0 ≤ a.maxAbs := by
  rw [maxAbs, Number.max_real, Number.abs_real]
  exact le_max_of_le_left (abs_nonneg a.lo)

end Bounds

lemma Arith.apply_mem {o : Arith} {x y : ℝ} {a b c : Bounds ℝ} (hx : x ∈ a) (hy : y ∈ b)
    (h : o.bounds? a b = some c) : o.apply x y ∈ c := by
  cases o with
  | add => exact Option.some.inj h ▸ Bounds.add_mem hx hy
  | sub => exact Option.some.inj h ▸ Bounds.sub_mem hx hy
  | mul => exact Option.some.inj h ▸ Bounds.mul_mem hx hy
  | div => exact Bounds.div_mem hx hy h

/-! ## Evaluation -/

/-- The assignments whose values lie between the bounds of the symbols, as far as these are
known. -/
def SymbolBounds.Admits (lookup : SymbolBounds ℝ) (x : ℕ → ℝ) : Prop :=
  ∀ s b, lookup s = .ok b → x s ∈ b

namespace Expr

variable {x : ℕ → ℝ} {lookup : SymbolBounds ℝ}

/-- Interval evaluation encloses the value of an expression. -/
lemma value_mem_evaluate (hx : lookup.Admits x) {e : Expr ℝ} {b : Bounds ℝ}
    (h : e.evaluate lookup = .ok b) : e.value x ∈ b := by
  induction e generalizing b with
  | const c =>
    rw [evaluate_const] at h
    cases h
    exact Bounds.mem_point c
  | symbol s =>
    rw [evaluate_symbol] at h
    exact hx s b h
  | op o l r ihl ihr =>
    obtain ⟨bl, hl, br, hr, h⟩ := evaluate_op_eq_ok_iff.1 h
    exact Arith.apply_mem (ihl hl) (ihr hr) h

/-- The largest magnitude of an expression is that of its bounds.  That the magnitude of a constant
is taken without an evaluation makes no difference. -/
lemma maxAbs_eq_ok_iff {e : Expr ℝ} {k : ℝ} :
    e.maxAbs lookup = .ok k ↔ ∃ b, e.evaluate lookup = .ok b ∧ b.maxAbs = k := by
  unfold maxAbs
  split
  · next c hc =>
    obtain rfl : e = const c := by
      cases e with
      | const d => rw [Option.some.inj hc]
      | symbol s => cases hc
      | op o a b => cases hc
    simp [Bounds.point, Bounds.maxAbs]
  · cases e.evaluate lookup <;> simp [Except.map]

lemma maxAbs_nonneg {e : Expr ℝ} {k : ℝ} (h : e.maxAbs lookup = .ok k) : 0 ≤ k := by
  obtain ⟨b, -, rfl⟩ := maxAbs_eq_ok_iff.1 h
  exact b.maxAbs_nonneg

/-- The largest magnitude of an expression bounds its value. -/
lemma abs_value_le_maxAbs (hx : lookup.Admits x) {e : Expr ℝ} {k : ℝ}
    (h : e.maxAbs lookup = .ok k) : |e.value x| ≤ k := by
  obtain ⟨b, hb, rfl⟩ := maxAbs_eq_ok_iff.1 h
  exact Bounds.abs_le_maxAbs (value_mem_evaluate hx hb)

end Expr

end Roundoff
