/-
# Simplified expressions

What the simplification of an operation gives between operands that are simplified already is said
once (`Expr.IsCombination`): a constant, an operand whose partner is neutral, or the operation
itself where no rule applies to it (`Arith.IsReduced`).  So one pass from the bottom to the top
leaves no operation to which a rule applies (`Expr.IsNormal`), and a second pass changes nothing.
-/
import Mathlib
import Roundoff.Proofs.Expr.Value

namespace Roundoff

/-! ## Operations to which no rule applies -/

/-- Whether an expression is a constant. -/
def Expr.IsConst (e : Expr ℝ) : Prop := ∃ c, e = const c

/-- Whether no rule of simplification applies to an operation: its operands are not both constants,
unless it divides by zero, none of them is neutral or absorbing, and it does not take an expression
from itself. -/
def Arith.IsReduced (a b : Expr ℝ) : Arith → Prop
  | add => ¬(a.IsConst ∧ b.IsConst) ∧ a ≠ .const 0 ∧ b ≠ .const 0
  | sub => ¬(a.IsConst ∧ b.IsConst) ∧ b ≠ .const 0 ∧ a ≠ b
  | mul => ¬(a.IsConst ∧ b.IsConst) ∧ a ≠ .const 0 ∧ b ≠ .const 0 ∧ a ≠ .const 1 ∧ b ≠ .const 1
  | div => (a.IsConst ∧ b.IsConst → b = .const 0) ∧ a ≠ .const 0 ∧ b ≠ .const 1

namespace Expr

variable {x : ℕ → ℝ} {o : Arith} {a b e : Expr ℝ} {s : ℕ}

/-- Whether no rule of simplification applies to any operation in an expression. -/
def IsNormal : Expr ℝ → Prop
  | const _ | symbol _ => True
  | op o a b => a.IsNormal ∧ b.IsNormal ∧ o.IsReduced a b

lemma forall_ne_const_iff :
    (∀ c d, a = const c → b = const d → False) ↔ ¬(a.IsConst ∧ b.IsConst) := by
  constructor
  · rintro h ⟨⟨c, hc⟩, d, hd⟩
    exact h c d hc hd
  · exact fun h c d hc hd => h ⟨⟨c, hc⟩, d, hd⟩

/-! ## The rules -/

/-- What the rules make of an operation. -/
inductive IsCombination (o : Arith) (a b : Expr ℝ) : Expr ℝ → Prop
  /-- The operation has a fixed result. -/
  | const (c : ℝ) : IsCombination o a b (const c)
  /-- The right operand is neutral. -/
  | left {z : ℝ} (hb : b = .const z) (hz : ∀ u, o.apply u z = u) : IsCombination o a b a
  /-- The left operand is neutral. -/
  | right {z : ℝ} (ha : a = .const z) (hz : ∀ u, o.apply z u = u) : IsCombination o a b b
  /-- No rule applies. -/
  | op (h : o.IsReduced a b) : IsCombination o a b (op o a b)

lemma isCombination_addSimplified (a b : Expr ℝ) : IsCombination .add a b (addSimplified a b) := by
  unfold addSimplified
  split
  · exact .const _
  · next hconst =>
    split_ifs with ha hb
    · exact .right (isZero_iff.1 ha) zero_add
    · exact .left (isZero_iff.1 hb) add_zero
    · exact .op ⟨forall_ne_const_iff.1 hconst, mt isZero_iff.2 ha, mt isZero_iff.2 hb⟩

lemma isCombination_subSimplified (a b : Expr ℝ) : IsCombination .sub a b (subSimplified a b) := by
  unfold subSimplified
  split
  · exact .const _
  · next hconst =>
    split_ifs with hb hab
    · exact .left (isZero_iff.1 hb) sub_zero
    · exact .const 0
    · exact .op ⟨forall_ne_const_iff.1 hconst, mt isZero_iff.2 hb, mt beq_iff_eq.2 hab⟩

lemma isCombination_mulSimplified (a b : Expr ℝ) : IsCombination .mul a b (mulSimplified a b) := by
  unfold mulSimplified
  split
  · exact .const _
  · next hconst =>
    split_ifs with hzero ha hb
    · exact .const 0
    · exact .right (isOne_iff.1 ha) one_mul
    · exact .left (isOne_iff.1 hb) mul_one
    · rw [Bool.or_eq_true, not_or] at hzero
      exact .op ⟨forall_ne_const_iff.1 hconst, mt isZero_iff.2 hzero.1, mt isZero_iff.2 hzero.2,
        mt isOne_iff.2 ha, mt isOne_iff.2 hb⟩

lemma isCombination_divSimplified (a b : Expr ℝ) : IsCombination .div a b (divSimplified a b) := by
  unfold divSimplified
  split_ifs with ha
  · exact .const 0
  · split
    · next c d =>
      split_ifs with hd
      · refine .op ⟨fun _ => ?_, mt isZero_iff.2 ha, ?_⟩
        · rw [eq_of_beq hd]
        · rw [eq_of_beq hd]
          simp
      · exact .const _
    · next hconst =>
      split_ifs with hb
      · exact .left (isOne_iff.1 hb) div_one
      · refine .op ⟨?_, mt isZero_iff.2 ha, mt isOne_iff.2 hb⟩
        rintro ⟨⟨c, rfl⟩, d, rfl⟩
        exact absurd rfl (hconst c d rfl)

lemma isCombination_combine (o : Arith) (a b : Expr ℝ) : IsCombination o a b (combine o a b) := by
  cases o with
  | add => exact isCombination_addSimplified a b
  | sub => exact isCombination_subSimplified a b
  | mul => exact isCombination_mulSimplified a b
  | div => exact isCombination_divSimplified a b

lemma combine_of_isReduced (h : o.IsReduced a b) : combine o a b = op o a b := by
  cases o with
  | add =>
    obtain ⟨hconst, ha, hb⟩ := h
    rw [combine, addSimplified, if_neg (mt isZero_iff.1 ha), if_neg (mt isZero_iff.1 hb)]
    exact forall_ne_const_iff.2 hconst
  | sub =>
    obtain ⟨hconst, hb, hab⟩ := h
    rw [combine, subSimplified, if_neg (mt isZero_iff.1 hb), if_neg (mt eq_of_beq hab)]
    exact forall_ne_const_iff.2 hconst
  | mul =>
    obtain ⟨hconst, ha, hb, ha₁, hb₁⟩ := h
    have hzero : ¬(a.isZero || b.isZero) = true := by
      rw [Bool.or_eq_true, isZero_iff, isZero_iff]
      exact not_or.2 ⟨ha, hb⟩
    rw [combine, mulSimplified, if_neg hzero, if_neg (mt isOne_iff.1 ha₁),
      if_neg (mt isOne_iff.1 hb₁)]
    exact forall_ne_const_iff.2 hconst
  | div =>
    obtain ⟨hconst, ha, hb⟩ := h
    change divSimplified a b = _
    unfold divSimplified
    rw [if_neg (mt isZero_iff.1 ha)]
    split
    · next c d =>
      have hd : (const d).isZero = true := isZero_iff.2 (hconst ⟨⟨c, rfl⟩, d, rfl⟩)
      rw [isZero] at hd
      rw [if_pos hd]
    · rw [if_neg (mt isOne_iff.1 hb)]

namespace IsCombination

/-- A rule introduces no zero divisor. -/
lemma isDefinedAt (h : IsCombination o a b e) (ha : a.IsDefinedAt x) (hb : b.IsDefinedAt x)
    (hdiv : o = .div → b.value x ≠ 0) : e.IsDefinedAt x := by
  cases h with
  | const c => trivial
  | left _ _ => exact ha
  | right _ _ => exact hb
  | op _ => exact ⟨ha, hb, hdiv⟩

lemma isNormal (h : IsCombination o a b e) (ha : a.IsNormal) (hb : b.IsNormal) : e.IsNormal := by
  cases h with
  | const c => trivial
  | left _ _ => exact ha
  | right _ _ => exact hb
  | op h => exact ⟨ha, hb, h⟩

lemma occurrences_subset (h : IsCombination o a b e) :
    e.occurrences ⊆ a.occurrences ++ b.occurrences := by
  cases h with
  | const c => exact List.nil_subset _
  | left _ _ => exact List.subset_append_left _ _
  | right _ _ => exact List.subset_append_right _ _
  | op _ => exact List.Subset.refl _

end IsCombination

/-! ## Simplification -/

/-- Simplification introduces no zero divisor. -/
lemma IsDefinedAt.simplify (h : e.IsDefinedAt x) : e.simplify.IsDefinedAt x := by
  induction e with
  | const c => trivial
  | symbol s => trivial
  | op o a b iha ihb =>
    obtain ⟨ha, hb, hdiv⟩ := h
    exact (isCombination_combine o _ _).isDefinedAt (iha ha) (ihb hb) (by rwa [value_simplify])

/-- Simplification leaves no operation to which a rule applies. -/
lemma isNormal_simplify (e : Expr ℝ) : e.simplify.IsNormal := by
  induction e with
  | const c => trivial
  | symbol s => trivial
  | op o a b iha ihb => exact (isCombination_combine o _ _).isNormal iha ihb

lemma simplify_of_isNormal (h : e.IsNormal) : e.simplify = e := by
  induction e with
  | const c => rfl
  | symbol s => rfl
  | op o a b iha ihb =>
    obtain ⟨ha, hb, hreduced⟩ := h
    rw [simplify, iha ha, ihb hb, combine_of_isReduced hreduced]

lemma occurrences_simplify_subset (e : Expr ℝ) : e.simplify.occurrences ⊆ e.occurrences := by
  induction e with
  | const c => exact List.Subset.refl _
  | symbol s => exact List.Subset.refl _
  | op o a b iha ihb =>
    have hcombine := (isCombination_combine o a.simplify b.simplify).occurrences_subset
    exact List.Subset.trans hcombine (List.append_subset.2
      ⟨List.subset_append_of_subset_left _ iha, List.subset_append_of_subset_right _ ihb⟩)

lemma mem_symbols : s ∈ e.symbols ↔ s ∈ e.occurrences := List.mem_eraseDups

/-- **Simplification keeps the meaning of an expression.**  Wherever the expression is defined, what
it is simplified to is defined as well and has the same value.  No symbol is added, no operation is
left to which a rule applies, and so simplifying once more changes nothing. -/
theorem simplify_keeps_value (e : Expr ℝ) :
    (∀ x, e.IsDefinedAt x → e.simplify.IsDefinedAt x ∧ e.simplify.value x = e.value x) ∧
      (∀ s ∈ e.simplify.symbols, s ∈ e.symbols) ∧
      e.simplify.IsNormal ∧ e.simplify.simplify = e.simplify := by
  refine ⟨fun x hx => ⟨hx.simplify, value_simplify e⟩, fun s hs => ?_, isNormal_simplify e,
    simplify_of_isNormal (isNormal_simplify e)⟩
  rw [mem_symbols] at hs ⊢
  exact occurrences_simplify_subset e hs

end Expr

namespace ReciprocalSlope

/-- The derivative of `1 / s₀` as the quotient rule gives it. -/
def slope : Expr ℝ :=
  .op .div
    (.op .sub (.op .mul (.const 0) (.symbol 0)) (.op .mul (.const 1) (.const 1)))
    (.op .mul (.symbol 0) (.symbol 0))

lemma simplify_slope :
    slope.simplify = .op .div (.const (-1)) (.op .mul (.symbol 0) (.symbol 0)) := by
  norm_num [slope, Expr.simplify, Expr.combine, Expr.mulSimplified, Expr.subSimplified,
    Expr.divSimplified, Expr.isZero, Expr.isOne]

/-- The slope at 2 is defined before and after the simplification and -1/4 both times. -/
theorem simplify_keeps_value_of_slope :
    slope.IsDefinedAt (fun _ => 2) ∧
      slope.simplify = .op .div (.const (-1)) (.op .mul (.symbol 0) (.symbol 0)) ∧
      slope.simplify.IsDefinedAt (fun _ => 2) ∧ slope.simplify.value (fun _ => 2) = -1 / 4 ∧
      0 ∈ slope.simplify.symbols ∧ 0 ∈ slope.symbols ∧
      slope.simplify.simplify = slope.simplify := by
  obtain ⟨hvalue, hsymbols, -, hidempotent⟩ := Expr.simplify_keeps_value slope
  have hslope : slope.IsDefinedAt fun _ => 2 :=
    ⟨⟨⟨trivial, trivial, nofun⟩, ⟨trivial, trivial, nofun⟩, nofun⟩, ⟨trivial, trivial, nofun⟩,
      fun _ => by norm_num [Arith.apply]⟩
  have hsymbol : 0 ∈ slope.simplify.symbols := by
    rw [simplify_slope, Expr.mem_symbols]
    simp [Expr.occurrences]
  obtain ⟨hdefined, heq⟩ := hvalue _ hslope
  refine ⟨hslope, simplify_slope, hdefined, heq.trans ?_, hsymbol, hsymbols 0 hsymbol, hidempotent⟩
  norm_num [slope, Arith.apply]

end ReciprocalSlope

end Roundoff
