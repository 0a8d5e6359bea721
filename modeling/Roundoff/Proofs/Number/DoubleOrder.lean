/-
# The order of doubles

The comparisons of doubles are not those of an order: what is not a number differs from itself and
is neither less nor greater than anything, and the two zeros are equal without being the same.
Neither is a difficulty for the *rank* of a double.  Ranks are linearly ordered, with what is not a
number at the bottom and the two zeros in one place, and every comparison of doubles is one of their
ranks.

The larger one of two doubles, which ignores what is not a number, is then the one of the larger
rank (`Double.rank_max`).
-/
import Mathlib
import Roundoff.Number.Double

namespace Roundoff

open Float.Model (UnpackedFloat)

/-! ## Ranks -/

/-- The ranks of doubles: a sign, an exponent and a mantissa, compared in this order, or the rank of
what is not a number. -/
abbrev Rank : Type := WithBot (ℤ ×ₗ ℤ ×ₗ ℤ)

namespace Rank

/-- The rank of a number. -/
def of (sign exponent mantissa : ℤ) : Rank :=
  ((toLex (sign, toLex (exponent, mantissa)) : ℤ ×ₗ ℤ ×ₗ ℤ) : Rank)

@[simp] lemma of_ne_bot (s e m : ℤ) : of s e m ≠ ⊥ := WithBot.coe_ne_bot

@[simp] lemma of_lt_of {s e m s' e' m' : ℤ} :
    of s e m < of s' e' m' ↔ s < s' ∨ s = s' ∧ (e < e' ∨ e = e' ∧ m < m') := by
  rw [of, of, WithBot.coe_lt_coe, Prod.Lex.toLex_lt_toLex, Prod.Lex.toLex_lt_toLex]

@[simp] lemma of_inj {s e m s' e' m' : ℤ} : of s e m = of s' e' m' ↔ s = s' ∧ e = e' ∧ m = m' := by
  rw [of, of, WithBot.coe_inj, toLex_inj, Prod.mk_inj, toLex_inj, Prod.mk_inj]

/-- The rank of the parts of a double.  Negative numbers are the less, the larger their magnitude
is. -/
def ofParts : UnpackedFloat → Rank
  | .notANumber => ⊥
  | .infinity .negative => of (-2) 0 0
  | .finite .negative mantissa exponent _ => of (-1) (-exponent) (-mantissa)
  | .zero _ => of 0 0 0
  | .finite .positive mantissa exponent _ => of 1 exponent mantissa
  | .infinity .positive => of 2 0 0

variable {a b : UnpackedFloat}

lemma lt_parts_iff : a.lt b = true ↔ ofParts a ≠ ⊥ ∧ ofParts a < ofParts b := by
  have hsign : compare UnpackedFloat.Sign.negative .positive = .lt := rfl
  rcases a with (_ | _) | _ | (_ | _) | ⟨_ | _, m, e, _⟩ <;>
    rcases b with (_ | _) | _ | (_ | _) | ⟨_ | _, m', e', _⟩ <;>
    simp [UnpackedFloat.lt, UnpackedFloat.compare, ofParts, Ordering.then_eq_lt,
      Ordering.then_eq_gt, Ordering.swap_eq_lt, Int.compare_eq_lt, Nat.compare_eq_lt,
      Int.compare_eq_gt, Nat.compare_eq_gt, hsign]

lemma beq_parts_iff : a.beq b = true ↔ ofParts a ≠ ⊥ ∧ ofParts a = ofParts b := by
  have hsign : compare UnpackedFloat.Sign.negative .positive = .lt := rfl
  have hself (s : UnpackedFloat.Sign) : compare s s = .eq := by cases s <;> rfl
  rcases a with (_ | _) | _ | (_ | _) | ⟨_ | _, m, e, _⟩ <;>
    rcases b with (_ | _) | _ | (_ | _) | ⟨_ | _, m', e', _⟩ <;>
    simp [UnpackedFloat.beq, UnpackedFloat.compare, ofParts, Ordering.then_eq_eq, hsign, hself]

lemma le_parts_iff : a.le b = true ↔ ofParts a ≠ ⊥ ∧ ofParts a ≤ ofParts b := by
  have hle : a.le b = true ↔ a.lt b = true ∨ a.beq b = true := by
    rw [UnpackedFloat.le, UnpackedFloat.lt, UnpackedFloat.beq]
    cases a.compare b with
    | none => simp
    | some o => cases o <;> simp
  rw [hle, lt_parts_iff, beq_parts_iff, ← and_or_left, le_iff_lt_or_eq]

end Rank

namespace Double

/-- The rank of a double. -/
def rank (x : Float) : Rank := Rank.ofParts x.toModel.unpack

variable {x y z : Float}

lemma lt_iff : x < y ↔ rank x ≠ ⊥ ∧ rank x < rank y := by
  rw [rank, rank, ← Rank.lt_parts_iff]
  exact decide_eq_true_iff

lemma le_iff : x ≤ y ↔ rank x ≠ ⊥ ∧ rank x ≤ rank y := by
  rw [rank, rank, ← Rank.le_parts_iff]
  exact decide_eq_true_iff

lemma beq_iff : (x == y) = true ↔ rank x ≠ ⊥ ∧ rank x = rank y := Rank.beq_parts_iff

/-- What is not a number is at the bottom. -/
lemma isNaN_iff : Number.isNaN x = true ↔ rank x = ⊥ := by
  have hself : (x == x) = true ↔ rank x ≠ ⊥ := by rw [beq_iff, and_iff_left rfl]
  change (!(x == x)) = true ↔ _
  rw [Bool.not_eq_true', ← Bool.not_eq_true, hself, not_not]

/-- **The larger one of two doubles has the larger rank.** -/
theorem rank_max (x y : Float) : rank (Number.max x y) = max (rank x) (rank y) := by
  rw [Number.max]
  split
  · next h =>
    refine (max_eq_left ?_).symm
    rcases h with hlt | hnan
    · exact (lt_iff.1 hlt).2.le
    · rw [isNaN_iff.1 hnan]
      exact bot_le
  · next h =>
    rw [not_or] at h
    refine (max_eq_right (le_of_not_gt fun hlt => h.1 (lt_iff.2 ⟨?_, hlt⟩))).symm
    exact fun hbot => h.2 (isNaN_iff.2 hbot)

lemma max_eq_or (x y : Float) : Number.max x y = x ∨ Number.max x y = y := by
  rw [Number.max]
  exact ite_eq_or_eq ..

/-- The larger of two numbers, of which one may be missing, is one of them and no less than both. -/
lemma of_merge_max {o o' : Option Float} {y : Float} (h : o.merge Number.max o' = some y) :
    (o = some y ∨ o' = some y) ∧ (∀ x, o = some x → rank x ≤ rank y) ∧
      ∀ x, o' = some x → rank x ≤ rank y := by
  cases o with
  | none =>
    rw [Option.merge_none_left] at h
    exact ⟨Or.inr h, nofun, fun x hx => (congrArg rank (Option.some.inj (hx.symm.trans h))).le⟩
  | some a =>
    cases o' with
    | none =>
      cases h
      exact ⟨Or.inl rfl, fun x hx => (congrArg rank (Option.some.inj hx.symm)).le, nofun⟩
    | some b =>
      obtain rfl : Number.max a b = y := Option.some.inj h
      refine ⟨(max_eq_or a b).imp (congrArg some ·.symm) (congrArg some ·.symm), ?_, ?_⟩
      · rintro _ ⟨⟩
        rw [rank_max]
        exact le_max_left _ _
      · rintro _ ⟨⟩
        rw [rank_max]
        exact le_max_right _ _

/-! ## Equality -/

/-- The same number, where the two zeros are one, or both not a number. -/
def Agree (x y : Float) : Prop := (x == y) = true ∨ Number.isNaN x = true ∧ Number.isNaN y = true

lemma agree_iff : Agree x y ↔ rank x = rank y := by
  rw [Agree, beq_iff, isNaN_iff, isNaN_iff]
  constructor
  · rintro (⟨-, h⟩ | ⟨hx, hy⟩)
    · exact h
    · rw [hx, hy]
  · intro h
    by_cases hx : rank x = ⊥
    · exact Or.inr ⟨hx, h ▸ hx⟩
    · exact Or.inl ⟨hx, h⟩

end Double

end Roundoff
