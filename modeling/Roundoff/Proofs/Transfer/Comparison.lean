/-
# When comparisons may flip

A comparison is reported if the errors of its operands, less what the operands share, can make up
for the distance between the ranges.  Without a threshold this is exact, unless the distance is
below the finer rounding error: what is not reported cannot flip, since numbers in the ranges are
farther apart than the errors can move them, and what is reported may flip, since some numbers are
as close as the ranges are and some noise moves them onto each other.

A threshold is a percentage of the larger upper bound of the operands.  This is a percentage of
their magnitude only where no number below zero is larger in magnitude.  If both operands are below
zero, then no comparison is reported, however large the errors are, while it would be for the
negated operands.
-/
import Mathlib
import Roundoff.Proofs.Affine.Norm
import Roundoff.Proofs.Range
import Roundoff.Transfer.Comparison

namespace Roundoff

/-- A number that is moved by less than its magnitude keeps its sign. -/
lemma sign_add_eq {a d : ℝ} (h : |d| < |a|) : SignType.sign (a + d) = SignType.sign a := by
  obtain ⟨hlo, hhi⟩ := abs_lt.1 h
  rcases lt_trichotomy a 0 with ha | rfl | ha
  · rw [abs_of_neg ha] at hhi
    rw [sign_neg ha, sign_neg (by linarith)]
  · exact absurd h (not_lt.2 ((abs_zero (α := ℝ)).trans_le (abs_nonneg d)))
  · rw [abs_of_pos ha] at hlo
    rw [sign_pos ha, sign_pos (by linarith)]

/-- A unit in the last place is at most one. -/
lemma Format.roundingError_le_one (f : Format) : (f.roundingError : ℝ) ≤ 1 := by
  rw [roundingError]
  split
  · exact zero_le_one
  · rw [Number.twoPow_real, zpow_neg, zpow_natCast]
    exact inv_le_one_of_one_le₀ (one_le_pow₀ one_le_two)

namespace Operand

/-- The bounds and the noise terms are in order, and the error has no central value. -/
structure IsOrdered (o : Operand ℝ) : Prop where
  /-- There are numbers in the range. -/
  lo_le_hi : o.range.lo ≤ o.range.hi
  /-- The terms are in order. -/
  isAscending : o.error.terms.IsAscending
  /-- The central value is zero. -/
  central_eq : o.error.central = 0

variable {o o' : Operand ℝ} {t : UInt32}

/-! ## The error that remains -/

/-- The bound of the error that the operands do not share. -/
noncomputable def errorApart (o o' : Operand ℝ) : ℝ := (o.error.sub o'.error).noiseBound

lemma errorApart_nonneg (o o' : Operand ℝ) : 0 ≤ o.errorApart o' := Affine.noiseBound_nonneg _

lemma central_sub (ho : o.IsOrdered) (ho' : o'.IsOrdered) : (o.error.sub o'.error).central = 0 := by
  simp [Affine.sub, ho.central_eq, ho'.central_eq]

/-- It is the largest amount by which noise can change the difference of the operands. -/
lemma isGreatest_errorApart (ho : o.IsOrdered) (ho' : o'.IsOrdered) :
    IsGreatest ((fun ε => |o.error.value ε - o'.error.value ε|) '' {ε | ∀ s, |ε s| ≤ 1})
      (o.errorApart o') := by
  have hgreatest := Affine.isGreatest_noiseBound (f := o.error.sub o'.error)
    (ho.isAscending.merge ho'.isAscending)
  simpa only [central_sub ho ho', sub_zero, Affine.value_sub, errorApart] using hgreatest

lemma abs_value_sub_le (ho : o.IsOrdered) (ho' : o'.IsOrdered) {ε : Symbol → ℝ}
    (hε : ∀ s, |ε s| ≤ 1) : |o.error.value ε - o'.error.value ε| ≤ o.errorApart o' :=
  (isGreatest_errorApart ho ho').2 ⟨ε, hε, rfl⟩

/-- Some noise changes the difference by any given amount up to that. -/
lemma exists_value_sub_eq (ho : o.IsOrdered) (ho' : o'.IsOrdered) {d : ℝ}
    (hd : |d| ≤ o.errorApart o') :
    ∃ ε : Symbol → ℝ, (∀ s, |ε s| ≤ 1) ∧ o.error.value ε - o'.error.value ε = d := by
  obtain ⟨ε, hε, hvalue⟩ := Affine.exists_value_eq (ho.isAscending.merge ho'.isAscending) hd
  change (o.error.sub o'.error).value ε = (o.error.sub o'.error).central + d at hvalue
  rw [Affine.value_sub, central_sub ho ho', zero_add] at hvalue
  exact ⟨ε, hε, hvalue⟩

/-! ## Without a threshold -/

lemma tolerance_compare (o o' : Operand ℝ) (t : UInt32) :
    (o.compare o' t).tolerance = max (o.range.minDistance o'.range)
      (min o.range.roundingError o'.range.roundingError) := by
  simp [compare]

lemma mayFlip_compare (o o' : Operand ℝ) (t : UInt32) :
    (o.compare o' t).mayFlip = true ↔ (o.compare o' t).tolerance ≤ o.errorApart o' ∧
      reachesThreshold t (o.errorApart o') o.range o'.range = true := by
  simp [compare, errorApart]

/-- A comparison is not reported exactly if the error is less than the tolerance. -/
lemma mayFlip_compare_zero (o o' : Operand ℝ) :
    (o.compare o' 0).mayFlip = false ↔ o.errorApart o' < (o.compare o' 0).tolerance := by
  rw [← Bool.not_eq_true, mayFlip_compare, not_and, ← not_le]
  simp [reachesThreshold]

/-- **What is not reported cannot flip, and what is reported may flip.**  If the distance between
the ranges is not below the finer rounding error, then a comparison is not reported, whatever the
size of errors, exactly if the ranges have no number in common and any two numbers in them compare
with their errors as they do without, for all values of the noise that the operands may share. -/
theorem mayFlip_eq_false_iff (ho : o.IsOrdered) (ho' : o'.IsOrdered)
    (hrounding : min o.range.roundingError o'.range.roundingError
      ≤ o.range.minDistance o'.range) :
    (o.compare o' 0).mayFlip = false ↔
      (∀ x ∈ o.range, x ∉ o'.range) ∧
        ∀ x ∈ o.range, ∀ y ∈ o'.range, ∀ ε : Symbol → ℝ, (∀ s, |ε s| ≤ 1) →
          (x + o.error.value ε) - (y + o'.error.value ε) ≠ 0 ∧
            SignType.sign ((x + o.error.value ε) - (y + o'.error.value ε))
              = SignType.sign (x - y) := by
  rw [mayFlip_compare_zero, tolerance_compare, max_eq_left hrounding]
  constructor
  · intro hlt
    have hdisjoint := (Range.minDistance_pos_iff ho.lo_le_hi ho'.lo_le_hi).1
      ((errorApart_nonneg o o').trans_lt hlt)
    refine ⟨hdisjoint, fun x hx y hy ε hε => ?_⟩
    have hmoved : |o.error.value ε - o'.error.value ε| < |x - y| :=
      (abs_value_sub_le ho ho' hε).trans_lt (hlt.trans_le (Range.minDistance_le hx hy))
    have hsign := sign_add_eq hmoved
    rw [add_sub_add_comm]
    refine ⟨?_, hsign⟩
    rw [← sign_ne_zero, hsign, sign_ne_zero, sub_ne_zero]
    rintro rfl
    exact hdisjoint x hx hy
  · rintro ⟨-, halike⟩
    obtain ⟨x, hx, y, hy, hdistance⟩ := Range.exists_abs_sub_eq ho.lo_le_hi ho'.lo_le_hi
    rw [← hdistance, ← not_le]
    intro hle
    -- noise that moves the closest numbers onto each other
    obtain ⟨ε, hε, hvalue⟩ := exists_value_sub_eq ho ho' (d := -(x - y)) (by rwa [abs_neg])
    refine (halike x hx y hy ε hε).1 ?_
    rw [add_sub_add_comm, hvalue, add_neg_cancel]

/-! ### Operands that share a noise symbol -/

namespace SharedNoise

/-- Between 0 and 1, with an error up to 2. -/
noncomputable def left : Operand ℝ := ⟨⟨0, 1, ⟨32, 16, true⟩⟩, ⟨0, [(0, Number.ofInt 2)]⟩⟩

/-- Between 4 and 5, with the error of the left one and up to 1 more. -/
noncomputable def right : Operand ℝ :=
  ⟨⟨Number.ofInt 4, Number.ofInt 5, ⟨32, 16, true⟩⟩, ⟨0, [(0, Number.ofInt 2), (1, 1)]⟩⟩

lemma isOrdered_left : left.IsOrdered where
  lo_le_hi := by norm_num [left]
  isAscending := by simp [left, Terms.IsAscending]
  central_eq := rfl

lemma isOrdered_right : right.IsOrdered where
  lo_le_hi := by norm_num [right]
  isAscending := by simp [right, Terms.IsAscending]
  central_eq := rfl

lemma minDistance_eq : left.range.minDistance right.range = 3 := by
  norm_num [left, right, Range.minDistance]

lemma roundingError_le : min left.range.roundingError right.range.roundingError
    ≤ left.range.minDistance right.range := by
  rw [minDistance_eq]
  exact ((min_le_left _ _).trans (Format.roundingError_le_one _)).trans (by norm_num)

/-- The errors are 2 and 3, and what is not shared is 1. -/
lemma errorApart_eq : left.errorApart right = 1 := by
  norm_num [left, right, errorApart, Affine.noiseBound_eq, Affine.sub, Terms.merge, Terms.mergeStep,
    Terms.push, Affine.joinCoefficient, Affine.nonzero]

/-- The larger operand stays the larger one, though the errors together exceed the distance. -/
theorem mayFlip_eq_false_right : left.IsOrdered ∧ right.IsOrdered ∧
    min left.range.roundingError right.range.roundingError ≤ left.range.minDistance right.range ∧
    (left.compare right 0).mayFlip = false ∧
    ∀ x ∈ left.range, ∀ y ∈ right.range, ∀ ε : Symbol → ℝ, (∀ s, |ε s| ≤ 1) →
      SignType.sign ((x + left.error.value ε) - (y + right.error.value ε))
        = SignType.sign (x - y) := by
  have hquiet : (left.compare right 0).mayFlip = false := by
    rw [mayFlip_compare_zero, errorApart_eq, tolerance_compare, minDistance_eq]
    exact lt_max_of_lt_left (by norm_num)
  obtain ⟨-, hsign⟩ :=
    (mayFlip_eq_false_iff isOrdered_left isOrdered_right roundingError_le).1 hquiet
  exact ⟨isOrdered_left, isOrdered_right, roundingError_le, hquiet,
    fun x hx y hy ε hε => (hsign x hx y hy ε hε).2⟩

end SharedNoise

/-! ## Thresholds -/

/-- Where an upper bound is above zero, a threshold is a percentage of the larger upper bound. -/
lemma reachesThreshold_iff_of_pos {r q : Range ℝ} (ht : t ≠ 0) (hpos : 0 < max r.hi q.hi) (e : ℝ) :
    reachesThreshold t e r q = true ↔ t.toNat * max r.hi q.hi ≤ e * 100 := by
  simp only [reachesThreshold, beq_iff_eq, ht, Number.max_real, Number.ofInt_real, Bool.or_eq_true,
    false_or, decide_eq_true_eq]
  rw [div_mul_eq_mul_div, le_div_iff₀ hpos]
  norm_cast

/-- Where both are below zero, no error reaches a threshold. -/
lemma reachesThreshold_eq_false_of_neg {r q : Range ℝ} (ht : t ≠ 0) (hneg : max r.hi q.hi < 0)
    {e : ℝ} (he : 0 ≤ e) : reachesThreshold t e r q = false := by
  have hquotient : e / max r.hi q.hi * 100 ≤ 0 :=
    mul_nonpos_of_nonpos_of_nonneg (div_nonpos_of_nonneg_of_nonpos he hneg.le) (by norm_num)
  have hpos : (0 : ℝ) < t.toNat := by
    rw [Nat.cast_pos, Nat.pos_iff_ne_zero]
    exact fun hzero => ht (UInt32.toNat_inj.1 hzero)
  simp only [reachesThreshold, ht, Number.max_real, Number.ofInt_real, Bool.or_eq_false_iff,
    beq_eq_false_iff_ne, ne_eq, not_false_eq_true, true_and, decide_eq_false_iff_not, not_le]
  exact_mod_cast hquotient.trans_lt hpos

/-- **What a threshold lets pass.**  Where an upper bound of the operands is above zero, a
comparison is reported exactly if the error reaches the tolerance and the percentage of the larger
upper bound.  So it is reported if the error reaches that percentage of the largest magnitude. -/
theorem mayFlip_iff_of_pos (ht : t ≠ 0) (hpos : 0 < max o.range.hi o'.range.hi) :
    ((o.compare o' t).mayFlip = true ↔ (o.compare o' t).tolerance ≤ o.errorApart o' ∧
        t.toNat * max o.range.hi o'.range.hi ≤ o.errorApart o' * 100) ∧
      ((o.compare o' t).tolerance ≤ o.errorApart o' →
        t.toNat * max o.range.maxAbs o'.range.maxAbs ≤ o.errorApart o' * 100 →
        (o.compare o' t).mayFlip = true) := by
  have hiff := mayFlip_compare o o' t
  rw [reachesThreshold_iff_of_pos ht hpos] at hiff
  refine ⟨hiff, fun htolerance hmagnitude => hiff.2 ⟨htolerance, le_trans ?_ hmagnitude⟩⟩
  exact mul_le_mul_of_nonneg_left (max_le_max o.range.hi_le_maxAbs o'.range.hi_le_maxAbs)
    (Nat.cast_nonneg _)

/-- **Below zero a threshold lets nothing pass**, however large the errors are. -/
theorem mayFlip_eq_false_of_neg (ht : t ≠ 0) (hneg : max o.range.hi o'.range.hi < 0) :
    (o.compare o' t).mayFlip = false := by
  rw [← Bool.not_eq_true, mayFlip_compare,
    reachesThreshold_eq_false_of_neg ht hneg (errorApart_nonneg o o')]
  simp

/-! ### Negated operands -/

/-- The negated operand. -/
noncomputable def neg (o : Operand ℝ) : Operand ℝ :=
  ⟨⟨-o.range.hi, -o.range.lo, o.range.format⟩, o.error.neg⟩

lemma IsOrdered.neg (ho : o.IsOrdered) : o.neg.IsOrdered where
  lo_le_hi := neg_le_neg ho.lo_le_hi
  isAscending := Affine.isAscending_terms_scale ho.isAscending (-1)
  central_eq := by
    rw [Operand.neg, Affine.neg, Affine.central_scale, ho.central_eq, zero_mul]

lemma errorApart_neg (ho : o.IsOrdered) (ho' : o'.IsOrdered) :
    o.neg.errorApart o'.neg = o.errorApart o' := by
  refine (isGreatest_errorApart ho.neg ho'.neg).unique ?_
  have hgreatest := isGreatest_errorApart ho ho'
  simp only [Operand.neg, Affine.neg, Affine.value_scale, mul_neg_one, neg_sub_neg]
  simpa only [abs_sub_comm] using hgreatest

/-- **Without a threshold negated operands compare like the operands.**  A threshold takes the
percentage of another bound for them. -/
theorem compare_neg (ho : o.IsOrdered) (ho' : o'.IsOrdered) :
    o.neg.compare o'.neg 0 = o.compare o' 0 := by
  have hdistance : o.neg.range.minDistance o'.neg.range = o.range.minDistance o'.range :=
    Range.minDistance_neg ho.lo_le_hi ho'.lo_le_hi
  have herror : (o.neg.error.sub o'.neg.error).noiseBound = (o.error.sub o'.error).noiseBound :=
    errorApart_neg ho ho'
  simp only [compare, hdistance, herror, reachesThreshold, beq_self_eq_true, Bool.true_or]
  rfl

namespace BelowZero

/-- Between -4 and -1, with an error up to 8. -/
noncomputable def left : Operand ℝ :=
  ⟨⟨Number.ofInt (-4), -1, ⟨32, 16, true⟩⟩, ⟨0, [(0, Number.ofInt 8)]⟩⟩

/-- Between -4 and -2, without an error. -/
noncomputable def right : Operand ℝ :=
  ⟨⟨Number.ofInt (-4), Number.ofInt (-2), ⟨32, 16, true⟩⟩, ⟨0, []⟩⟩

lemma isOrdered_left : left.IsOrdered where
  lo_le_hi := by norm_num [left]
  isAscending := by simp [left, Terms.IsAscending]
  central_eq := rfl

lemma isOrdered_right : right.IsOrdered where
  lo_le_hi := by norm_num [right]
  isAscending := by simp [right, Terms.IsAscending]
  central_eq := rfl

lemma errorApart_eq : left.errorApart right = 8 := by
  norm_num [left, right, errorApart, Affine.noiseBound_eq, Affine.sub, Terms.merge, Terms.mergeStep,
    Terms.push, Affine.joinCoefficient]

/-- An error of twice the largest magnitude does not reach one percent, but does for the negated
operands. -/
theorem mayFlip_one : (left.compare right 1).mayFlip = false ∧
    (left.neg.compare right.neg 1).mayFlip = true := by
  refine ⟨mayFlip_eq_false_of_neg (by decide) (by norm_num [left, right]), ?_⟩
  have hmeet : left.neg.range.minDistance right.neg.range = 0 := by
    norm_num [left, right, neg, Range.minDistance]
  rw [(mayFlip_iff_of_pos (by decide) (by norm_num [left, right, neg])).1, tolerance_compare, hmeet,
    errorApart_neg isOrdered_left isOrdered_right, errorApart_eq]
  refine ⟨max_le (by norm_num) ((min_le_left _ _).trans ?_),
    by norm_num [left, right, neg, show (1 : UInt32).toNat = 1 from rfl]⟩
  exact (Format.roundingError_le_one _).trans (by norm_num)

end BelowZero

end Operand

end Roundoff
