/-
# Ranges as intervals

A range with its bounds in order stands for a closed interval of real numbers.  The union of two
ranges is the least interval that contains both, whose bounds do not depend on the order of the two,
while its format does.  The distance of two ranges is the least distance of numbers in them, whether
they overlap, touch, lie within one another, or lie apart on either side.  The reciprocals of the
numbers in a range without zero make up an interval again, and a reciprocal of a reciprocal is the
range itself.
-/
import Mathlib
import Roundoff.Proofs.Range.Hull

namespace Roundoff

namespace Range

variable {a b c r q : Range ℝ} {rs : List (Range ℝ)}

/-- The numbers in a range. -/
def numbers (r : Range ℝ) : Set ℝ := Set.Icc r.lo r.hi

/-! ## Unions -/

lemma contains_iff (hq : q.lo ≤ q.hi) : r.Contains q ↔ q.numbers ⊆ r.numbers :=
  (Set.Icc_subset_Icc_iff hq).symm

/-- The hull of ranges is the least closed interval that contains them. -/
lemma IsHull.isLeast_numbers (h : r.IsHull rs) (hrs : ∀ q ∈ rs, q.lo ≤ q.hi) :
    IsLeast {I : Set ℝ | (∃ x y, I = Set.Icc x y) ∧ ∀ q ∈ rs, q.numbers ⊆ I} r.numbers := by
  refine ⟨⟨⟨r.lo, r.hi, rfl⟩, fun q hq => ?_⟩, ?_⟩
  · exact (contains_iff (hrs q hq)).1 (h.contains q hq)
  · rintro _ ⟨⟨x, y, rfl⟩, hI⟩
    have hle := h.least ⟨x, y, Format.none⟩ fun q hq => (contains_iff (hrs q hq)).2 (hI q hq)
    exact Set.Icc_subset_Icc hle.1 hle.2

lemma isHull_union (a b : Range ℝ) : (a.union b).IsHull [a, b] :=
  (IsHull.singleton a).union (.singleton b)

lemma bounds_union_comm (a b : Range ℝ) :
    (a.union b).lo = (b.union a).lo ∧ (a.union b).hi = (b.union a).hi :=
  (isHull_union a b).bounds_eq (isHull_union b a) fun p => by simp [or_comm]

lemma union_assoc (a b c : Range ℝ) : (a.union b).union c = a.union (b.union c) :=
  ((isHull_union a b).union (.singleton c)).unique ((IsHull.singleton a).union (isHull_union b c))

lemma union_self (a : Range ℝ) : a.union a = a := by
  simp [union]

/-! ## Distances -/

lemma isLeast_minDistance (ha : a.lo ≤ a.hi) (hb : b.lo ≤ b.hi) :
    IsLeast {d | ∃ x ∈ a, ∃ y ∈ b, d = |x - y|} (a.minDistance b) := by
  constructor
  · obtain ⟨x, hx, y, hy, heq⟩ := exists_abs_sub_eq ha hb
    exact ⟨x, hx, y, hy, heq.symm⟩
  · rintro _ ⟨x, hx, y, hy, rfl⟩
    exact minDistance_le hx hy

lemma minDistance_comm (ha : a.lo ≤ a.hi) (hb : b.lo ≤ b.hi) :
    a.minDistance b = b.minDistance a := by
  refine (isLeast_minDistance ha hb).unique ?_
  -- the numbers of the two ranges have the same distances in either order
  have hswap : {d | ∃ x ∈ a, ∃ y ∈ b, d = |x - y|} = {d | ∃ y ∈ b, ∃ x ∈ a, d = |y - x|} := by
    ext d
    constructor
    · rintro ⟨x, hx, y, hy, rfl⟩
      exact ⟨y, hy, x, hx, abs_sub_comm x y⟩
    · rintro ⟨y, hy, x, hx, rfl⟩
      exact ⟨x, hx, y, hy, abs_sub_comm y x⟩
  rw [hswap]
  exact isLeast_minDistance hb ha

lemma minDistance_nonneg (ha : a.lo ≤ a.hi) (hb : b.lo ≤ b.hi) : 0 ≤ a.minDistance b := by
  obtain ⟨x, -, y, -, heq⟩ := exists_abs_sub_eq ha hb
  exact heq ▸ abs_nonneg (x - y)

/-- There is no distance between two ranges if and only if they have a number in common. -/
lemma minDistance_eq_zero_iff (ha : a.lo ≤ a.hi) (hb : b.lo ≤ b.hi) :
    a.minDistance b = 0 ↔ (a.numbers ∩ b.numbers).Nonempty := by
  rw [← not_iff_not, Set.not_nonempty_iff_eq_empty, ← Set.disjoint_iff_inter_eq_empty,
    Set.disjoint_left, ← ne_eq, ← (minDistance_nonneg ha hb).lt_iff_ne']
  exact minDistance_pos_iff ha hb

/-! ## Reciprocals -/

/-- A range without zero lies on one side of it, so the bounds change places. -/
lemma reciprocal_eq_some (ha : a.lo ≤ a.hi) (hzero : 0 ∉ a) :
    a.reciprocal = some ⟨1 / a.hi, 1 / a.lo, a.format⟩ ∧ 1 / a.hi ≤ 1 / a.lo ∧
      0 ∉ (⟨1 / a.hi, 1 / a.lo, a.format⟩ : Range ℝ) := by
  rw [reciprocal, if_neg fun h => hzero (containsZero_iff.1 h)]
  rw [mem_iff, not_and_or, not_le, not_le] at hzero
  have hside : 1 / a.hi ≤ 1 / a.lo ∧ (0 < 1 / a.hi ∨ 1 / a.lo < 0) := by
    rcases hzero with hpos | hneg
    · exact ⟨one_div_le_one_div_of_le hpos ha, .inl (one_div_pos.2 (hpos.trans_le ha))⟩
    · exact ⟨one_div_le_one_div_of_neg_of_le hneg ha, .inr (one_div_neg.2 (ha.trans_lt hneg))⟩
  refine ⟨congrArg some (if_pos hside.1), hside.1, ?_⟩
  rintro ⟨hlo, hhi⟩
  exact hside.2.elim hlo.not_gt hhi.not_gt

lemma reciprocal_reciprocal (ha : a.lo ≤ a.hi) (h : a.reciprocal = some q) :
    q.reciprocal = some a := by
  have hzero : 0 ∉ a := fun hzero => nomatch h.symm.trans (reciprocal_eq_none_iff.2 hzero)
  obtain ⟨heq, hle, hzero'⟩ := reciprocal_eq_some ha hzero
  obtain rfl := Option.some.inj (heq.symm.trans h)
  rw [(reciprocal_eq_some hle hzero').1]
  simp

/-- A range without zero has the reciprocals of its numbers as the numbers of its reciprocal. -/
lemma exists_reciprocal (ha : a.lo ≤ a.hi) (hzero : 0 ∉ a) :
    ∃ q, a.reciprocal = some q ∧ q.lo ≤ q.hi ∧ q.format = a.format ∧
      q.numbers = (fun x => 1 / x) '' a.numbers := by
  obtain ⟨heq, hle, -⟩ := reciprocal_eq_some ha hzero
  refine ⟨_, heq, hle, rfl, Set.Subset.antisymm (fun y hy => ?_) ?_⟩
  · exact ⟨1 / y, one_div_mem hy (reciprocal_reciprocal ha heq), one_div_one_div y⟩
  · rintro _ ⟨x, hx, rfl⟩
    exact one_div_mem hx heq

/-! ## The laws of intervals -/

/-- The operations on the ranges are those on the intervals that they stand for. -/
structure ActAsIntervals (a b c : Range ℝ) : Prop where
  /-- The union is the least interval that contains both. -/
  isLeast_union : IsLeast {I : Set ℝ | (∃ x y, I = Set.Icc x y) ∧ a.numbers ⊆ I ∧ b.numbers ⊆ I}
    (a.union b).numbers
  /-- Its bounds do not depend on the order. -/
  union_comm : (a.union b).lo = (b.union a).lo ∧ (a.union b).hi = (b.union a).hi
  union_assoc : (a.union b).union c = a.union (b.union c)
  union_self : a.union a = a
  /-- The union of any number of ranges does not depend on how they are grouped. -/
  joined_eq : ∀ g h : FreeMagma (Range ℝ), operands g = operands h → joined g = joined h
  /-- It has the format of the first range that has a format. -/
  format_joined : ∀ g : FreeMagma (Range ℝ), ∀ r,
    ((operands g).find? fun q => !q.isUnknown) = some r → (joined g).format = r.format
  /-- It is the least interval that contains them all. -/
  isLeast_joined : ∀ g : FreeMagma (Range ℝ), (∀ r ∈ operands g, r = a ∨ r = b ∨ r = c) →
    IsLeast {I : Set ℝ | (∃ x y, I = Set.Icc x y) ∧ ∀ r ∈ operands g, r.numbers ⊆ I}
      (joined g).numbers
  minDistance_comm : a.minDistance b = b.minDistance a
  /-- The distance is the least one of numbers in the two. -/
  isLeast_minDistance : IsLeast {d | ∃ x ∈ a, ∃ y ∈ b, d = |x - y|} (a.minDistance b)
  /-- It is zero if they have a number in common, and only then. -/
  minDistance_eq_zero_iff : a.minDistance b = 0 ↔ (a.numbers ∩ b.numbers).Nonempty
  /-- Zero has no reciprocal. -/
  reciprocal_eq_none_iff : a.reciprocal = none ↔ 0 ∈ a
  /-- A range without zero has the range of the reciprocals of its numbers. -/
  exists_reciprocal : 0 ∉ a → ∃ q, a.reciprocal = some q ∧ q.lo ≤ q.hi ∧ q.format = a.format ∧
    q.numbers = (fun x => 1 / x) '' a.numbers

/-- **Ranges with their bounds in order act as intervals.** -/
theorem actAsIntervals (ha : a.lo ≤ a.hi) (hb : b.lo ≤ b.hi) (hc : c.lo ≤ c.hi) :
    ActAsIntervals a b c where
  isLeast_union := by
    simpa [ha, hb] using (isHull_union a b).isLeast_numbers (by simp [ha, hb])
  union_comm := bounds_union_comm a b
  union_assoc := union_assoc a b c
  union_self := union_self a
  joined_eq _ _ h := joined_eq h
  format_joined g r hr := (isHull_joined g).format_of_find? hr
  isLeast_joined g hg := (isHull_joined g).isLeast_numbers fun r hr => by
    obtain rfl | rfl | rfl := hg r hr
    · exact ha
    · exact hb
    · exact hc
  minDistance_comm := minDistance_comm ha hb
  isLeast_minDistance := isLeast_minDistance ha hb
  minDistance_eq_zero_iff := minDistance_eq_zero_iff ha hb
  reciprocal_eq_none_iff := reciprocal_eq_none_iff
  exists_reciprocal := exists_reciprocal ha

namespace Formats

/-- A negative range without a format. -/
noncomputable def negative : Range ℝ := ⟨Number.ofInt (-4), Number.ofInt (-2), Format.none⟩

/-- A positive range. -/
noncomputable def positive : Range ℝ := ⟨1, Number.ofInt 2, ⟨16, 8, true⟩⟩

/-- A range around zero with another format. -/
noncomputable def around : Range ℝ := ⟨-1, Number.ofInt 5, ⟨32, 4, true⟩⟩

/-- Of two ranges with a format the first one decides, and the one without a format never does. -/
theorem actAsIntervals_negative :
    (negative.lo ≤ negative.hi ∧ positive.lo ≤ positive.hi ∧ around.lo ≤ around.hi) ∧
      ActAsIntervals negative positive around ∧
      (joined (.of negative * (.of positive * .of around))).format = positive.format ∧
      (joined (.of negative * .of around * .of positive)).format = around.format ∧
      negative.minDistance positive = 3 := by
  have hneg : negative.lo ≤ negative.hi := by norm_num [negative]
  have hpos : positive.lo ≤ positive.hi := by norm_num [positive]
  have haround : around.lo ≤ around.hi := by norm_num [around]
  have hlaws := actAsIntervals hneg hpos haround
  refine ⟨⟨hneg, hpos, haround⟩, hlaws, hlaws.format_joined _ _ rfl, hlaws.format_joined _ _ rfl,
    ?_⟩
  norm_num [minDistance, negative, positive]

end Formats

end Range

end Roundoff
