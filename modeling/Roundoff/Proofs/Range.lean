/-
# Numbers in ranges

A range stands for the numbers between its bounds.  The ranges that the analysis makes have their
bounds in order.  The distance between two ranges is the smallest distance of numbers in them.
-/
import Mathlib
import Roundoff.Proofs.Number.Exact
import Roundoff.Program.Annotation

namespace Roundoff

-- records are equal if the numbers in them are
deriving instance ReflBEq, LawfulBEq for Format, Range, Affine, Estimate

namespace Range

instance : Membership ℝ (Range ℝ) := ⟨fun r x => r.lo ≤ x ∧ x ≤ r.hi⟩

variable {r q : Range ℝ} {x : ℝ}

lemma mem_iff : x ∈ r ↔ r.lo ≤ x ∧ x ≤ r.hi := Iff.rfl

lemma mem_of {format : Format} {a b : ℝ} (ha : min a b ≤ x) (hb : x ≤ max a b) :
    x ∈ Range.of format a b := by
  rw [Range.of]
  split
  · next h => exact ⟨by rwa [min_eq_left h] at ha, by rwa [max_eq_right h] at hb⟩
  · next h =>
    have h := (not_le.1 h).le
    exact ⟨by rwa [min_eq_right h] at ha, by rwa [max_eq_left h] at hb⟩

lemma mem_point (format : Format) (x : ℝ) : x ∈ Range.point format x :=
  mem_of (min_le_left _ _) (le_max_left _ _)

lemma lo_le_hi_of (format : Format) (a b : ℝ) :
    (Range.of format a b).lo ≤ (Range.of format a b).hi := by
  rw [Range.of]
  split
  · next h => exact h
  · next h => exact (not_le.1 h).le

lemma format_of {R : Type} [Number R] (format : Format) (a b : R) :
    (Range.of format a b).format = format := by
  rw [Range.of]
  split <;> rfl

lemma containsZero_iff : r.containsZero = true ↔ 0 ∈ r := by
  rw [containsZero, Bool.and_eq_true, decide_eq_true_iff, decide_eq_true_iff, mem_iff]

/-- Zero has no reciprocal. -/
lemma reciprocal_eq_none_iff : r.reciprocal = none ↔ 0 ∈ r := by
  rw [reciprocal, ← containsZero_iff]
  split
  · next h => simp [h]
  · next h => simp [h]

/-- The reciprocal of a number lies in the reciprocal of its range. -/
lemma one_div_mem (hx : x ∈ r) (hq : r.reciprocal = some q) : 1 / x ∈ q := by
  obtain ⟨hlo, hhi⟩ := hx
  rw [reciprocal] at hq
  split at hq
  · cases hq
  · next hzero =>
    cases hq
    simp only [containsZero, Bool.and_eq_true, decide_eq_true_eq, not_and_or, not_le] at hzero
    rcases hzero with hpos | hneg
    · exact mem_of (min_le_of_left_le (one_div_le_one_div_of_le (hpos.trans_le hlo) hhi))
        (le_max_of_le_right (one_div_le_one_div_of_le hpos hlo))
    · exact mem_of (min_le_of_left_le (one_div_le_one_div_of_neg_of_le hneg hhi))
        (le_max_of_le_right (one_div_le_one_div_of_neg_of_le (hhi.trans_lt hneg) hlo))

lemma hi_le_maxAbs (r : Range ℝ) : r.hi ≤ r.maxAbs := by
  rw [maxAbs, Number.max_real, Number.abs_real, Number.abs_real]
  exact (le_abs_self _).trans (le_max_right _ _)

/-! ## Distances -/

variable {y : ℝ}

/-- Numbers in two ranges are at least as far apart as the ranges. -/
lemma minDistance_le (hx : x ∈ r) (hy : y ∈ q) : r.minDistance q ≤ |x - y| := by
  rw [minDistance]
  split
  · exact abs_nonneg _
  · split
    · refine le_trans ?_ (neg_le_abs (x - y))
      linarith [hx.2, hy.1]
    · refine le_trans ?_ (le_abs_self (x - y))
      linarith [hx.1, hy.2]

/-- Some numbers in two ranges are no farther apart than the ranges. -/
lemma exists_abs_sub_eq (hr : r.lo ≤ r.hi) (hq : q.lo ≤ q.hi) :
    ∃ x ∈ r, ∃ y ∈ q, |x - y| = r.minDistance q := by
  rw [minDistance]
  split
  · next h =>
    -- the larger one of the lower bounds lies in both
    have hboth : max r.lo q.lo ∈ r ∧ max r.lo q.lo ∈ q :=
      ⟨⟨le_max_left _ _, max_le hr h.2⟩, ⟨le_max_right _ _, max_le h.1 hq⟩⟩
    exact ⟨_, hboth.1, _, hboth.2, by simp⟩
  · next h =>
    split
    · next hlt =>
      refine ⟨r.hi, ⟨hr, le_rfl⟩, q.lo, ⟨le_rfl, hq⟩, ?_⟩
      rw [abs_sub_comm, abs_of_pos (sub_pos.2 hlt)]
    · next hlt =>
      have hgt : q.hi < r.lo := lt_of_not_ge fun hle => h ⟨hle, not_lt.1 hlt⟩
      exact ⟨r.lo, ⟨le_rfl, hr⟩, q.hi, ⟨hq, le_rfl⟩, abs_of_pos (sub_pos.2 hgt)⟩

/-- There is a distance between two ranges if they have no number in common. -/
lemma minDistance_pos_iff (hr : r.lo ≤ r.hi) (hq : q.lo ≤ q.hi) :
    0 < r.minDistance q ↔ ∀ x ∈ r, x ∉ q := by
  constructor
  · intro hpos x hx hxq
    have hle := minDistance_le hx hxq
    rw [sub_self, abs_zero] at hle
    exact absurd hpos (not_lt.2 hle)
  · intro hdisjoint
    obtain ⟨x, hx, y, hy, heq⟩ := exists_abs_sub_eq hr hq
    rw [← heq, abs_pos, sub_ne_zero]
    rintro rfl
    exact hdisjoint x hx hy

/-- Negated ranges are as far apart. -/
lemma minDistance_neg (hr : r.lo ≤ r.hi) (hq : q.lo ≤ q.hi) {format format' : Format} :
    (⟨-r.hi, -r.lo, format⟩ : Range ℝ).minDistance ⟨-q.hi, -q.lo, format'⟩
      = r.minDistance q := by
  simp only [minDistance, neg_le_neg_iff, neg_lt_neg_iff, neg_sub_neg]
  split_ifs <;> grind

end Range

lemma ScalarInfo.lo_le_hi_range? {info : ScalarInfo ℝ} {r : Range ℝ} (h : info.range? = some r) :
    r.lo ≤ r.hi := by
  obtain ⟨ab, -, rfl⟩ := Option.map_eq_some_iff.1 h
  exact Range.lo_le_hi_of _ _ _

lemma ScalarInfo.lo_le_hi_rangeOrZero (info : ScalarInfo ℝ) :
    info.rangeOrZero.lo ≤ info.rangeOrZero.hi := by
  rw [rangeOrZero]
  cases h : info.range? with
  | none => exact Range.lo_le_hi_of _ _ _
  | some r => exact info.lo_le_hi_range? h

/-- The recorded range of an annotated value has the annotated format. -/
lemma ScalarInfo.format_rangeOrZero {R : Type} [Number R] (info : ScalarInfo R) :
    info.rangeOrZero.format = info.format := by
  rw [rangeOrZero, range?]
  cases info.bounds with
  | none => exact Range.format_of _ _ _
  | some ab => exact Range.format_of _ _ _

end Roundoff
