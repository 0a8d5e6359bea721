/-
# Hulls of ranges

The union of two ranges is the least range that contains both, so its bounds depend on nothing but
the ranges that are joined.  Its format is that of the first range that has one.

Ranges are joined two at a time, and there are many ways to group several of them.  All groupings of
the same ranges in the same order have the same hull.
-/
import Mathlib
import Roundoff.Proofs.Range
import Roundoff.Transfer.Merge

namespace Roundoff

namespace Range

/-! ## Ranges within ranges -/

/-- A range contains all of another one. -/
def Contains (r q : Range ℝ) : Prop := r.lo ≤ q.lo ∧ q.hi ≤ r.hi

namespace Contains

variable {r q p : Range ℝ}

lemma refl (r : Range ℝ) : r.Contains r := ⟨le_rfl, le_rfl⟩

lemma trans (h : r.Contains q) (h' : q.Contains p) : r.Contains p :=
  ⟨h.1.trans h'.1, h'.2.trans h.2⟩

lemma antisymm (h : r.Contains q) (h' : q.Contains r) : r.lo = q.lo ∧ r.hi = q.hi :=
  ⟨h.1.antisymm h'.1, h'.2.antisymm h.2⟩

lemma lo_le_hi (h : r.Contains q) (hq : q.lo ≤ q.hi) : r.lo ≤ r.hi := h.1.trans (hq.trans h.2)

lemma union_left (r q : Range ℝ) : (r.union q).Contains r := by
  rw [Contains, union, Number.min_real, Number.max_real]
  exact ⟨min_le_left _ _, le_max_left _ _⟩

lemma union_right (r q : Range ℝ) : (r.union q).Contains q := by
  rw [Contains, union, Number.min_real, Number.max_real]
  exact ⟨min_le_right _ _, le_max_right _ _⟩

/-- A range that contains two ranges contains their union. -/
lemma union (h : p.Contains r) (h' : p.Contains q) : p.Contains (r.union q) := by
  rw [Contains, Range.union, Number.min_real, Number.max_real]
  exact ⟨le_min h.1 h'.1, max_le h.2 h'.2⟩

end Contains

/-! ## Hulls -/

/-- The range is the hull of the ranges of a list. -/
structure IsHull (rs : List (Range ℝ)) (r : Range ℝ) : Prop where
  /-- It contains them. -/
  contains : ∀ q ∈ rs, r.Contains q
  /-- Whatever contains them contains it. -/
  least : ∀ p : Range ℝ, (∀ q ∈ rs, p.Contains q) → p.Contains r
  /-- It has the format of the first one that has a format, or that of the last one if none has. -/
  format : some r.format = ((rs.find? fun q => !q.isUnknown).or rs.getLast?).map Range.format

namespace IsHull

variable {r q : Range ℝ} {rs qs : List (Range ℝ)}

lemma singleton (r : Range ℝ) : IsHull [r] r where
  contains q hq := by
    rw [List.mem_singleton.1 hq]
    exact .refl r
  least p hp := hp r List.mem_cons_self
  format := by
    rw [List.find?_cons]
    cases r.isUnknown <;> rfl

/-- Where a range has a format, the hull has that of the first such range. -/
lemma format_of_find? (h : r.IsHull rs) {p : Range ℝ}
    (hp : (rs.find? fun q => !q.isUnknown) = some p) : r.format = p.format := by
  have hformat := h.format
  rw [hp] at hformat
  exact Option.some.inj hformat

/-- Where no range has a format, the hull has none. -/
lemma isUnknown_of_find? (h : r.IsHull rs) (hnone : (rs.find? fun q => !q.isUnknown) = none) :
    r.isUnknown = true := by
  have hformat := h.format
  rw [hnone, Option.none_or] at hformat
  obtain ⟨p, hp, heq⟩ := Option.map_eq_some_iff.1 hformat.symm
  have hunknown := List.find?_eq_none.1 hnone p (List.mem_of_getLast? hp)
  rw [isUnknown, ← heq]
  simpa [isUnknown] using hunknown

/-- **The union of two hulls is the hull of all ranges.** -/
theorem union (hr : r.IsHull rs) (hq : q.IsHull qs) : (r.union q).IsHull (rs ++ qs) where
  contains p hp := by
    rcases List.mem_append.1 hp with hp | hp
    · exact (Contains.union_left r q).trans (hr.contains p hp)
    · exact (Contains.union_right r q).trans (hq.contains p hp)
  least p hp := (hr.least p fun s hs => hp s (List.mem_append_left qs hs)).union
    (hq.least p fun s hs => hp s (List.mem_append_right rs hs))
  format := by
    rw [Range.union, List.find?_append]
    cases hfind : rs.find? fun s => !s.isUnknown with
    | some s =>
      have hknown : r.isUnknown = false := by
        rw [isUnknown, hr.format_of_find? hfind]
        simpa [isUnknown] using List.find?_some hfind
      simp [hknown, hr.format_of_find? hfind]
    | none =>
      rw [if_pos (hr.isUnknown_of_find? hfind), Option.none_or, List.getLast?_append,
        ← Option.or_assoc]
      -- the last range is one of the second list
      have hformat := hq.format
      cases hlast : (qs.find? fun s => !s.isUnknown).or qs.getLast? with
      | none =>
        rw [hlast] at hformat
        cases hformat
      | some s => rwa [hlast] at hformat

/-- The bounds of a hull depend on nothing but the ranges that it is the hull of. -/
lemma bounds_eq (hr : r.IsHull rs) (hq : q.IsHull qs) (h : ∀ p, p ∈ rs ↔ p ∈ qs) :
    r.lo = q.lo ∧ r.hi = q.hi :=
  Contains.antisymm (hq.least r fun p hp => hr.contains p ((h p).2 hp))
    (hr.least q fun p hp => hq.contains p ((h p).1 hp))

/-- Ranges in a given order have one hull. -/
lemma unique (hr : r.IsHull rs) (hq : q.IsHull rs) : r = q := by
  obtain ⟨hlo, hhi⟩ := hr.bounds_eq hq fun _ => Iff.rfl
  have hformat : r.format = q.format := Option.some.inj (hr.format.trans hq.format.symm)
  cases r
  cases q
  simp_all

/-- A hull of ranges with their bounds in order has its bounds in order. -/
lemma lo_le_hi (h : r.IsHull rs) (hrs : ∀ q ∈ rs, q.lo ≤ q.hi) : r.lo ≤ r.hi := by
  cases rs with
  | nil => cases h.format
  | cons q rs => exact (h.contains q List.mem_cons_self).lo_le_hi (hrs q List.mem_cons_self)

end IsHull

/-! ## Groupings -/

section Groupings

variable {R : Type} [Number R]

/-- The ranges in a grouping, from left to right. -/
def operands : FreeMagma (Range R) → List (Range R)
  | .of r => [r]
  | .mul g h => operands g ++ operands h

/-- The union of the ranges in a grouping. -/
def joined : FreeMagma (Range R) → Range R
  | .of r => r
  | .mul g h => (joined g).union (joined h)

end Groupings

/-- **The union of the ranges in a grouping is their hull.** -/
theorem isHull_joined (g : FreeMagma (Range ℝ)) : (joined g).IsHull (operands g) := by
  induction g with
  | ih1 r => exact .singleton r
  | ih2 g h ihg ihh => exact ihg.union ihh

/-- It does not depend on how the ranges are grouped. -/
lemma joined_eq {g h : FreeMagma (Range ℝ)} (heq : operands g = operands h) : joined g = joined h :=
  (isHull_joined g).unique (heq ▸ isHull_joined h)

end Range

/-! ## Operands -/

variable {r : Range ℝ} {rs : List (Range ℝ)} {os : List (Operand ℝ)}

/-- Operands are joined one after the other. -/
lemma Range.IsHull.foldl_union (h : r.IsHull rs) (os : List (Operand ℝ)) :
    (os.foldl (fun r o => r.union o.range) r).IsHull (rs ++ os.map Operand.range) := by
  induction os generalizing r rs with
  | nil => rwa [List.map_nil, List.append_nil]
  | cons o os ih =>
    have hunion := ih (h.union (.singleton o.range))
    rwa [List.append_assoc] at hunion

/-- **The hull of operands is that of their ranges**, in the order in which they come. -/
theorem isHull_hull? (h : hull? os = some r) : r.IsHull (os.map Operand.range) := by
  cases os with
  | nil => cases h
  | cons o os =>
    obtain rfl := Option.some.inj h
    exact (Range.IsHull.singleton o.range).foldl_union os

/-- The hull of operands contains the range of each of them. -/
lemma exists_hull? {o : Operand ℝ} (ho : o ∈ os) :
    ∃ r, hull? os = some r ∧ r.Contains o.range := by
  cases os with
  | nil => cases ho
  | cons p os => exact ⟨_, rfl, (isHull_hull? rfl).contains o.range (List.mem_map_of_mem ho)⟩

end Roundoff
