/-
# The worst errors of labels

Raising the error of a label, and raising all errors to those of another collection, loses no label
and makes no error smaller.  An error that has been taken in once stays covered by what is kept for
its label.
-/
import Mathlib
import Roundoff.Proofs.Number.Exact
import Roundoff.Proofs.Store.Sorted

namespace Roundoff

namespace Targets

/-! ## Raising errors -/

section Number

variable {R : Type} [Number R] {t u : Targets R}

lemma get?_raise_eq (t : Targets R) (l k : String) (x : R) :
    (t.raise l x).errors.get? k = if l = k
      then some ((t.errors.get? k).elim x fun y => Number.max y x) else t.errors.get? k := by
  rw [raise]
  by_cases hk : l = k
  · subst hk
    cases t.errors.get? l with
    | none => simp
    | some y => simp
  · cases t.errors.get? l with
    | none => simp [hk]
    | some y => simp [hk]

/-- What holds at first and is kept by raising holds of the merged errors. -/
lemma merge_induction {P : Targets R → Prop} (h : P t)
    (hraise : ∀ t, ∀ q ∈ u.errors.pairs, P t → P (t.raise q.1 q.2)) : P (t.merge u) := by
  obtain ⟨⟨ps⟩⟩ := u
  rw [merge, Table.toList]
  dsimp only at hraise ⊢
  induction ps generalizing t with
  | nil => exact h
  | cons q ps ih =>
    exact ih (hraise t q List.mem_cons_self h) fun t' q' hq' =>
      hraise t' q' (List.mem_cons_of_mem _ hq')

/-- The merged error of a label is the larger one of the two. -/
lemma get?_merge_eq (hu : u.errors.IsSorted) (t : Targets R) (l : String) :
    (t.merge u).errors.get? l = (t.errors.get? l).merge Number.max (u.errors.get? l) := by
  refine (hu.foldl_eq (k := l) (fun t : Targets R => t.errors.get? l)
    (fun old x => old.merge Number.max (some x)) (fun t q => ?_) t).trans ?_
  · rw [get?_raise_eq]
    cases t.errors.get? l <;> rfl
  · cases u.errors.get? l with
    | none => exact (Option.merge_none_right ..).symm
    | some x => rfl

lemma isSorted_raise (ht : t.errors.IsSorted) (l : String) (x : R) :
    (t.raise l x).errors.IsSorted := by
  rw [raise]
  split <;> exact ht.insert _ _

lemma isSorted_merge (ht : t.errors.IsSorted) (u : Targets R) : (t.merge u).errors.IsSorted :=
  merge_induction (P := fun t => t.errors.IsSorted) ht fun _ q _ h => isSorted_raise h q.1 q.2

end Number

variable {t t' t'' u : Targets ℝ} {k l : String} {x y : ℝ}

/-! ## Errors that are covered -/

/-- The error kept for a label is at least `x`. -/
def Covers (t : Targets ℝ) (l : String) (x : ℝ) : Prop := ∃ y, t.errors.get? l = some y ∧ x ≤ y

lemma errorFor_eq (h : t.errors.get? l = some y) : t.errorFor l = y := by
  rw [errorFor, h, Option.getD_some]

lemma Covers.le_errorFor (h : t.Covers l x) : x ≤ t.errorFor l := by
  obtain ⟨y, hy, hle⟩ := h
  rwa [errorFor_eq hy]

lemma Covers.mono (h : t.Covers l y) (hx : x ≤ y) : t.Covers l x := by
  obtain ⟨z, hz, hle⟩ := h
  exact ⟨z, hz, hx.trans hle⟩

lemma get?_raise (t : Targets ℝ) (l k : String) (x : ℝ) :
    (t.raise l x).errors.get? k
      = if l = k then some ((t.errors.get? k).elim x fun y => max y x) else t.errors.get? k := by
  simp only [get?_raise_eq, Number.max_real]

/-- The error of a label covers what it is raised to. -/
lemma covers_raise (t : Targets ℝ) (l : String) (x : ℝ) : (t.raise l x).Covers l x := by
  refine ⟨_, by rw [get?_raise, if_pos rfl], ?_⟩
  cases t.errors.get? l with
  | none => exact le_rfl
  | some y => exact le_max_right _ _

lemma Covers.raise (h : t.Covers k y) (l : String) (x : ℝ) : (t.raise l x).Covers k y := by
  obtain ⟨z, hz, hle⟩ := h
  rw [Covers, get?_raise, hz]
  split
  · exact ⟨_, rfl, hle.trans (le_max_left _ _)⟩
  · exact ⟨z, rfl, hle⟩

/-! ## Taking over other errors -/

lemma Covers.merge_left (h : t.Covers l x) (u : Targets ℝ) : (t.merge u).Covers l x :=
  merge_induction (P := fun t => t.Covers l x) h fun _ q _ h => h.raise q.1 q.2

lemma Covers.merge_right (h : u.Covers l x) (t : Targets ℝ) : (t.merge u).Covers l x := by
  obtain ⟨y, hy, hle⟩ := h
  obtain ⟨⟨ps⟩⟩ := u
  have hmem : (l, y) ∈ ps := Table.mem_of_find? hy
  rw [merge, Table.toList]
  dsimp only
  clear hy
  -- the label is raised when its pair comes, and stays covered from then on
  induction ps generalizing t with
  | nil => cases hmem
  | cons q ps ih =>
    rw [List.foldl_cons]
    rcases List.mem_cons.1 hmem with rfl | hmem
    · exact ((t.covers_raise l y).mono hle).merge_left ⟨⟨ps⟩⟩
    · exact ih _ hmem

/-- **The merged error of a label** is the larger one of the two. -/
theorem get?_merge (hu : u.errors.IsSorted) (t : Targets ℝ) (l : String) :
    (t.merge u).errors.get? l = (t.errors.get? l).merge max (u.errors.get? l) := by
  rw [get?_merge_eq hu, funext₂ Number.max_real]

/-! ## Errors that never become smaller -/

/-- No label is lost, and no error of a label becomes smaller. -/
structure Rises (t t' : Targets ℝ) : Prop where
  /-- What is covered stays covered. -/
  covers : ∀ l x, t.Covers l x → t'.Covers l x
  /-- No error becomes smaller, where a label that is not kept has the error zero. -/
  errorFor_le : ∀ l, t.errorFor l ≤ t'.errorFor l

lemma Rises.refl (t : Targets ℝ) : t.Rises t := ⟨fun _ _ h => h, fun _ => le_rfl⟩

lemma Rises.trans (h : t.Rises t') (h' : t'.Rises t'') : t.Rises t'' :=
  ⟨fun l x hx => h'.covers l x (h.covers l x hx),
    fun l => (h.errorFor_le l).trans (h'.errorFor_le l)⟩

lemma rises_raise (t : Targets ℝ) (l : String) (hx : 0 ≤ x) : t.Rises (t.raise l x) where
  covers _ _ h := h.raise l x
  errorFor_le k := by
    rw [errorFor, errorFor, get?_raise]
    split
    · cases t.errors.get? k with
      | none => exact hx
      | some y => exact le_max_left _ _
    · exact le_rfl

/-- A bound of the errors of a label in two collections bounds the merged one. -/
lemma le_errorFor_merge (ht : x ≤ t.errorFor l) (hu : x ≤ u.errorFor l) :
    x ≤ (t.merge u).errorFor l := by
  cases h : t.errors.get? l with
  | some y =>
    rw [errorFor_eq h] at ht
    exact (Covers.merge_left ⟨y, h, ht⟩ u).le_errorFor
  | none =>
    cases h' : u.errors.get? l with
    | some y =>
      rw [errorFor_eq h'] at hu
      exact (Covers.merge_right ⟨y, h', hu⟩ t).le_errorFor
    | none =>
      -- the label is in neither collection, and none of the others is raised to it
      have hnone : (t.merge u).errors.get? l = none := by
        refine merge_induction (P := fun t => t.errors.get? l = none) h fun t q hq ht => ?_
        rw [get?_raise, if_neg, ht]
        rintro rfl
        exact Table.find?_ne_none hq h'
      rw [errorFor, h] at ht
      rwa [errorFor, hnone]

/-- Two collections that lie above a third one are merged to one that does, too. -/
lemma Rises.merge (h : t.Rises t') (h' : t.Rises u) : t.Rises (t'.merge u) where
  covers l x hx := (h.covers l x hx).merge_left u
  errorFor_le l := le_errorFor_merge (h.errorFor_le l) (h'.errorFor_le l)

end Targets

end Roundoff
