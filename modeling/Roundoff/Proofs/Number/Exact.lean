/-
# The exact real numbers

The rules of the analysis are read over the reals here, where every operation is exact.  All real
numbers are finite and equal to themselves, so maximum and minimum are the usual ones, and a sum
does not depend on the order in which it is taken.
-/
import Mathlib
import Roundoff.Number

namespace Roundoff

/-- The reals with exact operations.  There is no largest and no least real number; the values
given for them serve only where a computation is undefined. -/
noncomputable instance Number.instReal : Number ℝ where
  ofInt n := n
  ofDecimal m e := m * 10 ^ e
  twoPow n := (2 : ℕ) ^ n
  abs x := |x|
  isFinite _ := true
  top := 0
  bottom := 0
  sqrt := Real.sqrt
  exp := Real.exp
  log := Real.log
  asin := Real.arcsin
  acos := Real.arccos

namespace Number

@[simp] lemma ofInt_real (n : ℤ) : (ofInt n : ℝ) = n := rfl

@[simp] lemma ofDecimal_real (m : ℕ) (e : ℤ) : (ofDecimal m e : ℝ) = m * 10 ^ e := rfl

@[simp] lemma twoPow_real (n : ℤ) : (twoPow n : ℝ) = 2 ^ n := by
  simp [twoPow]

@[simp] lemma abs_real (x : ℝ) : Number.abs x = |x| := rfl

@[simp] lemma isFinite_real (x : ℝ) : isFinite x = true := rfl

@[simp] lemma isNaN_real (x : ℝ) : isNaN x = false := by
  simp [isNaN]

@[simp] lemma max_real (x y : ℝ) : Number.max x y = Max.max x y := by
  rcases lt_or_ge y x with h | h
  · simp [Number.max, h, h.le]
  · simp [Number.max, h, h.not_gt]

@[simp] lemma min_real (x y : ℝ) : Number.min x y = Min.min x y := by
  rcases lt_or_ge x y with h | h
  · simp [Number.min, h, h.le]
  · simp [Number.min, h, h.not_gt]

@[simp] lemma sum_real (xs : List ℝ) : Number.sum xs = xs.sum :=
  List.sum_eq_foldl.symm

end Number

/-! ## The largest and the smallest of several numbers -/

section Extrema

variable {α : Type} {xs ys : List ℝ}

lemma max?_concat (xs : List ℝ) (x : ℝ) : (xs ++ [x]).max? = xs.max?.merge max (some x) := by
  cases xs with
  | nil => rfl
  | cons y ys =>
    rw [List.cons_append, List.max?_cons', List.max?_cons', List.foldl_append]
    rfl

lemma max?_filterMap_concat (f : α → Option ℝ) (as : List α) (a : α) :
    ((as ++ [a]).filterMap f).max? = (as.filterMap f).max?.merge max (f a) := by
  rw [List.filterMap_append]
  cases h : f a with
  | none => simp [h]
  | some x => rw [List.filterMap_cons_some h, List.filterMap_nil, max?_concat]

lemma min?_concat (xs : List ℝ) (x : ℝ) : (xs ++ [x]).min? = xs.min?.merge min (some x) := by
  cases xs with
  | nil => rfl
  | cons y ys =>
    rw [List.cons_append, List.min?_cons', List.min?_cons', List.foldl_append]
    rfl

/-- A number is raised to another one by replacing it, unless it is at least as large. -/
lemma merge_max_some (old : Option ℝ) (x : ℝ) :
    old.merge max (some x) = if old.any fun y => decide (x ≤ y) then old else some x := by
  cases old with
  | none => rfl
  | some y =>
    by_cases hle : x ≤ y
    · simp [hle]
    · simp [hle, (not_le.1 hle).le]

/-- The larger of two numbers, if there are any, is one of them. -/
lemma eq_some_or_of_merge_max {a b : Option ℝ} {x : ℝ} (h : a.merge max b = some x) :
    a = some x ∨ b = some x := by
  cases a with
  | none => exact .inr (Option.merge_none_left.symm.trans h)
  | some y =>
    cases b with
    | none => exact .inl h
    | some z =>
      obtain rfl : max y z = x := Option.some.inj h
      exact (max_choice y z).imp (congrArg some ·.symm) (congrArg some ·.symm)

/-- It is at least the first one. -/
lemma exists_le_merge_max {x y : ℝ} (hx : y ≤ x) (b : Option ℝ) :
    ∃ z, (some x).merge max b = some z ∧ y ≤ z := by
  cases b with
  | none => exact ⟨x, rfl, hx⟩
  | some z => exact ⟨_, rfl, hx.trans (le_max_left x z)⟩

/-- A number is at most the largest one. -/
lemma exists_le_max? {x : ℝ} (hx : x ∈ xs) : ∃ y, xs.max? = some y ∧ x ≤ y := by
  cases h : xs.max? with
  | none =>
    rw [List.max?_eq_none_iff.1 h] at hx
    cases hx
  | some y => exact ⟨y, rfl, (List.max?_eq_some_iff.1 h).2 x hx⟩

/-- The largest of some numbers is the largest of others, if they are among these and bound them. -/
lemma max?_eq_of_bounds (hsub : ∀ x ∈ xs, x ∈ ys) (hle : ∀ y ∈ ys, ∃ x ∈ xs, y ≤ x) :
    xs.max? = ys.max? := by
  cases h : xs.max? with
  | none =>
    obtain rfl := List.max?_eq_none_iff.1 h
    refine (List.max?_eq_none_iff.2 (List.eq_nil_iff_forall_not_mem.2 fun y hy => ?_)).symm
    obtain ⟨x, hx, -⟩ := hle y hy
    cases hx
  | some x =>
    obtain ⟨hx, hmax⟩ := List.max?_eq_some_iff.1 h
    refine (List.max?_eq_some_iff.2 ⟨hsub x hx, fun y hy => ?_⟩).symm
    obtain ⟨x', hx', hyx'⟩ := hle y hy
    exact hyx'.trans (hmax x' hx')

/-- The largest number does not depend on the order. -/
lemma max?_perm (h : xs.Perm ys) : xs.max? = ys.max? :=
  max?_eq_of_bounds (fun _ hx => h.mem_iff.1 hx) fun y hy => ⟨y, h.mem_iff.2 hy, le_rfl⟩

/-- Neither does the smallest one. -/
lemma min?_perm (h : xs.Perm ys) : xs.min? = ys.min? := by
  refine Option.ext fun x => ?_
  rw [List.min?_eq_some_iff, List.min?_eq_some_iff, h.mem_iff]
  exact and_congr_right fun _ => forall_congr' fun y => by rw [h.mem_iff]

end Extrema

end Roundoff
