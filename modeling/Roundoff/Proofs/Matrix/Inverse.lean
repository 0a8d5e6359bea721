/-
# Gauss-Jordan elimination inverts

The elimination performs the same row operations on two matrices.  Hence a matrix that multiplies
the right one to the left one before a step does so after the step, and a step makes a unit column
and keeps the unit columns before it.  When all columns are done the left matrix is the unit matrix
and the right one is an inverse of the matrix from which the elimination started.

A column can be eliminated exactly if one of its entries on or below the diagonal is large enough to
serve as a divisor, since the pivot is the largest one of them.  So an inverse is missing only if
the elimination has come to a column in which all these entries are small, and an inverse that is
found is a two-sided one; a singular matrix has none.

The main results are `inverse?_mul`, `mul_inverse?`, and `inverse?_exact`.
-/
import Mathlib
import Roundoff.Proofs.Matrix.Algebra

namespace Roundoff

namespace DenseMatrix

variable {n : ℕ}

/-! ## The pivot -/

/-- The pivot row is the first candidate or one of the further ones. -/
lemma pivotRow_mem (a : DenseMatrix ℝ n n) (col best : Fin n) (rows : List (Fin n)) :
    pivotRow a col best rows = best ∨ pivotRow a col best rows ∈ rows := by
  induction rows generalizing best with
  | nil => exact Or.inl rfl
  | cons r rs ih =>
    have hrec : pivotRow a col best (r :: rs) = pivotRow a col best rs ∨
        pivotRow a col best (r :: rs) = pivotRow a col r rs := by
      simp only [pivotRow, List.foldl_cons]
      split
      · exact Or.inr rfl
      · exact Or.inl rfl
    rcases hrec with h | h
    · rcases ih best with h' | h'
      · exact Or.inl (h.trans h')
      · exact Or.inr (h ▸ List.mem_cons_of_mem _ h')
    · rcases ih r with h' | h'
      · exact Or.inr (List.mem_cons.2 (Or.inl (h.trans h')))
      · exact Or.inr (h ▸ List.mem_cons_of_mem _ h')

/-- The row in which the elimination looks for the divisor of a column. -/
def pivotRowOf {R : Type} [Number R] (a : DenseMatrix R n n) (col : Fin n) : Fin n :=
  pivotRow a col col ((List.finRange n).filter (col < ·))

lemma le_pivotRowOf (a : DenseMatrix ℝ n n) (col : Fin n) : col ≤ a.pivotRowOf col := by
  rcases pivotRow_mem a col col ((List.finRange n).filter (col < ·)) with h | h
  · exact h.ge
  · simp only [List.mem_filter, decide_eq_true_eq] at h
    exact h.2.le

lemma pivotEpsilon_pos : 0 < (pivotEpsilon : ℝ) := by
  simp only [pivotEpsilon, Number.ofDecimal_real]
  positivity

/-! ## Row operations -/

lemma get_swapRows (a : DenseMatrix ℝ n n) (i j r c : Fin n) :
    (a.swapRows i j).get r c = a.get (Equiv.swap i j r) c := by
  rw [swapRows, get_ofFn, Equiv.swap_apply_def]

lemma get_reduce (a : DenseMatrix ℝ n n) (i : Fin n) (pivot : ℝ) (factor : Fin n → ℝ)
    (r c : Fin n) :
    (a.reduce i pivot factor).get r c =
      if r = i then a.get i c / pivot else a.get r c - factor r * (a.get i c / pivot) := by
  simp only [reduce, get_ofFn, beq_iff_eq]
  split
  · rfl
  · split
    · next h => rw [h, zero_mul, sub_zero]
    · rfl

lemma swapRows_mul {a b : DenseMatrix ℝ n n} {A : Matrix (Fin n) (Fin n) ℝ}
    (h : b.toMatrix * A = a.toMatrix) (i j : Fin n) :
    (b.swapRows i j).toMatrix * A = (a.swapRows i j).toMatrix := by
  ext r c
  have hr := congrFun (congrFun h (Equiv.swap i j r)) c
  simpa only [Matrix.mul_apply, toMatrix_apply, get_swapRows] using hr

lemma reduce_mul {a b : DenseMatrix ℝ n n} {A : Matrix (Fin n) (Fin n) ℝ}
    (h : b.toMatrix * A = a.toMatrix) (i : Fin n) (pivot : ℝ) (factor : Fin n → ℝ) :
    (b.reduce i pivot factor).toMatrix * A = (a.reduce i pivot factor).toMatrix := by
  ext r c
  have entry (r : Fin n) : ∑ k, b.get r k * A k c = a.get r c := by
    simpa only [Matrix.mul_apply, toMatrix_apply] using congrFun (congrFun h r) c
  simp only [Matrix.mul_apply, toMatrix_apply, get_reduce]
  split
  · rw [← entry i, Finset.sum_div]
    exact Finset.sum_congr rfl fun k _ => by ring
  · rw [← entry i, ← entry r, Finset.sum_div, Finset.mul_sum, ← Finset.sum_sub_distrib]
    exact Finset.sum_congr rfl fun k _ => by ring

/-! ## One column -/

/-- A column with a one on the diagonal and zeros elsewhere. -/
def IsUnitColumn (a : DenseMatrix ℝ n n) (c : Fin n) : Prop :=
  ∀ r, a.get r c = if r = c then 1 else 0

/-- What a step of the elimination does. -/
lemma eliminate_eq_some {col : Fin n} {a b a' b' : DenseMatrix ℝ n n}
    (h : eliminate col a b = some (a', b')) :
    a.get (a.pivotRowOf col) col ≠ 0 ∧
      a' = (a.swapRows col (a.pivotRowOf col)).reduce col (a.get (a.pivotRowOf col) col)
        (fun r => (a.swapRows col (a.pivotRowOf col)).get r col) ∧
      b' = (b.swapRows col (a.pivotRowOf col)).reduce col (a.get (a.pivotRowOf col) col)
        (fun r => (a.swapRows col (a.pivotRowOf col)).get r col) := by
  simp only [DenseMatrix.eliminate] at h
  split at h
  · cases h
  · next hp =>
    simp only [Option.some.injEq, Prod.mk.injEq] at h
    refine ⟨fun h0 => hp ?_, h.1.symm, h.2.symm⟩
    rw [pivotRowOf] at h0
    rw [h0, Number.abs_real, abs_zero]
    exact pivotEpsilon_pos

/-- A step multiplies both matrices by the same matrix from the left. -/
lemma eliminate_mul {col : Fin n} {a b a' b' : DenseMatrix ℝ n n}
    {A : Matrix (Fin n) (Fin n) ℝ} (h : eliminate col a b = some (a', b'))
    (hb : b.toMatrix * A = a.toMatrix) : b'.toMatrix * A = a'.toMatrix := by
  obtain ⟨-, rfl, rfl⟩ := eliminate_eq_some h
  exact reduce_mul (swapRows_mul hb _ _) _ _ _

/-- A step makes a unit column. -/
lemma eliminate_isUnitColumn {col : Fin n} {a b a' b' : DenseMatrix ℝ n n}
    (h : eliminate col a b = some (a', b')) : a'.IsUnitColumn col := by
  obtain ⟨hp, rfl, -⟩ := eliminate_eq_some h
  intro r
  rw [get_reduce, get_swapRows, get_swapRows, Equiv.swap_apply_left, div_self hp]
  split
  · rfl
  · ring

/-- A step keeps the unit columns before it: the two rows that it exchanges are zero there. -/
lemma IsUnitColumn.eliminate {col c : Fin n} {a b a' b' : DenseMatrix ℝ n n}
    (hc : a.IsUnitColumn c) (hlt : c < col) (h : eliminate col a b = some (a', b')) :
    a'.IsUnitColumn c := by
  obtain ⟨-, rfl, -⟩ := eliminate_eq_some h
  have hrow : c < a.pivotRowOf col := hlt.trans_le (a.le_pivotRowOf col)
  have hzero : a.get (a.pivotRowOf col) c = 0 := by rw [hc, if_neg hrow.ne']
  intro r
  rw [get_reduce, get_swapRows, get_swapRows, Equiv.swap_apply_left, hzero, zero_div, mul_zero,
    sub_zero]
  split
  · next hr => rw [hr, if_neg hlt.ne']
  · next hr =>
    by_cases hrp : r = a.pivotRowOf col
    · rw [hrp, Equiv.swap_apply_right, hc, if_neg hlt.ne', if_neg hrow.ne']
    · rw [Equiv.swap_apply_of_ne_of_ne hr hrp, hc]

/-! ## All columns -/

lemma eliminateAll_mul {cols : List (Fin n)} {a b a' b' : DenseMatrix ℝ n n}
    {A : Matrix (Fin n) (Fin n) ℝ} (h : eliminateAll a b cols = some (a', b'))
    (hb : b.toMatrix * A = a.toMatrix) : b'.toMatrix * A = a'.toMatrix := by
  induction cols generalizing a b with
  | nil =>
    simp only [eliminateAll, Option.some.injEq, Prod.mk.injEq] at h
    rw [← h.1, ← h.2, hb]
  | cons col cols ih =>
    rw [eliminateAll] at h
    split at h
    · cases h
    · next hstep => exact ih h (eliminate_mul hstep hb)

/-- The columns that are not in the list are unit columns and come before those in the list. -/
lemma eliminateAll_isUnitColumn {cols : List (Fin n)} {a b a' b' : DenseMatrix ℝ n n}
    (h : eliminateAll a b cols = some (a', b')) (hcols : cols.Pairwise (· < ·))
    (hdone : ∀ c, c ∉ cols → a.IsUnitColumn c ∧ ∀ d ∈ cols, c < d) (c : Fin n) :
    a'.IsUnitColumn c := by
  induction cols generalizing a b with
  | nil =>
    simp only [eliminateAll, Option.some.injEq, Prod.mk.injEq] at h
    exact h.1 ▸ (hdone c List.not_mem_nil).1
  | cons col cols ih =>
    rw [eliminateAll] at h
    obtain ⟨hcol, hcols⟩ := List.pairwise_cons.1 hcols
    split at h
    · cases h
    · next hstep =>
      refine ih h hcols fun d hd => ?_
      by_cases hdcol : d = col
      · exact hdcol ▸ ⟨eliminate_isUnitColumn hstep, hcol⟩
      · obtain ⟨hunit, hlt⟩ := hdone d (by simp [hdcol, hd])
        exact ⟨hunit.eliminate (hlt col List.mem_cons_self) hstep,
          fun e he => hlt e (List.mem_cons_of_mem _ he)⟩

/-- The inverse that the elimination finds is a left inverse. -/
lemma inverse?_mul {a b : DenseMatrix ℝ n n} (h : a.inverse? = some b) :
    b.toMatrix * a.toMatrix = 1 := by
  obtain ⟨⟨a', b'⟩, hall, rfl⟩ := Option.map_eq_some_iff.1 h
  have hunit : ∀ c, a'.IsUnitColumn c :=
    eliminateAll_isUnitColumn hall (List.pairwise_lt_finRange n)
      fun c hc => absurd (List.mem_finRange c) hc
  have hone : a'.toMatrix = 1 := by
    ext r c
    rw [toMatrix_apply, hunit c r, Matrix.one_apply]
  rw [← hone]
  exact eliminateAll_mul hall (by rw [toMatrix_identity, one_mul])

/-- The inverse that the elimination finds is a right inverse. -/
lemma mul_inverse? {a b : DenseMatrix ℝ n n} (h : a.inverse? = some b) :
    a.toMatrix * b.toMatrix = 1 :=
  mul_eq_one_comm.1 (inverse?_mul h)

end DenseMatrix

namespace DenseMatrix

variable {n : ℕ} {a b a' b' : DenseMatrix ℝ n n} {col j : Fin n}

/-! ## Columns that can be eliminated -/

/-- The entry in the pivot row is the largest one among the candidates. -/
lemma abs_get_le_pivotRow (a : DenseMatrix ℝ n n) (col best : Fin n) (rows : List (Fin n)) :
    ∀ r ∈ best :: rows, |a.get r col| ≤ |a.get (pivotRow a col best rows) col| := by
  induction rows generalizing best with
  | nil => simp [pivotRow]
  | cons r rows ih =>
    -- the better one of the first two candidates goes on
    have hstep : pivotRow a col best (r :: rows)
        = pivotRow a col (if |a.get best col| ≤ |a.get r col| then r else best) rows := by
      simp [pivotRow]
    intro r' hr'
    rw [hstep]
    split
    · next hle =>
      rcases List.mem_cons.1 hr' with rfl | hr'
      · exact hle.trans (ih r r List.mem_cons_self)
      · exact ih r r' hr'
    · next hlt =>
      have hbest := ih best best List.mem_cons_self
      rcases List.mem_cons.1 hr' with rfl | hr'
      · exact hbest
      · rcases List.mem_cons.1 hr' with rfl | hr'
        · exact (not_le.1 hlt).le.trans hbest
        · exact ih best r' (List.mem_cons_of_mem _ hr')

lemma abs_get_le_pivotRowOf (a : DenseMatrix ℝ n n) {r : Fin n} (hr : col ≤ r) :
    |a.get r col| ≤ |a.get (a.pivotRowOf col) col| := by
  refine abs_get_le_pivotRow a col col _ r ?_
  rcases hr.eq_or_lt with rfl | hlt
  · exact List.mem_cons_self
  · exact List.mem_cons_of_mem _ (List.mem_filter.2 ⟨List.mem_finRange r, decide_eq_true hlt⟩)

/-- No entry of the column on or below the diagonal can serve as a divisor. -/
def LacksPivot (a : DenseMatrix ℝ n n) (col : Fin n) : Prop :=
  ∀ r, col ≤ r → |a.get r col| < pivotEpsilon

lemma lacksPivot_iff : a.LacksPivot col ↔ ∀ r, col ≤ r → |a.get r col| < 10 ^ (-12 : ℤ) := by
  have hepsilon : (pivotEpsilon : ℝ) = 10 ^ (-12 : ℤ) := by
    rw [pivotEpsilon, Number.ofDecimal_real, Nat.cast_one, one_mul]
  rw [LacksPivot, hepsilon]

lemma eliminate_eq_none_iff : eliminate col a b = none ↔ a.LacksPivot col := by
  have hpivot : eliminate col a b = none ↔ |a.get (a.pivotRowOf col) col| < pivotEpsilon := by
    simp [eliminate, pivotRowOf]
  rw [hpivot]
  constructor
  · exact fun h r hr => (a.abs_get_le_pivotRowOf hr).trans_lt h
  · exact fun h => h _ (a.le_pivotRowOf col)

/-! ## Where there is an inverse -/

lemma eliminateAll_append (a b : DenseMatrix ℝ n n) (front back : List (Fin n)) :
    eliminateAll a b (front ++ back)
      = (eliminateAll a b front).bind fun m => eliminateAll m.1 m.2 back := by
  induction front generalizing a b with
  | nil => rfl
  | cons col front ih =>
    rw [List.cons_append, eliminateAll, eliminateAll]
    cases eliminate col a b with
    | none => rfl
    | some m => exact ih m.1 m.2

/-- The elimination stops at the first column that lacks a pivot. -/
lemma eliminateAll_eq_none_iff {cols : List (Fin n)} :
    eliminateAll a b cols = none ↔ ∃ front col back a' b', cols = front ++ col :: back ∧
      eliminateAll a b front = some (a', b') ∧ a'.LacksPivot col := by
  constructor
  · intro h
    induction cols generalizing a b with
    | nil => cases h
    | cons col cols ih =>
      rw [eliminateAll] at h
      cases hstep : eliminate col a b with
      | none => exact ⟨[], col, cols, a, b, rfl, rfl, eliminate_eq_none_iff.1 hstep⟩
      | some m =>
        rw [hstep] at h
        obtain ⟨front, col', back, a', b', rfl, hfront, hlacks⟩ := ih h
        exact ⟨col :: front, col', back, a', b', rfl, by rw [eliminateAll, hstep]; exact hfront,
          hlacks⟩
  · rintro ⟨front, col, back, a', b', rfl, hfront, hlacks⟩
    rw [eliminateAll_append, hfront, Option.bind_some, eliminateAll,
      eliminate_eq_none_iff.2 hlacks]

/-- The elimination of a matrix comes to the column `j`, and the columns before it have turned the
matrix into `a'`. -/
def ComesTo (a : DenseMatrix ℝ n n) (j : Fin n) (a' : DenseMatrix ℝ n n) : Prop :=
  ∃ b', eliminateAll a (identity n) ((List.finRange n).take j) = some (a', b')

lemma finRange_eq_append_iff {front back : List (Fin n)} :
    List.finRange n = front ++ j :: back ↔
      front = (List.finRange n).take j ∧ back = (List.finRange n).drop (j + 1) := by
  have hj : (j : ℕ) < (List.finRange n).length := by rw [List.length_finRange]; exact j.2
  constructor
  · intro h
    have hget : (List.finRange n)[front.length]? = some j := by rw [h]; simp
    obtain ⟨hlt, hget⟩ := List.getElem?_eq_some_iff.1 hget
    have hlen : (j : ℕ) = front.length := by
      rw [← hget, List.getElem_finRange]
      rfl
    rw [h, hlen]
    simp
  · rintro ⟨rfl, rfl⟩
    have hget : (List.finRange n)[(j : ℕ)] = j := List.getElem_finRange _
    calc List.finRange n
        = (List.finRange n).take j ++ (List.finRange n).drop j := (List.take_append_drop _ _).symm
      _ = (List.finRange n).take j ++ j :: (List.finRange n).drop (j + 1) := by
        rw [List.drop_eq_getElem_cons hj, hget]

lemma inverse?_eq_none_iff : a.inverse? = none ↔ ∃ j a', a.ComesTo j a' ∧ a'.LacksPivot j := by
  rw [inverse?, Option.map_eq_none_iff, eliminateAll_eq_none_iff]
  constructor
  · rintro ⟨front, j, back, a', b', hcols, hfront, hlacks⟩
    exact ⟨j, a', ⟨b', (finRange_eq_append_iff.1 hcols).1 ▸ hfront⟩, hlacks⟩
  · rintro ⟨j, a', ⟨b', hfront⟩, hlacks⟩
    exact ⟨_, j, _, a', b', finRange_eq_append_iff.2 ⟨rfl, rfl⟩, hfront, hlacks⟩

/-- **The elimination finds exact inverses, and none for singular matrices.**  What it finds is an
inverse from both sides; it finds nothing exactly if it comes to a column in which every entry on or
below the diagonal is smaller than `10⁻¹²`; and it never finds an inverse of a singular matrix. -/
theorem inverse?_exact (a : DenseMatrix ℝ n n) :
    (∀ b, a.inverse? = some b → a.mul b = identity n ∧ b.mul a = identity n) ∧
      (a.inverse? = none ↔ ∃ j a', a.ComesTo j a' ∧ ∀ r, j ≤ r → |a'.get r j| < 10 ^ (-12 : ℤ)) ∧
      (a.toMatrix.det = 0 → a.inverse? = none) := by
  simp only [← lacksPivot_iff]
  refine ⟨fun b hb => ⟨?_, ?_⟩, inverse?_eq_none_iff, fun hdet => ?_⟩
  · apply toMatrix_injective
    rw [toMatrix_mul, toMatrix_identity, mul_inverse? hb]
  · apply toMatrix_injective
    rw [toMatrix_mul, toMatrix_identity, inverse?_mul hb]
  · refine Option.eq_none_iff_forall_not_mem.2 fun b hb => ?_
    have hone : a.toMatrix.det * b.toMatrix.det = 1 := by
      rw [← Matrix.det_mul, mul_inverse? hb, Matrix.det_one]
    rw [hdet, zero_mul] at hone
    exact zero_ne_one hone

end DenseMatrix

end Roundoff
