/-
# Dense matrices as matrices of real numbers

A dense matrix over the reals is read as a matrix in the sense of linear algebra.  Its operations
are then those of linear algebra: leaving out the products with a left factor zero does not change a
product, and repeated squaring computes powers.
-/
import Mathlib
import Roundoff.ClosedForm.DenseMatrix
import Roundoff.Proofs.Number.Exact

namespace Roundoff

namespace DenseMatrix

variable {m n p : ℕ}

/-- The matrix that a dense matrix stands for. -/
def toMatrix (a : DenseMatrix ℝ m n) : Matrix (Fin m) (Fin n) ℝ := Matrix.of a.get

@[simp] lemma toMatrix_apply (a : DenseMatrix ℝ m n) (i : Fin m) (j : Fin n) :
    a.toMatrix i j = a.get i j := rfl

/-- A dense matrix is given by its entries. -/
lemma ext_get {R : Type} {a b : DenseMatrix R m n} (h : ∀ i j, a.get i j = b.get i j) : a = b := by
  obtain ⟨a⟩ := a
  obtain ⟨b⟩ := b
  congr 1
  ext i hi j hj
  exact h ⟨i, hi⟩ ⟨j, hj⟩

lemma toMatrix_injective : Function.Injective (toMatrix (m := m) (n := n)) := by
  intro a b h
  exact ext_get fun i j => congrFun (congrFun h i) j

/-! ## Sums and products -/

@[simp] lemma toMatrix_identity (n : ℕ) : (identity n : DenseMatrix ℝ n n).toMatrix = 1 := by
  ext i j
  simp [identity, Matrix.one_apply]

@[simp] lemma toMatrix_zero (m n : ℕ) : (zero m n : DenseMatrix ℝ m n).toMatrix = 0 := by
  ext i j
  simp [zero]

@[simp] lemma toMatrix_add (a b : DenseMatrix ℝ m n) :
    (a.add b).toMatrix = a.toMatrix + b.toMatrix := by
  ext i j
  simp [add]

@[simp] lemma toMatrix_sub (a b : DenseMatrix ℝ m n) :
    (a.sub b).toMatrix = a.toMatrix - b.toMatrix := by
  ext i j
  simp [sub]

/-- A sum that leaves out the products with a left factor zero is the sum of all products. -/
lemma foldl_skipZero {ι : Type} (f g : ι → ℝ) (is : List ι) (x : ℝ) :
    is.foldl (fun sum k => if f k == 0 then sum else sum + f k * g k) x
      = x + (is.map fun k => f k * g k).sum := by
  induction is generalizing x with
  | nil => simp
  | cons k ks ih =>
    rw [List.foldl_cons, ih, List.map_cons, List.sum_cons]
    by_cases hk : f k = 0
    · simp [hk]
    · simp [hk, add_assoc]

@[simp] lemma toMatrix_mul (a : DenseMatrix ℝ m n) (b : DenseMatrix ℝ n p) :
    (a.mul b).toMatrix = a.toMatrix * b.toMatrix := by
  ext i j
  simp only [toMatrix_apply, mul, get_ofFn, foldl_skipZero, zero_add, Matrix.mul_apply]
  exact (Fin.sum_univ_def _).symm

/-- The entries of a column. -/
def entries {R : Type} (v : Vector R n) : Fin n → R := v.get

@[simp] lemma entries_ofFn {R : Type} (f : Fin n → R) : entries (Vector.ofFn f) = f := by
  ext i
  simp [entries, Vector.get_eq_getElem]

lemma entries_injective {R : Type} : Function.Injective (entries (R := R) (n := n)) := by
  intro v w h
  ext i hi
  exact congrFun h ⟨i, hi⟩

@[simp] lemma entries_mulVec (a : DenseMatrix ℝ m n) (v : Vector ℝ n) :
    entries (a.mulVec v) = a.toMatrix.mulVec (entries v) := by
  ext i
  simp only [mulVec, entries_ofFn, Number.sum_real, Matrix.mulVec, dotProduct, toMatrix_apply]
  exact (Fin.sum_univ_def _).symm

/-! ## Powers -/

lemma toMatrix_mulPow (result base : DenseMatrix ℝ n n) (k : ℕ) :
    (mulPow result base k).toMatrix = result.toMatrix * base.toMatrix ^ k := by
  induction k using Nat.strong_induction_on generalizing result base with
  | _ k ih =>
    rw [mulPow]
    split
    · next hk => simp [hk]
    · next hk =>
      rw [ih (k / 2) (by omega), toMatrix_mul, ← pow_two, ← pow_mul]
      obtain ⟨h, hk₂⟩ | ⟨h, hk₂⟩ :
          (k % 2 = 1 ∧ k = 2 * (k / 2) + 1) ∨ (¬ k % 2 = 1 ∧ k = 2 * (k / 2)) := by omega
      · rw [if_pos h, toMatrix_mul, mul_assoc, ← pow_succ', ← hk₂]
      · rw [if_neg h, ← hk₂]

@[simp] lemma toMatrix_pow (a : DenseMatrix ℝ n n) (k : ℕ) :
    (a.pow k).toMatrix = a.toMatrix ^ k := by
  rw [pow, toMatrix_mulPow, toMatrix_identity, one_mul]

lemma toMatrix_addPowers (a sum power : DenseMatrix ℝ n n) (k : ℕ) :
    (addPowers a sum power k).toMatrix
      = sum.toMatrix + power.toMatrix * ∑ j ∈ Finset.range k, a.toMatrix ^ j := by
  induction k generalizing sum power with
  | zero => simp [addPowers]
  | succ k ih =>
    rw [addPowers, ih, toMatrix_add, toMatrix_mul, Finset.sum_range_succ', pow_zero, mul_add,
      mul_one, mul_assoc, Finset.mul_sum]
    simp only [pow_succ']
    abel

@[simp] lemma toMatrix_powerSum (a : DenseMatrix ℝ n n) (k : ℕ) :
    (a.powerSum k).toMatrix = ∑ j ∈ Finset.range k, a.toMatrix ^ j := by
  rw [powerSum, toMatrix_addPowers, toMatrix_zero, toMatrix_identity, one_mul, zero_add]

end DenseMatrix

end Roundoff
