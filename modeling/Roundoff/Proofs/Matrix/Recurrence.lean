/-
# The closed form of a linear recurrence

A linear bound is carried through the iterations of a loop by `E ← K · E + r`.  After `k` iterations
from `E₀` it is `Kᵏ · E₀ + (1 + K + … + Kᵏ⁻¹) · r`.  The sum of powers is found by elimination if
`1 - K` has an inverse, and by adding up the powers otherwise; both give the same matrix, since

* `(1 - K) · (1 + K + … + Kᵏ⁻¹) = 1 - Kᵏ`.

The main result is `pow_roundoff_recurrence`.
-/
import Mathlib
import Roundoff.ClosedForm.Bound
import Roundoff.Proofs.Matrix.Inverse

namespace Roundoff

namespace DenseMatrix

section Definitions

variable {R : Type} [Number R] {n : ℕ}

/-- One iteration of a linear bound. -/
def iteration (a : DenseMatrix R n n) (r e : Vector R n) : Vector R n :=
  Vector.ofFn fun i => (a.mulVec e).get i + r.get i

/-- The linear bound after `k` iterations in closed form. -/
def afterIterations (a : DenseMatrix R n n) (k : ℕ) (e r : Vector R n) : Vector R n :=
  Vector.ofFn fun i => ((a.pow k).mulVec e).get i + ((a.roundoff (a.pow k) k).mulVec r).get i

end Definitions

variable {n : ℕ}

/-- The inverse of `1 - a` turns `1 - aᵏ` into the sum of powers. -/
lemma inverse_mul_one_sub_pow {a b : DenseMatrix ℝ n n}
    (h : ((identity n).sub a).inverse? = some b) (k : ℕ) :
    b.toMatrix * (1 - a.toMatrix ^ k) = ∑ j ∈ Finset.range k, a.toMatrix ^ j := by
  have hinv : b.toMatrix * (1 - a.toMatrix) = 1 := by
    simpa only [toMatrix_sub, toMatrix_identity] using inverse?_mul h
  rw [← mul_neg_geom_sum, ← mul_assoc, hinv, one_mul]

/-- Both ways to find the sum of powers agree. -/
lemma roundoff_pow_eq_powerSum (a : DenseMatrix ℝ n n) (k : ℕ) :
    a.roundoff (a.pow k) k = a.powerSum k := by
  apply toMatrix_injective
  rw [roundoff]
  split
  · next h =>
    rw [toMatrix_mul, toMatrix_sub, toMatrix_identity, toMatrix_pow, toMatrix_powerSum,
      inverse_mul_one_sub_pow h]
  · rfl

/-! ## Iterations -/

@[simp] lemma entries_iteration (a : DenseMatrix ℝ n n) (r e : Vector ℝ n) :
    entries (a.iteration r e) = a.toMatrix.mulVec (entries e) + entries r := by
  rw [iteration, entries_ofFn, ← entries_mulVec]
  rfl

lemma entries_afterIterations (a : DenseMatrix ℝ n n) (k : ℕ) (e r : Vector ℝ n) :
    entries (a.afterIterations k e r) =
      (a.toMatrix ^ k).mulVec (entries e)
        + (∑ j ∈ Finset.range k, a.toMatrix ^ j).mulVec (entries r) := by
  rw [afterIterations, entries_ofFn, roundoff_pow_eq_powerSum, ← toMatrix_pow, ← toMatrix_powerSum,
    ← entries_mulVec, ← entries_mulVec]
  rfl

lemma afterIterations_zero (a : DenseMatrix ℝ n n) (e r : Vector ℝ n) :
    a.afterIterations 0 e r = e := by
  apply entries_injective
  rw [entries_afterIterations]
  simp

lemma afterIterations_succ (a : DenseMatrix ℝ n n) (k : ℕ) (e r : Vector ℝ n) :
    a.afterIterations (k + 1) e r = a.iteration r (a.afterIterations k e r) := by
  apply entries_injective
  rw [entries_iteration, entries_afterIterations, entries_afterIterations, Matrix.mulVec_add,
    Matrix.mulVec_mulVec, Matrix.mulVec_mulVec, ← pow_succ', Finset.mul_sum, add_assoc]
  simp only [← pow_succ']
  rw [Finset.sum_range_succ', pow_zero, Matrix.add_mulVec, Matrix.one_mulVec]

lemma afterIterations_eq_iterate (a : DenseMatrix ℝ n n) (k : ℕ) (e r : Vector ℝ n) :
    a.afterIterations k e r = (a.iteration r)^[k] e := by
  induction k with
  | zero => exact afterIterations_zero a e r
  | succ k ih => rw [afterIterations_succ, Function.iterate_succ_apply', ih]

/-- **The closed form is the recurrence.**  Repeated squaring gives the powers of a matrix, both
ways to find the sum of powers agree, and the closed form after `k` iterations is the result of `k`
single iterations. -/
theorem pow_roundoff_recurrence (a : DenseMatrix ℝ n n) (k : ℕ) (e r : Vector ℝ n) :
    a.pow k = (fun b => b.mul a)^[k] (identity n) ∧
      a.roundoff (a.pow k) k = a.powerSum k ∧
      a.afterIterations k e r = (a.iteration r)^[k] e := by
  refine ⟨?_, roundoff_pow_eq_powerSum a k, afterIterations_eq_iterate a k e r⟩
  induction k with
  | zero => rw [pow, mulPow, if_pos rfl, Function.iterate_zero_apply]
  | succ k ih =>
    apply toMatrix_injective
    rw [Function.iterate_succ_apply', toMatrix_mul, ← ih, toMatrix_pow, toMatrix_pow, pow_succ]

end DenseMatrix

end Roundoff
