/-
# Deviation of trajectories

The updates of a loop carry a state from one iteration to the next.  Two trajectories of them, one
of which is disturbed in every iteration, deviate by at most the closed form of the loop: in one
iteration a deviation grows by the bounds of the derivatives, which is the mean value inequality
over the box of the recorded ranges, and the disturbance is added.

The main result is `abs_trajectory_sub_le`.
-/
import Mathlib
import Roundoff.Proofs.Expr.Derivative
import Roundoff.Proofs.Matrix.Recurrence

namespace Roundoff

/-- A vector of computations that may fail is found if every one of them succeeds. -/
lemma ofFnM_eq_ok_iff {ε α : Type} {n : ℕ} {f : Fin n → Except ε α} {v : Vector α n} :
    Vector.ofFnM f = .ok v ↔ ∀ i, f i = .ok (v.get i) := by
  constructor
  · intro h
    induction n with
    | zero => exact fun i => i.elim0
    | succ n ih =>
      rw [Vector.ofFnM_succ] at h
      cases hinit : Vector.ofFnM fun i : Fin n => f i.castSucc with
      | error e =>
        rw [hinit] at h
        cases h
      | ok w =>
        rw [hinit] at h
        cases hlast : f (Fin.last n) with
        | error e =>
          rw [hlast] at h
          cases h
        | ok x =>
          rw [hlast] at h
          cases h
          intro i
          induction i using Fin.lastCases with
          | last => simpa using hlast
          | cast i => simpa using ih hinit i
  · intro h
    have hf : f = fun i => pure (v.get i) := funext h
    rw [hf, Vector.ofFnM_pure]
    congr 1
    ext i hi
    simp [Vector.get_eq_getElem]

namespace LoopSystem

section Definitions

variable {R : Type} [Number R]

/-- The assignment that a state gives; symbols that the system does not have are zero. -/
def assignment {n : ℕ} (v : Fin n → R) : ℕ → R := fun s => if h : s < n then v ⟨s, h⟩ else 0

/-- The state after an iteration. -/
def update (system : LoopSystem R) (v : Fin system.length → R) : Fin system.length → R :=
  fun i => (system.get i).expr.value (assignment v)

end Definitions

/-- The states in the box of the recorded ranges. -/
def InBox (system : LoopSystem ℝ) (s : Store ℝ) (v : Fin system.length → ℝ) : Prop :=
  (system.bounds s).Admits (assignment v)

/-- The states in which no update divides by zero. -/
def IsDefinedAt (system : LoopSystem ℝ) (v : Fin system.length → ℝ) : Prop :=
  ∀ i : Fin system.length, system[i].expr.IsDefinedAt (assignment v)

variable {system : LoopSystem ℝ} {s : Store ℝ}

lemma assignment_apply {n : ℕ} (v : Fin n → ℝ) (i : Fin n) : assignment v i = v i := by
  simp [assignment]

/-- The line between the assignments of two states consists of assignments of states. -/
lemma line_assignment {n : ℕ} (v w : Fin n → ℝ) (t : ℝ) :
    Expr.line (assignment v) (assignment w - assignment v) t
      = assignment fun i => v i + t * (w i - v i) := by
  funext r
  simp only [Expr.line, assignment, Pi.sub_apply]
  split <;> simp

/-! ## Bounds of the derivatives -/

lemma lipschitz_eq_ok_iff {K : DenseMatrix ℝ system.length system.length} :
    system.lipschitz s = .ok K ↔
      ∀ i j : Fin system.length,
        (system[i].expr.diff j).maxAbs (system.bounds s) = .ok (K.get i j) := by
  rw [lipschitz]
  constructor
  · intro h
    cases hrows : Vector.ofFnM fun i : Fin system.length =>
        Vector.ofFnM fun j : Fin system.length =>
        (system[i].expr.diff j).maxAbs (system.bounds s) with
    | error o =>
      rw [hrows] at h
      cases h
    | ok rows =>
      rw [hrows] at h
      cases h
      intro i j
      exact ofFnM_eq_ok_iff.1 (ofFnM_eq_ok_iff.1 hrows i) j
  · intro h
    have hrows := ofFnM_eq_ok_iff.2 fun i => ofFnM_eq_ok_iff.2 (h i)
    rw [hrows]
    rfl

lemma lipschitz_nonneg {K : DenseMatrix ℝ system.length system.length}
    (hK : system.lipschitz s = .ok K) (i j : Fin system.length) : 0 ≤ K.get i j :=
  Expr.maxAbs_nonneg (lipschitz_eq_ok_iff.1 hK i j)

/-! ## One iteration -/

/-- An iteration stretches the deviation of two states in the box by the bounds of the
derivatives. -/
lemma abs_update_sub_le {K : DenseMatrix ℝ system.length system.length}
    (hK : system.lipschitz s = .ok K) (hdef : ∀ v, system.InBox s v → system.IsDefinedAt v)
    {v w : Fin system.length → ℝ} (hv : system.InBox s v) (hw : system.InBox s w)
    (i : Fin system.length) :
    |system.update w i - system.update v i| ≤ ∑ j, K.get i j * |w j - v j| := by
  have hsame : ∀ r ∉ Finset.range system.length, assignment w r = assignment v r :=
    fun r hr => by simp [assignment, Finset.mem_range.not.1 hr]
  have hmain := Expr.abs_value_sub_le_of_admits (e := system[i].expr) hv hw hsame
    (K := assignment fun j => K.get i j)
    (fun t ht => by
      have hline := hv.line hw ht
      rw [line_assignment] at hline ⊢
      exact hdef _ hline i)
    (fun r hr => by
      have hr' := Finset.mem_range.1 hr
      rw [assignment, dif_pos hr']
      exact lipschitz_eq_ok_iff.1 hK i ⟨r, hr'⟩)
  rw [Finset.sum_range] at hmain
  simp only [assignment_apply] at hmain
  exact hmain

/-! ## All iterations -/

/-- **The closed form bounds the deviation of trajectories.**  If no update divides by zero in the
box of the recorded ranges, then a trajectory and one that starts within `E` of it and is disturbed
by at most `r` in every iteration deviate after `k` iterations in the box by at most the closed
form. -/
theorem abs_trajectory_sub_le {K : DenseMatrix ℝ system.length system.length}
    (hK : system.lipschitz s = .ok K) (hdef : ∀ v, system.InBox s v → system.IsDefinedAt v)
    (k : ℕ) {E r : Vector ℝ system.length} {x y d : ℕ → Fin system.length → ℝ}
    (hx : ∀ t < k, x (t + 1) = system.update (x t))
    (hy : ∀ t < k, y (t + 1) = system.update (y t) + d t)
    (hbox : ∀ t < k, system.InBox s (x t) ∧ system.InBox s (y t))
    (hE : ∀ i : Fin system.length, |y 0 i - x 0 i| ≤ E[i])
    (hr : ∀ t < k, ∀ i : Fin system.length, |d t i| ≤ r[i]) (i : Fin system.length) :
    |y k i - x k i| ≤ (K.afterIterations k E r)[i] := by
  induction k generalizing i with
  | zero => simpa only [DenseMatrix.afterIterations_zero] using hE i
  | succ k ih =>
    have ih := ih (fun t ht => hx t (by omega)) (fun t ht => hy t (by omega))
      (fun t ht => hbox t (by omega)) (fun t ht => hr t (by omega))
    obtain ⟨hvx, hvy⟩ := hbox k (by omega)
    calc |y (k + 1) i - x (k + 1) i|
        = |(system.update (y k) i - system.update (x k) i) + d k i| := by
          rw [hx k (by omega), hy k (by omega), Pi.add_apply, add_sub_right_comm]
      _ ≤ |system.update (y k) i - system.update (x k) i| + |d k i| := abs_add_le _ _
      _ ≤ (∑ j, K.get i j * |y k j - x k j|) + r[i] :=
          add_le_add (abs_update_sub_le hK hdef hvx hvy i) (hr k (by omega) i)
      _ ≤ (∑ j, K.get i j * (K.afterIterations k E r)[j]) + r[i] := by
          gcongr with j
          · exact lipschitz_nonneg hK i j
          · exact ih j
      _ = (K.afterIterations (k + 1) E r)[i] := by
          rw [DenseMatrix.afterIterations_succ]
          exact (congrFun (DenseMatrix.entries_iteration K r _) i).symm

/-! ## A loop that squares -/

/-- The system of a loop that squares a number. -/
abbrev squaring : LoopSystem ℝ :=
  [⟨.inst ⟨0⟩ ⟨0⟩, .inst ⟨0⟩, .named "x", .op .mul (.symbol 0) (.symbol 0), none, false⟩]

/-- The number that is squared lies between zero and one. -/
noncomputable def unitBox : Store ℝ :=
  (default : Store ℝ).setRange (.inst ⟨0⟩ ⟨0⟩) ⟨0, 1, Format.none⟩

/-- The trajectory from one half that gains one eighth in every iteration. -/
noncomputable def disturbed : ℕ → Fin squaring.length → ℝ
  | 0 => fun _ => 1 / 2
  | t + 1 => squaring.update (disturbed t) + fun _ => 1 / 8

lemma bounds_unitBox : squaring.bounds unitBox 0 = .ok ⟨0, 1⟩ := by
  have hrange : unitBox.range? (.inst ⟨0⟩ ⟨0⟩) = some ⟨0, 1, Format.none⟩ := rfl
  have hknown : ((⟨0, 1, Format.none⟩ : Range ℝ) == Range.unknown) = false := by
    simp [Range.unknown, BEq.beq, instBEqRange.beq]
  simp [bounds, hrange, hknown, Bounds.ofRange, Bounds.of]

lemma lipschitz_squaring : squaring.lipschitz unitBox = .ok (DenseMatrix.ofFn fun _ _ => 2) := by
  rw [lipschitz_eq_ok_iff]
  intro i j
  obtain rfl : i = 0 := Fin.fin_one_eq_zero _
  obtain rfl : j = 0 := Fin.fin_one_eq_zero _
  have hdiff : (Expr.op .mul (.symbol 0) (.symbol 0) : Expr ℝ).diff 0
      = .op .add (.symbol 0) (.symbol 0) := by
    simp [Expr.diff, Expr.simplify, Expr.combine, Expr.mulSimplified, Expr.addSimplified,
      Expr.isZero, Expr.isOne]
  change ((Expr.op .mul (.symbol 0) (.symbol 0) : Expr ℝ).diff 0).maxAbs _ = _
  rw [hdiff]
  have hbounds : (Expr.op .add (.symbol 0) (.symbol 0)).evaluate (squaring.bounds unitBox)
      = .ok ⟨0, 2⟩ := by
    refine Expr.evaluate_op_eq_ok_iff.2 ⟨⟨0, 1⟩, ?_, ⟨0, 1⟩, ?_, ?_⟩
    · rw [Expr.evaluate_symbol, bounds_unitBox]
    · rw [Expr.evaluate_symbol, bounds_unitBox]
    · norm_num [Arith.bounds?, Bounds.add, Bounds.of]
  simp [Expr.maxAbs, Expr.const?, hbounds, Bounds.maxAbs, Except.map]

/-- Squaring a number between zero and one doubles its deviation at most. -/
theorem abs_disturbed_sub_le :
    squaring.lipschitz unitBox = .ok (DenseMatrix.ofFn fun _ _ => 2) ∧
      |disturbed 2 0 - 0|
        ≤ ((DenseMatrix.ofFn fun _ _ => 2).afterIterations 2 #v[1 / 2] #v[(1 / 8 : ℝ)])[0] := by
  refine ⟨lipschitz_squaring, ?_⟩
  have hbox (v : Fin squaring.length → ℝ) (h0 : 0 ≤ v 0) (h1 : v 0 ≤ 1) :
      squaring.InBox unitBox v := by
    rintro (_ | n) b hb
    · rw [bounds_unitBox] at hb
      cases hb
      exact ⟨h0, h1⟩
    · simp [bounds] at hb
  have hupdate (v : Fin squaring.length → ℝ) : squaring.update v = fun _ => v 0 * v 0 := by
    funext i
    obtain rfl : i = 0 := Fin.fin_one_eq_zero _
    rfl
  have hone : disturbed 1 = fun _ => 3 / 8 := by
    funext i
    simp only [disturbed, hupdate, Pi.add_apply]
    norm_num
  refine abs_trajectory_sub_le lipschitz_squaring ?_ 2 (x := fun _ _ => 0) (y := disturbed)
    (d := fun _ _ => 1 / 8) ?_ (fun t _ => rfl) ?_ ?_ ?_ 0
  · intro v _ i
    obtain rfl : i = 0 := Fin.fin_one_eq_zero _
    exact ⟨trivial, trivial, nofun⟩
  · intro t _
    simp [hupdate]
  · intro t ht
    refine ⟨hbox _ le_rfl zero_le_one, ?_⟩
    obtain rfl | rfl : t = 0 ∨ t = 1 := by omega
    · exact hbox _ (by norm_num [disturbed]) (by norm_num [disturbed])
    · exact hbox _ (by norm_num [hone]) (by norm_num [hone])
  · intro i
    obtain rfl : i = 0 := Fin.fin_one_eq_zero _
    change |(1 / 2 : ℝ) - 0| ≤ 1 / 2
    norm_num
  · intro t _ i
    obtain rfl : i = 0 := Fin.fin_one_eq_zero _
    change |(1 / 8 : ℝ)| ≤ 1 / 8
    norm_num

end LoopSystem

end Roundoff
