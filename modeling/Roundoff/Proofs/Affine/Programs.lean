/-
# Programs of affine operations

A program computes with affine forms in registers, and each of its operations stands for an
operation on numbers.  An execution over the numbers has choices: a form with an error stands for
any number within the error, and the form of a range for any number in the range.

Whatever an execution chooses, one assignment of noise explains all registers at once.  The noise of
the initial forms may be given, and each operation settles only the symbol that it takes: a register
that is written again, an operand that occurs twice and a symbol that several registers share need
no care, since the values of older forms never change.
-/
import Mathlib
import Roundoff.Proofs.Affine.Noise

namespace Roundoff

/-! ## Operations and programs -/

/-- An operation on affine forms in registers. -/
inductive AffineOp (R : Type) where
  /-- An exact number. -/
  | const (c : R)
  /-- A number with an error of the given magnitude. -/
  | withError (c m : R)
  /-- The form that spans a range. -/
  | ofRange (r : Range R)
  /-- The sum of two registers. -/
  | add (i j : ℕ)
  /-- The difference of two registers. -/
  | sub (i j : ℕ)
  /-- The negated register. -/
  | neg (i : ℕ)
  /-- A multiple of a register. -/
  | scale (i : ℕ) (k : R)
  /-- The product of two registers. -/
  | mul (i j : ℕ)
  /-- The register with all its noise in one fresh term. -/
  | flatten (i : ℕ)

namespace AffineOp

/-- The form that an operation makes from the forms in the registers. -/
def eval {R : Type} [Number R] (ρ : ℕ → Affine R) : AffineOp R → Fresh (Affine R)
  | const c => pure (.const c)
  | withError c m => Affine.withError c m
  | ofRange r => r.toAffine
  | add i j => pure ((ρ i).add (ρ j))
  | sub i j => pure ((ρ i).sub (ρ j))
  | neg i => pure (ρ i).neg
  | scale i k => pure ((ρ i).scale k)
  | mul i j => (ρ i).mul (ρ j)
  | flatten i => (ρ i).flatten

/-- Whether the operation may have the result `x` on the numbers in the registers. -/
def Allows (v : ℕ → ℝ) (x : ℝ) : AffineOp ℝ → Prop
  | const c => x = c
  | withError c m => x ∈ Set.Icc (c - |m|) (c + |m|)
  | ofRange r => x ∈ r
  | add i j => x = v i + v j
  | sub i j => x = v i - v j
  | neg i => x = -v i
  | scale i k => x = v i * k
  | mul i j => x = v i * v j
  | flatten i => x = v i

end AffineOp

/-- A program of affine operations, each with the register that receives its result. -/
abbrev AffineProgram (R : Type) := List (ℕ × AffineOp R)

namespace AffineProgram

/-- The registers after a program, with the forms that it makes. -/
def run {R : Type} [Number R] : AffineProgram R → (ℕ → Affine R) → Fresh (ℕ → Affine R)
  | [], ρ => pure ρ
  | (i, op) :: p, ρ => do
    let f ← op.eval ρ
    run p (Function.update ρ i f)

/-- The executions of a program over the numbers. -/
inductive Executes : AffineProgram ℝ → (ℕ → ℝ) → (ℕ → ℝ) → Prop
  /-- Nothing is left to be done. -/
  | nil (v : ℕ → ℝ) : Executes [] v v
  /-- The first operation has a result, and the rest of the program continues with it. -/
  | cons {i : ℕ} {op : AffineOp ℝ} {p : AffineProgram ℝ} {v v' : ℕ → ℝ} {x : ℝ}
    (hop : op.Allows v x) (hp : Executes p (Function.update v i x) v') :
      Executes ((i, op) :: p) v v'

end AffineProgram

/-! ## One noise for all registers -/

variable {w w' : Supply} {ρ : ℕ → Affine ℝ} {v v' : ℕ → ℝ}

/-- With the noise of a supply, every register has the value that it stands for. -/
def Supply.Explains (w : Supply) (ρ : ℕ → Affine ℝ) (v : ℕ → ℝ) : Prop :=
  ∀ i, (ρ i).Represents w (v i)

lemma Supply.Explains.mono (h : w.Explains ρ v) (hw : w ≤ w') : w'.Explains ρ v :=
  fun i => (h i).mono hw

lemma Supply.Explains.update {f : Affine ℝ} {x : ℝ} (h : w.Explains ρ v) (hf : f.Represents w x)
    (i : ℕ) : w.Explains (Function.update ρ i f) (Function.update v i x) := by
  intro j
  rcases eq_or_ne j i with rfl | hij
  · rwa [Function.update_self, Function.update_self]
  · rw [Function.update_of_ne hij, Function.update_of_ne hij]
    exact h j

namespace AffineOp

/-- **An operation explains any result that it may have.**  The symbol that it takes can be given a
value such that the new form has the wanted value; the noise in use stays as it is. -/
theorem eval_yields {op : AffineOp ℝ} {x : ℝ} (hx : op.Allows v x) (h : w.Explains ρ v) :
    Fresh.Yields w (op.eval ρ) fun f w' => f.Represents w' x := by
  cases op with
  | const c =>
    obtain rfl : x = c := hx
    exact Fresh.yields_pure (Affine.represents_const x)
  | withError c m =>
    have hdev : |x - c| ≤ |m| := abs_sub_le_iff.2 ⟨by linarith [hx.2], by linarith [hx.1]⟩
    exact (Affine.withError_yields hdev).mono fun _ _ _ hf => hf.1
  | ofRange r => exact Range.toAffine_yields hx
  | add i j =>
    obtain rfl : x = v i + v j := hx
    exact Fresh.yields_pure ((h i).add (h j))
  | sub i j =>
    obtain rfl : x = v i - v j := hx
    exact Fresh.yields_pure ((h i).sub (h j))
  | neg i =>
    obtain rfl : x = -v i := hx
    exact Fresh.yields_pure (h i).neg
  | scale i k =>
    obtain rfl : x = v i * k := hx
    exact Fresh.yields_pure ((h i).scale k)
  | mul i j =>
    obtain rfl : x = v i * v j := hx
    exact ((h i).mul_yields (h j)).mono fun _ _ _ hf => hf.1
  | flatten i =>
    obtain rfl : x = v i := hx
    exact (h i).flatten_yields.mono fun _ _ _ hf => hf.1

end AffineOp

namespace AffineProgram

/-- From a supply that explains the registers before a program, the noise can be chosen such that
it explains the registers after it. -/
lemma run_yields {p : AffineProgram ℝ} (hp : p.Executes v v') (h : w.Explains ρ v) :
    Fresh.Yields w (p.run ρ) fun ρ' w' => w'.Explains ρ' v' := by
  induction hp generalizing w ρ with
  | nil v => exact Fresh.yields_pure h
  | cons hop _ ih =>
    exact (AffineOp.eval_yields hop h).bind fun f w' hw hf => ih ((h.mono hw).update hf _)

/-- **Affine arithmetic is exact up to the choice of noise.**  Let the initial forms use symbols
below `n`, and let these have values between -1 and 1.  However a program of affine operations is
executed over the numbers from the values of the initial forms, the values of the symbols can be
extended to all symbols, within -1 and 1, such that in the end every register has exactly the number
of the execution. -/
theorem exists_noise_of_executes (p : AffineProgram ℝ) {n : Symbol} {ε : Symbol → ℝ}
    (hρ : ∀ i, (ρ i).terms.IsBelow n) (hε : ∀ s < n, |ε s| ≤ 1)
    (hp : p.Executes (fun i => (ρ i).value ε) v) :
    ∃ ε' : Symbol → ℝ, (∀ s < n, ε' s = ε s) ∧ (∀ s, |ε' s| ≤ 1) ∧
      ∀ i, ((p.run ρ n).1 i).value ε' = v i := by
  -- the symbols that are not in use yet may have any value to begin with
  let w : Supply :=
    { next := n
      noise := fun s => if s < n then ε s else 0
      abs_noise_le := fun s => by
        split
        · next hs => exact hε s hs
        · simp }
  have hnoise : ∀ s < n, w.noise s = ε s := fun s hs => if_pos hs
  have hinit : w.Explains ρ fun i => (ρ i).value ε := fun i =>
    ⟨hρ i, congrArg ((ρ i).central + ·) (Terms.value_congr (hρ i) hnoise)⟩
  obtain ⟨w', hw, -, hfinal⟩ := run_yields hp hinit
  exact ⟨w'.noise, fun s hs => (hw.2 s hs).trans (hnoise s hs), w'.abs_noise_le,
    fun i => (hfinal i).value_eq⟩

end AffineProgram

namespace NoisySquare

/-- Every register holds `1 ± 1`, all with the same noise. -/
def initial : ℕ → Affine ℝ := fun _ => ⟨1, [(0, 1)]⟩

/-- The square of `1 ± 1`, less the double of another register. -/
def program : AffineProgram ℝ :=
  [(0, .withError 1 1), (0, .mul 0 0), (1, .add 1 1), (0, .sub 0 1)]

lemma value_initial (i : ℕ) : (initial i).value (fun _ => 1 / 2) = 3 / 2 := by
  norm_num [initial, Affine.value]

/-- If the noise in the registers is 1/2, and 7/4 is chosen for `1 ± 1`, then the result is 1/16. -/
lemma executes : program.Executes (fun i => (initial i).value fun _ => 1 / 2)
    (Function.update (Function.update (Function.update (Function.update (fun _ => 3 / 2) 0 (7 / 4))
      0 (49 / 16)) 1 3) 0 (1 / 16)) := by
  simp only [value_initial]
  refine .cons (x := 7 / 4) ?_ (.cons (x := 49 / 16) ?_ (.cons (x := 3) ?_ (.cons (x := 1 / 16) ?_
    (.nil _))))
  all_goals norm_num [AffineOp.Allows]

/-- The noise 1/2 extends to noise that explains the result 1/16. -/
theorem exists_noise : ∃ ε : Symbol → ℝ, (∀ s < 1, ε s = 1 / 2) ∧ (∀ s, |ε s| ≤ 1) ∧
    ((program.run initial 1).1 0).value ε = 1 / 16 := by
  obtain ⟨ε, hε, hbounded, hvalue⟩ := program.exists_noise_of_executes (ε := fun _ => 1 / 2)
    (fun _ => Terms.isBelow_cons.2 ⟨Nat.one_pos, Terms.isBelow_nil⟩)
    (fun _ _ => by norm_num [abs_of_pos]) executes
  exact ⟨ε, hε, hbounded, (hvalue 0).trans (Function.update_self ..)⟩

end NoisySquare

end Roundoff
