/-
# Exact and rounded executions of straight-line arithmetic

A block of arithmetic instructions is executed twice: exactly, and with the errors that the analysis
accounts for.  The erroneous execution starts from formal parameters that deviate by at most their
initial errors, and every step that rounds may be off by the rounding error of its format.  Shifts
and conversions keep the number that their operand stands for.

An execution knows nothing of the analysis except how constants are read: an integer constant has
the value that it has in the format of the result, and a constant dividend has twice as many
fractional bits.
-/
import Mathlib
import Roundoff.Proofs.Range
import Roundoff.Transfer.Step

namespace Roundoff

/-! ## Operations -/

/-- What an arithmetic operation computes when it is exact. -/
noncomputable def BinaryOp.exact? : BinaryOp → Option (ℝ → ℝ → ℝ)
  | add | fadd => some fun x y => x + y
  | sub | fsub => some fun x y => x - y
  | mul | fmul => some fun x y => x * y
  | sdiv | udiv | fdiv => some fun x y => x / y
  | shl | lshr | ashr => some fun x _ => x
  | srem | urem | frem | and | or | xor => none

/-- Whether an operation rounds to the format of its result. -/
def BinaryOp.isRounding : BinaryOp → Bool
  | sdiv | udiv | lshr | ashr => true
  | _ => false

/-- The values that keys have in an execution. -/
abbrev Valuation := Key → ℝ

/-- The value of an operand of a function, where an integer constant is read in the given format. -/
noncomputable def Value.read (f : FunctionId) (x : Valuation) (format : Option Format) : Value ℝ → ℝ
  | .inst id => x (.inst f id)
  | .arg index => x (.arg f index)
  | .constInt raw => (format.getD Format.none).interpret raw
  | .constFloat c => c
  | .global _ | .function _ | .undef => 0

namespace Instruction

/-- The annotated format of the result. -/
def format? (i : Instruction ℝ) : Option Format := i.scalarInfo?.map ScalarInfo.format

/-- The rounding error of the annotated format, zero without one. -/
noncomputable def roundingError (i : Instruction ℝ) : ℝ := i.format?.elim 0 Format.roundingError

variable {i : Instruction ℝ} {info : ScalarInfo ℝ}

lemma format?_eq (h : i.scalarInfo? = some info) : i.format? = some info.rangeOrZero.format := by
  rw [format?, h, info.format_rangeOrZero, Option.map_some]

lemma roundingError_eq (h : i.scalarInfo? = some info) :
    i.roundingError = info.rangeOrZero.roundingError := by
  rw [roundingError, format?_eq h, Range.roundingError, Option.elim_some]

/-- Whether the value that the execution `x` gives to an instruction is what its operation makes of
the operands.  A rounding operation may be off by `slack`. -/
def Computes (f : FunctionId) (i : Instruction ℝ) (x : Valuation) (slack : ℝ) : Prop :=
  match i.op with
  | .binary op lhs rhs =>
    ∀ g, op.exact? = some g →
      |x (.inst f i.id) - g (lhs.read f x (op.firstFormat lhs i.format?)) (rhs.read f x i.format?)|
        ≤ if op.isRounding then slack else 0
  | .cast op v =>
    |x (.inst f i.id) - v.read f x i.format?| ≤ if op.isRounding then slack else 0
  | .ret (some v) => x (.inst f i.id) = v.read f x none
  | _ => True

end Instruction

/-! ## Straight-line blocks -/

/-- Whether an operand of a block is a formal parameter, a constant, or the result of an annotated
instruction. -/
def Value.IsScalar (is : List (Instruction ℝ)) : Value ℝ → Prop
  | .inst id => ∀ i ∈ is, i.id = id → i.scalarInfo?.isSome
  | .arg _ | .constInt _ | .constFloat _ => True
  | .global _ | .function _ | .undef => False

/-- Whether an instruction of a block is annotated arithmetic, an annotated conversion or a return,
of scalars. -/
def Instruction.IsArithmetic (is : List (Instruction ℝ)) (i : Instruction ℝ) : Prop :=
  match i.op with
  | .binary op lhs rhs =>
    op.exact?.isSome ∧ i.scalarInfo?.isSome ∧ lhs.IsScalar is ∧ rhs.IsScalar is
  | .cast _ v => i.scalarInfo?.isSome ∧ v.IsScalar is
  | .ret v => ∀ u, v = some u → u.IsScalar is
  | _ => False

/-- The annotation holds for a quantity with the exact value `x` and the erroneous value `y`. -/
structure ScalarInfo.Admits (info : ScalarInfo ℝ) (x y : ℝ) : Prop where
  /-- The exact value lies in the annotated range. -/
  range : x ∈ info.rangeOrZero
  /-- The values deviate by at most the initial error. -/
  deviation : ∀ m, info.initialError = some m → |y - x| ≤ |m|

/-- An exact and an erroneous execution of instructions of a function. -/
structure Execution (f : Function ℝ) (is : List (Instruction ℝ)) where
  /-- The values of the exact execution. -/
  ideal : Valuation
  /-- The values of the erroneous execution. -/
  computed : Valuation
  /-- The annotations of the formal parameters hold. -/
  param_admits : ∀ (n : ℕ) (p : Param ℝ) (info : ScalarInfo ℝ), f.params[n]? = some p →
    p.info = some (.scalar info) →
    info.Admits (ideal (.arg f.id (UInt32.ofNat n))) (computed (.arg f.id (UInt32.ofNat n)))
  /-- The annotations of the instructions hold. -/
  inst_admits : ∀ i ∈ is, ∀ info, i.scalarInfo? = some info →
    info.Admits (ideal (.inst f.id i.id)) (computed (.inst f.id i.id))
  /-- The exact execution does not round. -/
  ideal_computes : ∀ i ∈ is, i.Computes f.id ideal 0
  /-- The erroneous execution rounds to the annotated formats. -/
  computed_computes : ∀ i ∈ is, i.Computes f.id computed i.roundingError

namespace Execution

variable {f : Function ℝ} {is : List (Instruction ℝ)}

/-- What the error recorded for a key stands for: the deviation of a formal parameter or of a
result, and for the function itself that of a value which it returns. -/
inductive Deviation (e : Execution f is) : Key → ℝ → Prop
  | arg (index : UInt32) :
    e.Deviation (.arg f.id index) (e.computed (.arg f.id index) - e.ideal (.arg f.id index))
  | inst (id : InstId) :
    e.Deviation (.inst f.id id) (e.computed (.inst f.id id) - e.ideal (.inst f.id id))
  | returned (i : Instruction ℝ) (hi : i ∈ is) (v : Value ℝ) (hv : i.op = .ret (some v)) :
    e.Deviation (.function f.id) (e.computed (.inst f.id i.id) - e.ideal (.inst f.id i.id))

end Execution

end Roundoff
