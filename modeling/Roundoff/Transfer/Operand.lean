/-
# Activations and their operands

An activation is one run through the body of a function.  Its state holds what is known of values,
the verdicts on comparisons, and the instructions whose error has been settled by a closed form.
Transfer rules read the operands of an instruction from the state; a rule that misses data gives up
without writing anything.
-/
import Roundoff.Memory.Sources
import Roundoff.Flow.Schedule
import Roundoff.Store

namespace Roundoff

/-- The state of an activation. -/
structure Activation (R : Type) where
  /-- What is known of values. -/
  store : Store R
  /-- The verdicts on the comparisons visited so far. -/
  verdicts : Table InstId (Verdict R) := ∅
  /-- The instructions whose error is settled; visits leave them alone. -/
  pinned : Table InstId Unit := ∅
deriving Repr

/-- A function body with all that the transfer rules need to know about it. -/
structure Body (R : Type) where
  /-- The module of the function. -/
  module : Module R
  /-- The function. -/
  function : Function R
  /-- The control flow of the function. -/
  flow : Flow
  /-- The memory states of the function. -/
  memory : Memory
  /-- The settings of the analysis. -/
  settings : Settings

/-- A computation that may lack data. -/
abbrev Attempt := OptionT Fresh

/-- The results of two computations, if both have data.  The second one runs in any case. -/
def Attempt.both {α β : Type} (x : Attempt α) (y : Attempt β) : Attempt (α × β) :=
  OptionT.mk do
    let first ← x.run
    let second ← y.run
    return first.bind fun a => second.map fun b => (a, b)

/-- The range and the error of an operand. -/
structure Operand (R : Type) where
  /-- The range of the operand. -/
  range : Range R
  /-- The error of the operand. -/
  error : Affine R
deriving Repr

namespace Operand

variable {R : Type} [Number R]

/-- A bound of the magnitude of the error. -/
def absError (o : Operand R) : R := o.error.noiseBound

/-- The operand as an estimate. -/
def toEstimate (o : Operand R) : Estimate R := ⟨o.range, some o.error⟩

end Operand

/-- The operand that an estimate describes, if it has error data. -/
def Estimate.toOperand? {R : Type} (e : Estimate R) : Option (Operand R) :=
  e.error.map fun error => ⟨e.range, error⟩

namespace Body

variable {R : Type} [Number R]

/-- The body of a function of a module. -/
def of (m : Module R) (settings : Settings) (f : Function R) : Body R :=
  ⟨m, f, Flow.of f, Memory.of m f, settings⟩

/-- The key of the result of an instruction. -/
def key (b : Body R) (i : Instruction R) : Key := .inst b.function.id i.id

/-- The key of an operand. -/
def keyOf? (b : Body R) (v : Value R) : Option Key := Key.of? b.function.id v

/-- The range recorded for the result of an instruction. -/
def resultRange? (b : Body R) (s : Store R) (i : Instruction R) : Option (Range R) :=
  s.range? (b.key i)

/-- The record of an operand. -/
def record? (b : Body R) (s : Store R) (v : Value R) : Option (Estimate R) :=
  (b.keyOf? v).bind s.get?

/-- The format recorded for an operand. -/
def formatOf? (b : Body R) (s : Store R) (v : Value R) : Option Format :=
  (b.record? s v).map fun e => e.range.format

/-- The range and the error of an operand.  An integer constant is read in the given format and has
its rounding error; a real constant is exact. -/
def operand (b : Body R) (s : Store R) (v : Value R) (format : Option Format) :
    Attempt (Operand R) :=
  match v with
  | .constInt raw => do
    let some format := format | failure
    let error ← Affine.withError 0 format.roundingError
    return ⟨Range.point format (format.interpret raw), error⟩
  | .constFloat x => return ⟨Range.point Format.none x, Affine.zero⟩
  | .undef => failure
  | v => OptionT.mk (return (b.record? s v).bind Estimate.toOperand?)

/-- Record an error for the result of an instruction. -/
def write (b : Body R) (a : Activation R) (i : Instruction R) (error : Affine R) : Activation R :=
  { a with store := a.store.setError (b.key i) error }

/-- Record an estimate for the result of an instruction. -/
def writeEstimate (b : Body R) (a : Activation R) (i : Instruction R) (e : Estimate R) :
    Activation R :=
  { a with store := a.store.set (b.key i) e }

end Body

end Roundoff
