/-
# Faults of an analysis

The analysis of a function stops at a program fault that the check of its module does not exclude.
-/
import Roundoff.Elementary
import Roundoff.Program.Value

namespace Roundoff

/-- Why the analysis of a function stops. -/
inductive Fault where
  /-- A library routine is called without its argument. -/
  | missingArgument (function : String) (routine : Elementary)
  /-- A stack slot that holds no aggregate is annotated as one. -/
  | aggregateOnSlot (function slot : String)
  /-- The function to be analysed does not exist. -/
  | unknownFunction (id : FunctionId)
deriving DecidableEq, Repr

namespace Fault

/-- The text of a fault. -/
def message : Fault → String
  | missingArgument function routine =>
    s!"Malformed input: {function}: call to {routine.name} without an argument"
  | aggregateOnSlot function slot =>
    s!"Malformed input: {function}: aggregate annotation on non-aggregate slot '{slot}'"
  | unknownFunction id => s!"Unknown function: #{id.val}"

end Fault

end Roundoff
