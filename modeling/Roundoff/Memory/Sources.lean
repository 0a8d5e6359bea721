/-
# Sources of a loaded value

A load may read what any of the stores wrote that it finds on its way back over the memory states.
Where it finds memory as the function found it, or a call, the value is the one recorded for the
address: for the nearest pointer on the chain of loads and address computations for which there is a
record.
-/
import Roundoff.Memory.States

namespace Roundoff

variable {R : Type} [Number R]

/-- What is recorded of each value. -/
abbrev Records (R : Type) := Key → Option (Estimate R)

namespace Function

/-- The first record on the chain of addresses behind a load or address computation, which has at
most the given length. -/
def chainRecord? (f : Function R) (records : Records R) :
    (steps : Nat) → Instruction R → Option (Estimate R)
  | 0, _ => none
  | steps + 1, i =>
    let pointer? :=
      match i.op with
      | .load ptr => some ptr
      | .element base _ => some base
      | _ => none
    match pointer? with
    | none => none
    | some pointer =>
      match (Key.of? f.id pointer).bind records with
      | some e => some e
      | none =>
        match f.definition? pointer with
        | some next => f.chainRecord? records steps next
        | none => none

/-- The first record on the chain of addresses behind a load. -/
def addressRecord? (f : Function R) (records : Records R) (load : InstId) : Option (Estimate R) :=
  (f.inst? load).bind (f.chainRecord? records (f.insts.size + 1))

end Function

namespace Memory

/-- The record of what a load reads in a state. -/
def record? (mem : Memory) (f : Function R) (records : Records R) (load : InstId) (s : StateId) :
    Option (Estimate R) :=
  match mem.state? s with
  | some .initial => f.addressRecord? records load
  | some (.written inst _) =>
    if (f.inst? inst).any Instruction.isCall then f.addressRecord? records load
    else records (.inst f.id inst)
  | _ => none

/-- The distinct records that a load may read. -/
def sources (mem : Memory) (f : Function R) (records : Records R) (load : InstId) :
    List (Estimate R) :=
  ((mem.statesOf load).filterMap (mem.record? f records load)).eraseDups

end Memory

end Roundoff
