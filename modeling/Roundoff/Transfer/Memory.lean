/-
# Stores, loads, addresses and stack slots

The error of a stored value is recorded for the store, for the formal parameter through which it is
written, and for the field of the aggregate that it is written to.  A load takes what it finds over
the memory states and in the aggregate; several sources collapse to the largest error.
-/
import Roundoff.Transfer.Merge
import Roundoff.Transfer.Fault

namespace Roundoff

variable {R : Type} [Number R]

/-- The formal parameter that a pointer is derived from by address computations and casts, followed
over at most the given number of steps. -/
def Function.traceFormal? (f : Function R) : (steps : Nat) → Value R → Option UInt32
  | 0, _ => none
  | steps + 1, pointer =>
    match pointer with
    | .arg n => some n
    | .inst id =>
      match (f.inst? id).map Instruction.op with
      | some (.element base _) => f.traceFormal? steps base
      | some (.cast _ operand) => f.traceFormal? steps operand
      | _ => none
    | _ => none

/-- The formal parameter that a pointer is derived from by address computations and casts. -/
def Function.formalOf? (f : Function R) (pointer : Value R) : Option UInt32 :=
  f.traceFormal? (f.insts.size + 1) pointer

namespace Body

/-- What a store writes: the stored value, or what is recorded for the address if nothing is known
of the value. -/
def storedEstimate (b : Body R) (s : Store R) (value ptr : Value R) : Attempt (Estimate R) := do
  (Operand.toEstimate <$> b.operand s value (b.formatOf? s ptr)) <|>
    OptionT.mk (return (b.record? s ptr).filter Estimate.hasError)

/-- The rule for stores. -/
def store (b : Body R) (a : Activation R) (i : Instruction R) (value ptr : Value R) :
    Attempt (Activation R) := do
  let e ← b.storedEstimate a.store value ptr
  let s := a.store.set (b.key i) e
  let s :=
    match b.function.formalOf? ptr with
    | some n => (s.raise (.arg b.function.id n) e).2
    | none => s
  let (_, objects) := s.objects.setField b.module b.function ptr e
  return { a with store := { s with objects := objects } }

/-- The distinct estimates with error data that a load may read: those found over the memory states,
and that of the field it addresses. -/
def loadSources (b : Body R) (s : Store R) (load : InstId) (ptr : Value R) :
    List (Estimate R) :=
  let found := (b.memory.sources b.function s.get? load).filter Estimate.hasError
  match (s.objects.getField? b.module b.function ptr).filter Estimate.hasError with
  | some e => if found.contains e then found else found ++ [e]
  | none => found

/-- The estimate of a loaded value from its sources, where `own` is the known range of the load.
Without a source the value has the rounding error of its own range, and a merged value needs a range
of its own. -/
def loadedEstimate (own : Option (Range R)) : List (Estimate R) → Attempt (Estimate R)
  | [] => do
    let some range := own | failure
    let error ← Affine.withError 0 range.roundingError
    return ⟨range, some error⟩
  | [e] => return { e with range := if e.range.isUnknown then own.getD e.range else e.range }
  | sources => do
    let some range := own | failure
    let bound := (sources.filterMap Estimate.absError).foldl Number.max 0
    let error ← Affine.withError 0 bound
    return ⟨range, some error⟩

/-- The rule for loads. -/
def load (b : Body R) (a : Activation R) (i : Instruction R) (ptr : Value R) :
    Attempt (Activation R) := do
  let own := (b.resultRange? a.store i).filter fun r => !r.isUnknown
  let e ← loadedEstimate own (b.loadSources a.store i.id ptr)
  return b.writeEstimate a i e

/-- The rule for address computations: an address carries the record of its base pointer. -/
def element (b : Body R) (a : Activation R) (i : Instruction R) (base : Value R) :
    Attempt (Activation R) := do
  let some e := b.record? a.store base | failure
  return b.writeEstimate a i e

/-- The rule for stack slots: an annotated aggregate starts with the annotated fields. -/
def alloca (b : Body R) (a : Activation R) (i : Instruction R) (allocated : Ty) :
    ExceptT Fault Fresh (Option (Activation R)) :=
  match allocated, i.info with
  | .struct ty, some (.struct infos) => do
    let objects ← a.store.objects.seed b.module (b.key i) ty infos
    return some { a with store := { a.store with objects := objects } }
  | _, some (.struct _) => throw (.aggregateOnSlot b.function.name i.name)
  | _, _ => return none

end Body

end Roundoff
