/-
# What is known of the values of an activation

A store keeps an estimate per value.  A value without an entry has no data, which differs from the
error zero.  Writing the error of a labelled value also raises the error of its label, and the
fields of aggregate objects are kept beside the entries.
-/
import Roundoff.Store.Targets
import Roundoff.Aggregate.Objects

namespace Roundoff

/-- What is known of the values of an activation. -/
structure Store (R : Type) where
  /-- The estimates of values. -/
  entries : Table Key (Estimate R)
  /-- The labels of values. -/
  labels : Table Key String
  /-- The largest error recorded for each label. -/
  targets : Targets R
  /-- What is known of the fields of aggregate objects. -/
  objects : Objects R
deriving Repr

/-- The labels of the instructions and globals of a module. -/
def Module.labels {R : Type} (m : Module R) : Table Key String :=
  let ofInsts := m.functions.toList.flatMap fun f =>
    f.insts.toList.filterMap fun i => i.target.map fun label => (Key.inst f.id i.id, label)
  let ofGlobals := m.globals.toList.filterMap fun g =>
    g.target.map fun label => (Key.global g.id, label)
  Table.ofList (ofInsts ++ ofGlobals)

namespace Store

variable {R : Type} [Number R]

/-- The store without entries that knows the labels of a module. -/
def forModule (m : Module R) : Store R := ⟨∅, m.labels, Targets.empty, Objects.empty⟩

instance : Inhabited (Store R) := ⟨⟨∅, ∅, Targets.empty, Objects.empty⟩⟩

/-! ## Entries -/

/-- The estimate of a value. -/
def get? (s : Store R) (k : Key) : Option (Estimate R) := s.entries.get? k

/-- The range of a value. -/
def range? (s : Store R) (k : Key) : Option (Range R) := (s.get? k).map Estimate.range

/-- The error of a value. -/
def error? (s : Store R) (k : Key) : Option (Affine R) := (s.get? k).bind Estimate.error

/-- Raise the error of the label of a value. -/
def raiseTarget (s : Store R) (k : Key) (bound : R) : Store R :=
  match s.labels.get? k with
  | some label => { s with targets := s.targets.raise label bound }
  | none => s

/-- Set the error of a value; a value without an entry gets the unknown range. -/
def setError (s : Store R) (k : Key) (error : Affine R) : Store R :=
  let e := (s.get? k).getD Estimate.unknown
  { s with entries := s.entries.insert k { e with error := some error } }.raiseTarget k
    error.noiseBound

/-- Set the range of a value and keep its error. -/
def setRange (s : Store R) (k : Key) (range : Range R) : Store R :=
  let e := (s.get? k).getD Estimate.unknown
  { s with entries := s.entries.insert k { e with range := range } }

/-- Set the estimate of a value. -/
def set (s : Store R) (k : Key) (e : Estimate R) : Store R :=
  let s := { s with entries := s.entries.insert k e }
  match e.absError with
  | some bound => s.raiseTarget k bound
  | none => s

/-- Forget a value. -/
def erase (s : Store R) (k : Key) : Store R := { s with entries := s.entries.erase k }

/-- Whether the recorded error of a value is at least the given bound. -/
def hasErrorAtLeast (s : Store R) (k : Key) (bound : R) : Bool :=
  match (s.get? k).bind Estimate.absError with
  | some old => bound ≤ old
  | none => false

/-- Replace the estimate of a value by one with a larger error, and say whether it was larger.  The
range is kept where the new one is unknown. -/
def raise (s : Store R) (k : Key) (candidate : Estimate R) : Bool × Store R :=
  match candidate.absError with
  | none => (false, s)
  | some bound =>
    if s.hasErrorAtLeast k bound then (false, s)
    else
      let range :=
        match s.get? k with
        | some e => if candidate.range.isUnknown then e.range else candidate.range
        | none => candidate.range
      (true, s.set k ⟨range, candidate.error⟩)

/-! ## Annotations -/

/-- The estimate of an annotated value. -/
def annotated (info : ScalarInfo R) : Fresh (Estimate R) := do
  return ⟨info.rangeOrZero, ← info.error?⟩

/-- Set the estimate of an annotated value. -/
def seed (s : Store R) (k : Key) (info : ScalarInfo R) : Fresh (Store R) := do
  return s.set k (← annotated info)

/-- Set up an annotated value: a scalar by an entry, and the fields of an object of the given struct
type by a tree. -/
def seedValue (m : Module R) (s : Store R) (k : Key) (ty : Option StructId) :
    Option (ValueInfo R) → Fresh (Store R)
  | none => return s
  | some (.scalar info) => s.seed k info
  | some (.struct infos) =>
    match ty with
    | none => return s
    | some ty => do return { s with objects := ← s.objects.seed m k ty infos }

/-- Set up the annotated formal parameters of a function. -/
def seedArguments (s : Store R) (m : Module R) (f : Function R) : Fresh (Store R) :=
  f.params.toList.zipIdx.foldlM (fun s (p, n) =>
    s.seedValue m (.arg f.id (UInt32.ofNat n)) p.ty.targetStruct? p.info) s

/-- Set up the annotated global variables. -/
def seedGlobals (s : Store R) (m : Module R) : Fresh (Store R) :=
  m.globals.toList.foldlM (fun s g => s.seedValue m (.global g.id) g.ty.struct? g.info) s

/-! ## Calls -/

/-- What a formal parameter starts with: the data of the actual one, and those of the annotation
where the actual one has none. -/
def mergeArgument (annotated : Option (Estimate R)) (actual : Estimate R) : Estimate R :=
  match annotated with
  | none => actual
  | some a => ⟨if actual.range.isUnknown then a.range else actual.range, actual.error.or a.error⟩

/-- Give the formal parameters of a callee the data of the actual ones, which are operands of the
caller and are read from `source`. -/
def applyArguments (s source : Store R) (caller : FunctionId) (callee : Function R)
    (actuals : List (Value R)) : Store R :=
  (actuals.take callee.params.size).zipIdx.foldl (fun s (actual, n) =>
    match (Key.of? caller actual).bind source.get? with
    | none => s
    | some e =>
      let formal := Key.arg callee.id (UInt32.ofNat n)
      s.set formal (mergeArgument (s.get? formal) e)) s

/-- Whether a key names a local value, a formal parameter or the result of a function. -/
def belongsTo (f : FunctionId) (k : Key) : Bool := k.owner? == some f || k == .function f

/-- Forget all that belongs to a function. -/
def eraseFunction (s : Store R) (f : Function R) : Store R :=
  { s with
    entries := s.entries.filterKeys fun k => !belongsTo f.id k
    objects := s.objects.eraseLocals f }

/-- Take over what another store knows of global variables. -/
def mergeGlobals (s other : Store R) : Store R :=
  { s with
    entries := s.entries.update (other.entries.filterKeys Key.isGlobal)
    objects := s.objects.mergeGlobals other.objects }

/-- Raise the errors of labels to those of another store. -/
def mergeTargets (s other : Store R) : Store R :=
  { s with targets := s.targets.merge other.targets }

/-- The same ranges with all known errors zero, and no errors of labels.  Following a program from
such a store shows the rounding that the program itself introduces. -/
def zeroed (s : Store R) : Store R :=
  { s with
    entries := s.entries.map Estimate.zeroed
    targets := Targets.empty
    objects := s.objects.zeroed }

end Store

end Roundoff
