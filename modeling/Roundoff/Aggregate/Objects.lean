/-
# Aggregate objects and pointers into them

A pointer into an aggregate is resolved by walking back from it: through address computations, which
contribute their indices apart from the first one, and through loads, to the object that it points
into.  That is a stack slot or global variable of struct type, or a formal parameter that points to
a struct.  During a call a formal parameter may be bound to a path of the caller, so that what the
callee writes is kept with the object of the caller.
-/
import Roundoff.Aggregate.Tree
import Roundoff.Table

namespace Roundoff

/-- An element of an aggregate object. -/
structure FieldPath where
  /-- The object. -/
  root : Key
  /-- The struct type of the object. -/
  ty : StructId
  /-- The path from the object to the element. -/
  indices : List PathIndex
deriving DecidableEq, Repr

namespace FieldPath

/-- Continue a path. -/
def append (p : FieldPath) (steps : List PathIndex) : FieldPath :=
  { p with indices := p.indices ++ steps }

end FieldPath

/-- What is known of the fields of aggregate objects. -/
structure Objects (R : Type) where
  /-- The trees of the objects. -/
  trees : Table Key (Tree R)
  /-- The paths of the caller that formal parameters are bound to. -/
  bindings : Table Key FieldPath
deriving Repr

/-- The step that an index of an address computation makes. -/
def PathIndex.of {R : Type} : Value R → PathIndex
  | .constInt c => if 0 ≤ c then .const c.toInt.toNat else .dynamic
  | _ => .dynamic

namespace Objects

variable {R : Type}

/-- No object. -/
def empty : Objects R := ⟨∅, ∅⟩

instance : Inhabited (Objects R) := ⟨empty⟩

/-- The path of a formal parameter: the one it is bound to, or the parameter itself if it points to
a struct. -/
def formalPath? (o : Objects R) (f : Function R) (index : UInt32) : Option FieldPath :=
  let formal := Key.arg f.id index
  match o.bindings.get? formal with
  | some path => some path
  | none => ((f.param? index).bind fun p => p.ty.targetStruct?).map fun ty => ⟨formal, ty, []⟩

/-- Walk back from a pointer, given the steps below it.  Pointers that are computed in a circle are
given up after the given number of steps. -/
def walk? (o : Objects R) (m : Module R) (f : Function R) :
    (bound : Nat) → (below : List PathIndex) → Value R → Option FieldPath
  | 0, _, _ => none
  | bound + 1, below, pointer =>
    match pointer with
    | .inst id =>
      match (f.inst? id).map Instruction.op with
      | some (.element base indices) =>
        o.walk? m f bound ((indices.drop 1).map PathIndex.of ++ below) base
      | some (.load ptr) => o.walk? m f bound below ptr
      | some (.alloca (.struct ty)) => some ⟨.inst f.id id, ty, below⟩
      | _ => none
    | .arg index => (o.formalPath? f index).map fun p => p.append below
    | .global id => ((m.global? id).bind fun g => g.ty.struct?).map fun ty => ⟨.global id, ty, below⟩
    | .function _ | .constInt _ | .constFloat _ | .undef => none

/-- The element that a pointer of a function points to. -/
def resolve? (o : Objects R) (m : Module R) (f : Function R) (pointer : Value R) :
    Option FieldPath :=
  o.walk? m f (f.insts.size + 2) [] pointer

/-- Forget the bindings of the formal parameters of a function. -/
def clearBindings (o : Objects R) (callee : Function R) : Objects R :=
  { o with bindings := o.bindings.filterKeys fun k => k.owner? ≠ some callee.id }

/-- Bind a formal parameter to the path of an actual one, if it points to a struct and the actual
one can be resolved. -/
def bindArgument (m : Module R) (caller callee : Function R) (o : Objects R) :
    Nat × Param R × Value R → Objects R
  | (n, param, actual) =>
    if param.ty.targetStruct?.isNone then o
    else
      match o.resolve? m caller actual with
      | some path => { o with bindings := o.bindings.insert (.arg callee.id (UInt32.ofNat n)) path }
      | none => o

/-- Bind the formal parameters of a callee to the actual ones, one after the other. -/
def bindArguments (o : Objects R) (m : Module R) (caller callee : Function R)
    (actuals : List (Value R)) : Objects R :=
  let params := (callee.params.toList.zip actuals).zipIdx.map fun ((p, a), n) => (n, p, a)
  params.foldl (bindArgument m caller callee) o

/-- Take over the tree of the object that a pointer argument points into. -/
def takeBackArgument (other : Objects R) (m : Module R) (caller : Function R) (o : Objects R)
    (pointer : Value R) : Objects R :=
  if (m.typeOf? caller pointer).any Ty.isPointer then
    match o.resolve? m caller pointer with
    | none => o
    | some path =>
      match other.trees.get? path.root with
      | some tree => { o with trees := o.trees.insert path.root tree }
      | none => o
  else o

/-- Take over the trees of the objects that the arguments of a call point into. -/
def takeBack (o other : Objects R) (m : Module R) (caller : Function R)
    (arguments : List (Value R)) : Objects R :=
  arguments.foldl (takeBackArgument other m caller) o

/-- Take over the trees of global variables. -/
def mergeGlobals (o other : Objects R) : Objects R :=
  { o with trees := o.trees.update (other.trees.filterKeys Key.isGlobal) }

/-- Forget the trees of objects that belong to a function. -/
def eraseLocals (o : Objects R) (f : Function R) : Objects R :=
  { o with trees := o.trees.filterKeys fun k => k.owner? ≠ some f.id }

variable [Number R]

/-- Set the estimate of the element that a pointer points to, and say whether there is one. -/
def setField (o : Objects R) (m : Module R) (f : Function R) (pointer : Value R) (e : Estimate R) :
    Bool × Objects R :=
  match o.resolve? m f pointer with
  | none => (false, o)
  | some path =>
    let tree := (o.trees.get? path.root).getD (Tree.new m path.ty)
    let (written, tree) := tree.set m path.indices e
    (written, { o with trees := o.trees.insert path.root tree })

/-- The estimate of the element that a pointer points to. -/
def getField? (o : Objects R) (m : Module R) (f : Function R) (pointer : Value R) :
    Option (Estimate R) := do
  let path ← o.resolve? m f pointer
  let tree ← o.trees.get? path.root
  tree.get? m path.indices

/-- Set up the tree of an annotated aggregate. -/
def seed (o : Objects R) (m : Module R) (root : Key) (ty : StructId)
    (infos : List (Option (ValueInfo R))) : Fresh (Objects R) := do
  let tree ← Tree.ofInfo m ty infos
  return { o with trees := o.trees.insert root tree }

/-- Set all known errors to zero. -/
def zeroed (o : Objects R) : Objects R := { o with trees := o.trees.map Tree.zeroed }

end Objects

end Roundoff
