/-
# Origins of pointers

A pointer is traced back through address computations and casts to the object that it points into.
Two pointers are kept apart only if they provably lead to different objects, where stack slots and
globals count as objects, or if they lead to one object by constant paths that part ways.  Formal
parameters and pointers of unknown origin may point anywhere.
-/
import Roundoff.Program.Module
import Roundoff.Elementary

namespace Roundoff

/-- The object that a pointer points into. -/
inductive MemoryRoot where
  /-- The stack slot made by an instruction. -/
  | alloca (inst : InstId)
  /-- A global variable. -/
  | global (id : GlobalId)
  /-- Whatever a formal parameter points to. -/
  | arg (index : UInt32)
  /-- An unknown object. -/
  | unknown
deriving DecidableEq, Repr

/-- The kind of a root, and its number where it has one. -/
def MemoryRoot.text : MemoryRoot → String
  | alloca inst => s!"alloca {inst.val}"
  | global id => s!"global {id.val}"
  | arg index => s!"arg {index}"
  | unknown => "unknown"

/-- Whether the root is an object of its own. -/
def MemoryRoot.isObject : MemoryRoot → Bool
  | alloca _ | global _ => true
  | arg _ | unknown => false

/-- The object that a pointer points into, and the path to the element in it. -/
structure Origin where
  /-- The object. -/
  root : MemoryRoot
  /-- The indices on the path, where `none` stands for an unknown index. -/
  path : List (Option Int64)
deriving DecidableEq, Repr

namespace Origin

/-- The origin of a pointer that cannot be traced. -/
def unknown : Origin := ⟨.unknown, []⟩

/-- The index that an operand gives, if it is a constant. -/
def index {R : Type} : Value R → Option Int64
  | .constInt c => some c
  | _ => none

/-- Join the indices of an address computation to those of the computations it rests on.  Its first
index moves the pointer it starts from: unless that index is zero, nothing is known of the path from
there on. -/
def joinGroups (first : Bool) : List (List (Option Int64)) → List (Option Int64)
  | [] => []
  | group :: groups =>
    if first then group ++ joinGroups false groups
    else
      match group with
      | [] => joinGroups false groups
      | some 0 :: steps => steps ++ joinGroups false groups
      | _ => [none]

/-- Trace a pointer, given the indices of the address computations passed so far, those nearest to
the object first.  Pointers that are computed in a circle are given up after as many steps as there
are instructions. -/
def trace {R : Type} (f : Function R) :
    (steps : Nat) → (groups : List (List (Option Int64))) → Value R → Origin
  | 0, _, _ => unknown
  | steps + 1, groups, pointer =>
    let found (root : MemoryRoot) : Origin := ⟨root, joinGroups true groups⟩
    match pointer with
    | .global g => found (.global g)
    | .arg n => found (.arg n)
    | .inst id =>
      match (f.inst? id).map Instruction.op with
      | some (.alloca _) => found (.alloca id)
      | some (.element base indices) => trace f steps (indices.map index :: groups) base
      | some (.cast _ operand) => trace f steps groups operand
      | _ => found .unknown
    | _ => found .unknown

/-- The origin of a pointer of a function. -/
def of {R : Type} (f : Function R) (pointer : Value R) : Origin :=
  trace f (f.insts.size + 1) [] pointer

/-- Whether two paths below one object may lead to the same place: they do not if they part ways at
a step where both are constant. -/
def pathsMayMeet : List (Option Int64) → List (Option Int64) → Bool
  | some a :: p, some b :: q => a == b && pathsMayMeet p q
  | _, _ => true

/-- Whether two pointers may point to the same place. -/
def mayAlias (a b : Origin) : Bool :=
  if a.root.isObject && b.root.isObject then a.root == b.root && pathsMayMeet a.path b.path
  else true

end Origin

/-- Library routines that neither read nor write the memory of their caller. -/
def pureRoutines : List String :=
  ["sin", "cos", "tan", "atan", "atan2", "sinh", "cosh", "tanh", "fabs", "abs", "pow", "floor",
    "ceil", "round", "trunc", "fmin", "fmax", "log2", "log10", "exp2"]

/-- Whether a call leaves memory as it is, which only the name of the callee can tell. -/
def Module.isPureCall {R : Type} (m : Module R) (callee : Callee R) : Bool :=
  match m.calleeName? callee with
  | some name => (Elementary.ofLibraryName? name).isSome || pureRoutines.contains name
  | none => false

end Roundoff
