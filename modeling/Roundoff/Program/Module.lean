/-
# Modules

A module consists of functions, global variables and struct types, which refer to each other by
position.
-/
import Roundoff.Program.Function

namespace Roundoff

/-- A global variable. -/
structure Global (R : Type) where
  /-- The position of the variable in its module. -/
  id : GlobalId
  /-- The name of the variable. -/
  name : String
  /-- The type of the stored value. -/
  ty : Ty
  /-- What is known of the stored value. -/
  info : Option (ValueInfo R)
  /-- The label under which the worst error of the stored value is reported. -/
  target : Option String
deriving BEq, Repr

/-- A program module. -/
structure Module (R : Type) where
  /-- The name of the module. -/
  name : String
  /-- The functions by position. -/
  functions : Array (Function R)
  /-- The global variables by position. -/
  globals : Array (Global R)
  /-- The struct types by position. -/
  structs : Array StructType
deriving BEq, Repr, Inhabited

namespace Module

variable {R : Type}

/-- The module of the given name without contents. -/
def empty (name : String) : Module R := ⟨name, #[], #[], #[]⟩

/-- The function at a position. -/
def function? (m : Module R) (id : FunctionId) : Option (Function R) := m.functions[id.val.toNat]?

/-- The first function of the given name. -/
def functionNamed? (m : Module R) (name : String) : Option (Function R) :=
  m.functions.find? fun f => f.name == name

/-- The global variable at a position. -/
def global? (m : Module R) (id : GlobalId) : Option (Global R) := m.globals[id.val.toNat]?

/-- Whether the key names an instruction, a parameter or a global variable of the module. -/
def hasValue (m : Module R) : Key → Bool
  | .inst f i => (m.function? f).any fun f => (f.inst? i).isSome
  | .arg f n => (m.function? f).any fun f => (f.param? n).isSome
  | .global g => (m.global? g).isSome
  | .function _ => false

/-- The struct type at a position. -/
def struct? (m : Module R) (id : StructId) : Option StructType := m.structs[id.val.toNat]?

/-- The number of fields of a struct type, none if there is no such type. -/
def structWidth (m : Module R) (id : StructId) : Nat :=
  match m.struct? id with
  | some s => s.fields.length
  | none => 0

/-- The type of an operand of a function. -/
def typeOf? (m : Module R) (f : Function R) : Value R → Option Ty
  | .inst id => (f.inst? id).map Instruction.ty
  | .arg index => (f.param? index).map Param.ty
  | .global id => (m.global? id).map fun g => .pointer g.ty
  | .function _ => some (.pointer .void)
  | .constInt _ => some (.int 64)
  | .constFloat _ => some (.float 64)
  | .undef => none

/-- The function of the module that a call targets, whether by name or by its address. -/
def calleeId? : Callee R → Option FunctionId
  | .direct id | .indirect (.function id) => some id
  | .external _ | .indirect _ => none

/-- The name of the called function, where it is known. -/
def calleeName? (m : Module R) : Callee R → Option String
  | .external name => some name
  | callee => (calleeId? callee).bind fun id => (m.function? id).map Function.name

/-- The called function, if it has a body in the module. -/
def calleeBody? (m : Module R) (callee : Callee R) : Option (Function R) :=
  ((calleeId? callee).bind m.function?).filter fun f => !f.isDeclaration

end Module

end Roundoff
