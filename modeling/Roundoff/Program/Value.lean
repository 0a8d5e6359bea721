/-
# Operands and the values they name

Instructions read operands: results of instructions, formal parameters, addresses of globals and
functions, and constants.  The analysis keeps its data per *key*.  A key names a value of the whole
program, so that the results of two functions never collide.
-/
import Roundoff.Number

namespace Roundoff

/-- The position of a function in its module. -/
structure FunctionId where
  /-- The position. -/
  val : UInt32
deriving DecidableEq, Ord, Repr, Inhabited

/-- The position of a block in its function. -/
structure BlockId where
  /-- The position. -/
  val : UInt32
deriving DecidableEq, Ord, Repr, Inhabited

/-- The position of an instruction in its function. -/
structure InstId where
  /-- The position. -/
  val : UInt32
deriving DecidableEq, Ord, Repr, Inhabited

/-- The position of a global variable in its module. -/
structure GlobalId where
  /-- The position. -/
  val : UInt32
deriving DecidableEq, Ord, Repr, Inhabited

/-- An operand of an instruction. -/
inductive Value (R : Type) where
  /-- The result of an instruction of the same function. -/
  | inst (id : InstId)
  /-- A formal parameter of the enclosing function. -/
  | arg (index : UInt32)
  /-- The address of a global variable. -/
  | global (id : GlobalId)
  /-- The address of a function. -/
  | function (id : FunctionId)
  /-- A raw integer constant. -/
  | constInt (raw : Int64)
  /-- A real constant. -/
  | constFloat (x : R)
  /-- A value that is not defined. -/
  | undef
deriving BEq, Repr, Inhabited

namespace Value

variable {R : Type}

/-- The instruction whose result the operand is. -/
def inst? : Value R → Option InstId
  | inst id => some id
  | _ => none

end Value

/-- The name of a value in the data of the analysis.  Keys are ordered as listed here, and by
position among their kind. -/
inductive Key where
  /-- The result of an instruction of a function. -/
  | inst (function : FunctionId) (id : InstId)
  /-- A formal parameter of a function. -/
  | arg (function : FunctionId) (index : UInt32)
  /-- A global variable. -/
  | global (id : GlobalId)
  /-- What a function returns. -/
  | function (id : FunctionId)
deriving DecidableEq, Ord, Repr, Inhabited

namespace Key

/-- The key of an operand of a function; constants have none. -/
def of? {R : Type} (f : FunctionId) : Value R → Option Key
  | .inst id => some (inst f id)
  | .arg index => some (arg f index)
  | .global id => some (global id)
  | .function id => some (function id)
  | .constInt _ | .constFloat _ | .undef => none

/-- The function in whose body the value is defined. -/
def owner? : Key → Option FunctionId
  | inst f _ | arg f _ => some f
  | global _ | function _ => none

/-- The key in short: a letter for its kind, and the positions. -/
def text : Key → String
  | inst f i => s!"i{f.val}:{i.val}"
  | arg f index => s!"a{f.val}:{index}"
  | global g => s!"g{g.val}"
  | function f => s!"f{f.val}"

/-- Whether the key names a global variable. -/
def isGlobal : Key → Bool
  | global _ => true
  | _ => false

end Key

end Roundoff
