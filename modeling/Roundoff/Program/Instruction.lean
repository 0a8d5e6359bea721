/-
# Instructions

An instruction performs an operation on operands, belongs to a block, and may be annotated with
what is known of its result and with a label under which its worst error is reported.
-/
import Roundoff.Program.Type
import Roundoff.Program.Annotation
import Roundoff.Program.Value

namespace Roundoff

/-- Arithmetic and bitwise operations on two operands. -/
inductive BinaryOp where
  | add | sub | mul | sdiv | udiv | srem | urem | shl | lshr | ashr | and | or | xor
  | fadd | fsub | fmul | fdiv | frem
deriving DecidableEq, Repr

/-- Conversions of an operand to another type. -/
inductive CastOp where
  | trunc | zext | sext | fpToUi | fpToSi | uiToFp | siToFp | fpTrunc | fpExt | bitCast
deriving DecidableEq, Repr

/-- The relation that a comparison tests. -/
inductive Predicate where
  | eq | ne | lt | le | gt | ge
deriving DecidableEq, Repr

/-- The target of a call. -/
inductive Callee (R : Type) where
  /-- A function of the module. -/
  | direct (id : FunctionId)
  /-- A library routine that is known by its name only. -/
  | external (name : String)
  /-- The function that an operand points to. -/
  | indirect (target : Value R)
deriving BEq, Repr

/-- What an instruction does. -/
inductive Operation (R : Type) where
  | binary (op : BinaryOp) (lhs rhs : Value R)
  | cast (op : CastOp) (operand : Value R)
  | icmp (predicate : Predicate) (lhs rhs : Value R)
  | fcmp (predicate : Predicate) (lhs rhs : Value R)
  | select (cond ifTrue ifFalse : Value R)
  /-- The value that belongs to the block from which control arrives. -/
  | phi (incoming : List (Value R × BlockId))
  | alloca (allocated : Ty)
  | load (ptr : Value R)
  | store (value ptr : Value R)
  /-- The address of an element of the object at `base`. -/
  | element (base : Value R) (indices : List (Value R))
  | call (callee : Callee R) (args : List (Value R))
  /-- A call that continues in `normal`, or in `unwind` if it fails. -/
  | invoke (callee : Callee R) (args : List (Value R)) (normal unwind : BlockId)
  | ret (value : Option (Value R))
  | br (target : BlockId)
  | condBr (cond : Value R) (ifTrue ifFalse : BlockId)
  | unreachable
deriving BEq, Repr

namespace BinaryOp

/-- The name of the operation in program text and messages. -/
def name : BinaryOp → String
  | add => "Add" | sub => "Sub" | mul => "Mul" | sdiv => "SDiv" | udiv => "UDiv"
  | srem => "SRem" | urem => "URem" | shl => "Shl" | lshr => "LShr" | ashr => "AShr"
  | and => "And" | or => "Or" | xor => "Xor" | fadd => "FAdd" | fsub => "FSub"
  | fmul => "FMul" | fdiv => "FDiv" | frem => "FRem"

/-- All operations. -/
def all : List BinaryOp :=
  [add, sub, mul, sdiv, udiv, srem, urem, shl, lshr, ashr, and, or, xor, fadd, fsub, fmul, fdiv,
    frem]

end BinaryOp

namespace CastOp

/-- The name of the conversion in program text and messages. -/
def name : CastOp → String
  | trunc => "Trunc" | zext => "ZExt" | sext => "SExt" | fpToUi => "FpToUi"
  | fpToSi => "FpToSi" | uiToFp => "UiToFp" | siToFp => "SiToFp" | fpTrunc => "FpTrunc"
  | fpExt => "FpExt" | bitCast => "BitCast"

/-- All conversions. -/
def all : List CastOp :=
  [trunc, zext, sext, fpToUi, fpToSi, uiToFp, siToFp, fpTrunc, fpExt, bitCast]

/-- Whether the conversion rounds to the format of its result. -/
def isRounding : CastOp → Bool
  | fpToUi | fpToSi | fpTrunc => true
  | _ => false

end CastOp

namespace Predicate

/-- The name of the relation in program text. -/
def name : Predicate → String
  | eq => "Eq" | ne => "Ne" | lt => "Lt" | le => "Le" | gt => "Gt" | ge => "Ge"

/-- All relations. -/
def all : List Predicate := [eq, ne, lt, le, gt, ge]

end Predicate

namespace Operation

variable {R : Type}

/-- The name of the operation in messages. -/
def name : Operation R → String
  | binary op _ _ => op.name
  | cast op _ => op.name
  | icmp .. => "ICmp"
  | fcmp .. => "FCmp"
  | select .. => "Select"
  | phi _ => "Phi"
  | alloca _ => "Alloca"
  | load _ => "Load"
  | store .. => "Store"
  | element .. => "GetElementPtr"
  | call .. => "Call"
  | invoke .. => "Invoke"
  | ret _ => "Ret"
  | br _ => "Br"
  | condBr .. => "CondBr"
  | unreachable => "Unreachable"

/-- Whether the operation ends a block. -/
def isTerminator : Operation R → Bool
  | br _ | condBr .. | ret _ | invoke .. | unreachable => true
  | _ => false

/-- The blocks that may follow, in operand order; equal targets of a branch count once. -/
def successors : Operation R → List BlockId
  | br target => [target]
  | condBr _ t f => if t = f then [t] else [t, f]
  | invoke _ _ normal unwind => [normal, unwind]
  | _ => []

/-- Target and arguments of a call. -/
def callSite? : Operation R → Option (Callee R × List (Value R))
  | call callee args | invoke callee args _ _ => some (callee, args)
  | _ => none

/-- The incoming values of a phi. -/
def incoming? : Operation R → Option (List (Value R × BlockId))
  | phi incoming => some incoming
  | _ => none

end Operation

/-- An instruction of a function. -/
structure Instruction (R : Type) where
  /-- The position of the instruction in its function. -/
  id : InstId
  /-- The block that the instruction belongs to. -/
  block : BlockId
  /-- The name of the result. -/
  name : String
  /-- The type of the result. -/
  ty : Ty
  /-- What the instruction does. -/
  op : Operation R
  /-- What is known of the result. -/
  info : Option (ValueInfo R)
  /-- The label under which the worst error of the result is reported. -/
  target : Option String
deriving BEq, Repr

namespace Instruction

variable {R : Type}

/-- What is known of a scalar result. -/
def scalarInfo? (i : Instruction R) : Option (ScalarInfo R) := i.info.bind ValueInfo.scalar?

/-- Whether the instruction is a phi. -/
def isPhi (i : Instruction R) : Bool := i.op.incoming?.isSome

/-- Whether the instruction is a call. -/
def isCall (i : Instruction R) : Bool := i.op.callSite?.isSome

end Instruction

end Roundoff
