/-
# The system of a loop

The values that a loop carries are described by a system of updates.  For each phi of the condition
block the value that it receives from the body becomes a symbol, and the update expression of the
symbol says how the loop computes the value from what it carries.  A phi inside an expression stands
for the symbol of the value that it receives from the body.  A value from outside the loop is a
symbol that does not change.  Shifts and conversions stand for their operand.
-/
import Roundoff.ClosedForm.Evaluation
import Roundoff.Transfer.Operand

namespace Roundoff

variable {R : Type} [Number R]

/-- A symbol whose update may not be known yet. -/
structure PendingSymbol (R : Type) where
  /-- The key of the value. -/
  key : Key
  /-- The value. -/
  value : Value R
  /-- The update of the symbol. -/
  expr : Option (Expr R) := none
  /-- The operand with which the symbol enters the loop. -/
  initial : Option (Value R) := none
deriving Repr

/-- A symbol of the system of a loop. -/
structure LoopSymbol (R : Type) where
  /-- The key of the value. -/
  key : Key
  /-- The value. -/
  value : Value R
  /-- The name of the value in messages. -/
  name : ValueName R
  /-- The value after an iteration. -/
  expr : Expr R
  /-- The operand with which the symbol enters the loop. -/
  initial : Option (Value R)
  /-- Whether the symbol does not change. -/
  external : Bool
deriving BEq, Repr

/-- The system of a loop: symbol number `i` of its expressions is its item `i`. -/
abbrev LoopSystem (R : Type) := List (LoopSymbol R)

/-- The name of an operand in messages. -/
def Body.nameOf (b : Body R) : Value R → ValueName R
  | .inst id =>
    .named (match b.function.inst? id with
      | some i => i.name
      | none => s!"%{id.val}")
  | .arg index =>
    .named (match b.function.param? index with
      | some p => p.name
      | none => s!"arg{index}")
  | .global id =>
    .named (match b.module.global? id with
      | some g => g.name
      | none => s!"@{id.val}")
  | v => .operand v

/-- The symbols found so far, and the obstacle at which the search stops. -/
abbrev Collect (R : Type) := StateT (List (PendingSymbol R)) (Except (Obstacle R))

namespace Collect

/-- The number of the symbol of a value; a new symbol gets the next number. -/
def symbol (key : Key) (value : Value R) : Collect R Nat := do
  let symbols ← get
  match symbols.findIdx? fun s => s.key == key with
  | some n => return n
  | none =>
    set (symbols ++ [{ key := key, value := value }])
    return symbols.length

/-- Change the symbol of a number. -/
def change (n : Nat) (f : PendingSymbol R → PendingSymbol R) : Collect R Unit :=
  modify fun symbols => symbols.modify n f

end Collect

/-- The operations whose result is read as an expression, and the operands that count. -/
inductive Reading (R : Type) where
  /-- An arithmetic operation on two operands. -/
  | arith (o : Arith) (a b : Value R)
  /-- An operation that stands for its operand. -/
  | operand (v : Value R)
  /-- A phi. -/
  | phi (incoming : List (Value R × BlockId))
  /-- An operation without counterpart. -/
  | unsupported

/-- How an operation is read as an expression. -/
def Operation.reading : Operation R → Reading R
  | .binary op a b =>
    match op with
    | .add | .fadd => .arith .add a b
    | .sub | .fsub => .arith .sub a b
    | .mul | .fmul => .arith .mul a b
    | .sdiv | .udiv | .fdiv => .arith .div a b
    | .shl | .lshr | .ashr => .operand a
    | .srem | .urem | .frem | .and | .or | .xor => .unsupported
  | .cast op v =>
    match op with
    | .trunc | .zext | .sext | .fpTrunc | .fpExt => .operand v
    | .fpToUi | .fpToSi | .uiToFp | .siToFp | .bitCast => .unsupported
  | .phi incoming => .phi incoming
  | _ => .unsupported

/-- The value of a phi for a block. -/
def incomingFrom? (incoming : List (Value R × BlockId)) (block : BlockId) : Option (Value R) :=
  (incoming.find? fun (_, b) => b == block).map Prod.fst

namespace Body

/-- The key of an operand that becomes a symbol. -/
def symbolKey (b : Body R) (v : Value R) : Except (Obstacle R) Key :=
  match b.keyOf? v with
  | some k => .ok k
  | none => .error (.unsupportedValue (b.nameOf v))

/-- What a phi of the condition block receives from the preheader, if anything, and from the
body. -/
def carried (shape : LoopShape) (i : Instruction R) (incoming : List (Value R × BlockId)) :
    Except (Obstacle R) (Option (Value R) × Value R) :=
  match incomingFrom? incoming shape.body with
  | some body => .ok (incomingFrom? incoming shape.preheader, body)
  | none => .error (.missingIncoming i.name)

/-- The symbol of a value from outside the loop. -/
def externalSymbol (b : Body R) (v : Value R) : Collect R (Expr R) := do
  let n ← Collect.symbol (← b.symbolKey v) v
  Collect.change n fun s =>
    if s.expr.isNone then { s with expr := some (.symbol n), initial := some v } else s
  return .symbol n

/-- The symbol of a phi of the condition block. -/
def phiSymbol (b : Body R) (shape : LoopShape) (i : Instruction R)
    (incoming : List (Value R × BlockId)) : Collect R (Expr R) := do
  if i.block ≠ shape.cond then throw (.unsupportedOperation i.name i.op.name)
  let (entry, body) ← carried shape i incoming
  let n ← Collect.symbol (← b.symbolKey body) body
  Collect.change n fun s => if s.initial.isNone then { s with initial := entry } else s
  return .symbol n

/-- The format in which the integer constants among the operands of an instruction are read. -/
def constantFormat? (b : Body R) (s : Store R) (i : Instruction R) : Option Format :=
  ((b.resultRange? s i).map Range.format).filter fun f => !f.isNone

/-- The expression of an operand, followed back over at most the given number of instructions.
Integer constants are read in the given format. -/
def exprOf (b : Body R) (s : Store R) (shape : LoopShape) :
    (steps : Nat) → Option Format → Value R → Collect R (Expr R)
  | 0, _, v => throw (.circular (b.nameOf v))
  | steps + 1, format, v =>
    match v with
    | .constInt raw =>
      return .const (match format with
        | some f => f.interpret raw
        | none => Number.ofInt raw.toInt)
    | .constFloat x => return .const x
    | .arg _ | .global _ => b.externalSymbol v
    | .function _ | .undef => throw (.unsupportedValue (b.nameOf v))
    | .inst id =>
      match b.function.inst? id with
      | none => throw (.unsupportedValue (b.nameOf v))
      | some i =>
        if shape.contains i.block then
          let format := b.constantFormat? s i
          match i.op.reading with
          | .arith o x y => do
            let left ← b.exprOf s shape steps format x
            let right ← b.exprOf s shape steps format y
            return .op o left right
          | .operand x => b.exprOf s shape steps format x
          | .phi incoming => b.phiSymbol shape i incoming
          | .unsupported => throw (.unsupportedOperation i.name i.op.name)
        else b.externalSymbol v

/-- Make the symbol of a phi of the condition block, with its update, unless another phi that
receives the same value has done so. -/
def collectPhi (b : Body R) (s : Store R) (shape : LoopShape) (i : Instruction R) :
    Collect R Unit := do
  let some incoming := i.op.incoming? | throw (.unsupportedValue (.named i.name))
  let (entry, body) ← carried shape i incoming
  let key ← b.symbolKey body
  let known := (← get).any fun s => s.key == key && s.expr.isSome
  if known then return
  let expr ← b.exprOf s shape (b.function.insts.size + 1) none body
  let n ← Collect.symbol key body
  Collect.change n fun s => { s with expr := some expr.simplify, initial := entry }

/-- Finish the symbol of a number. -/
def finishSymbol (b : Body R) (n : Nat) (s : PendingSymbol R) :
    Except (Obstacle R) (LoopSymbol R) :=
  match s.expr with
  | some e => .ok ⟨s.key, s.value, b.nameOf s.value, e, s.initial, e == .symbol n⟩
  | none => .error (.unsupportedValue (b.nameOf s.value))

/-- The system of a loop. -/
def loopSystem (b : Body R) (s : Store R) (shape : LoopShape) :
    Except (Obstacle R) (LoopSystem R) := do
  let (_, symbols) ← ((b.function.phis shape.cond).forM (b.collectPhi s shape)).run []
  symbols.zipIdx.mapM fun (symbol, n) => b.finishSymbol n symbol

end Body

end Roundoff
