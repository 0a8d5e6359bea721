/-
# Obstacles to a closed form

A loop for which a closed form fails is analysed by visiting its blocks again and again instead.
-/
import Roundoff.ClosedForm.Shape
import Roundoff.ClosedForm.Expr
import Roundoff.Transfer.Fault

namespace Roundoff

/-- How a value is named in messages. -/
inductive ValueName (R : Type) where
  /-- A value with a name. -/
  | named (name : String)
  /-- An operand that is written out. -/
  | operand (v : Value R)
  /-- An expression. -/
  | expression (e : Expr R)
deriving BEq, Repr

namespace ValueName

/-- The name of a value in messages. -/
def text : ValueName Float → String
  | named name => name
  | expression e => e.text
  | operand v =>
    match v with
    | .inst id => s!"Inst(InstId({id.val}))"
    | .arg index => s!"Arg({index})"
    | .global id => s!"Global(GlobalId({id.val}))"
    | .function id => s!"Function(FunctionId({id.val}))"
    | .constInt raw => s!"ConstInt({raw})"
    | .constFloat x => "ConstFloat(" ++ Decimal.tagged x ++ ")"
    | .undef => "Undef"

end ValueName

/-- Why the closed form of a loop fails. -/
inductive Obstacle (R : Type) where
  /-- The loop does not have the shape that a closed form needs. -/
  | shape (o : ShapeObstacle)
  /-- A phi has no value for the preheader or the latch. -/
  | missingIncoming (phi : String)
  /-- An operation has no counterpart in update expressions. -/
  | unsupportedOperation (name operation : String)
  /-- A value has no counterpart in update expressions. -/
  | unsupportedValue (value : ValueName R)
  /-- The loop carries no values. -/
  | noValues (header : BlockId)
  /-- The definition of a value leads back to itself. -/
  | circular (value : ValueName R)
  /-- There is no range for a symbol. -/
  | missingRange (symbol : ValueName R)
  /-- A derivative has no bounds. -/
  | unboundedDerivative
  /-- The rounding errors of an iteration cannot be found. -/
  | roundoff (fault : Fault)
deriving BEq, Repr

/-- The text of an obstacle. -/
def Obstacle.message : Obstacle Float → String
  | shape o => o.message
  | missingIncoming phi => s!"phi '{phi}' lacks a preheader or latch incoming value"
  | unsupportedOperation name operation =>
    s!"'{name}' ({operation}) is outside the loop expression grammar"
  | unsupportedValue value => "value outside the loop expression grammar: " ++ value.text
  | noValues header =>
    s!"value outside the loop expression grammar: loop at block {header.val} carries no values"
  | circular value => "value defined by itself: " ++ value.text
  | missingRange symbol => "no range recorded for symbol '" ++ symbol.text ++ "'"
  | unboundedDerivative => "derivative unbounded over the symbol ranges"
  | roundoff fault => "roundoff pass failed: " ++ fault.message

end Roundoff
