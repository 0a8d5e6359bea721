/-
# Arithmetic and conversions

With `E` the error of an operand and `A` the affine form that spans its range, the errors of results
are

* `x ± y`: `E₁ ± E₂`;
* `x · y`: `A₁·E₂ + A₂·E₁ + E₁·E₂`;
* `x / y`: the product of `x` and `1 / y`, where the error of `1 / y` is linearized, and one rounding
  error if the quotient is truncated;
* left shifts: `E₁`, and right shifts: `E₁` and one rounding error;
* conversions: `E₁`, and one rounding error where the conversion rounds.
-/
import Roundoff.Transfer.Operand

namespace Roundoff

variable {R : Type} [Number R]

/-- The error of a product. -/
def mulError (r₁ : Range R) (e₁ : Affine R) (r₂ : Range R) (e₂ : Affine R) :
    Fresh (Affine R) := do
  let a₁ ← r₁.toAffine
  let a₂ ← r₂.toAffine
  let left ← a₁.mul e₂
  let right ← a₂.mul e₁
  let both ← e₁.mul e₂
  return (left.add right).add both

/-- The error of a quotient that is not truncated; there is none if the divisor may be zero. -/
def divError (r₁ : Range R) (e₁ : Affine R) (r₂ : Range R) (e₂ : Affine R) :
    Attempt (Affine R) := do
  let some inverse := r₂.reciprocal | failure
  let inverseError ← OptionT.mk (Elementary.reciprocal.errorOf r₂ e₂)
  let a ← r₁.toAffine
  let aInverse ← inverse.toAffine
  let left ← a.mul inverseError
  let right ← aInverse.mul e₁
  let both ← e₁.mul inverseError
  return (left.add right).add both

/-- Add a rounding error to an error. -/
def addRounding (e : Affine R) (rounding : R) : Fresh (Affine R) := do
  return e.add (← Affine.withError 0 rounding)

/-- The format in which the first operand is read if it is an integer constant: that of the result,
but a constant dividend has twice as many fractional bits. -/
def BinaryOp.firstFormat (op : BinaryOp) (lhs : Value R) (result : Option Format) :
    Option Format :=
  match op, lhs, result with
  | .sdiv, .constInt _, some f | .udiv, .constInt _, some f =>
    some (f.withFracBits (f.fracBits * 2))
  | _, _, _ => result

namespace Body

/-- The error of the result of a binary operation, where `result` is the range recorded for it. -/
def binaryError (b : Body R) (s : Store R) (op : BinaryOp) (lhs rhs : Value R)
    (result : Option (Range R)) : Attempt (Affine R) := do
  let format := result.map Range.format
  let x ← b.operand s lhs (op.firstFormat lhs format)
  let second := b.operand s rhs format
  match op with
  | .add | .fadd =>
    let y ← second
    return x.error.add y.error
  | .sub | .fsub =>
    let y ← second
    return x.error.sub y.error
  | .mul | .fmul =>
    let y ← second
    mulError x.range x.error y.range y.error
  | .fdiv =>
    let y ← second
    divError x.range x.error y.range y.error
  | .sdiv | .udiv =>
    let y ← second
    let error ← divError x.range x.error y.range y.error
    addRounding error (result.getD x.range).roundingError
  | .shl => return x.error
  | .lshr | .ashr =>
    let some range := result | failure
    addRounding x.error range.roundingError
  | .srem | .urem | .frem | .and | .or | .xor => failure

/-- The rule for binary operations. -/
def binary (b : Body R) (a : Activation R) (i : Instruction R) (op : BinaryOp)
    (lhs rhs : Value R) : Attempt (Activation R) := do
  let error ← b.binaryError a.store op lhs rhs (b.resultRange? a.store i)
  return b.write a i error

/-- The rule for conversions: a result without a range of its own takes over that of the operand. -/
def cast (b : Body R) (a : Activation R) (i : Instruction R) (op : CastOp) (v : Value R) :
    Attempt (Activation R) := do
  let result := b.resultRange? a.store i
  let x ← b.operand a.store v ((result.map Range.format).or (b.formatOf? a.store v))
  let error ←
    if op.isRounding then addRounding x.error (result.elim 0 Range.roundingError)
    else pure x.error
  match result with
  | some _ => return b.write a i error
  | none => return b.writeEstimate a i ⟨x.range, some error⟩

end Body

end Roundoff
