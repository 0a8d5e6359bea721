/-
# Number systems for error analysis

All rules of the analysis are stated over a type `R` of numbers with the operations collected in
the class `Number`.  Running programs use the IEEE doubles (`Float`); statements about the rules
read the same definitions over the exact reals.  The class asks for no law: what a rule needs of
its numbers is a matter of the statement about it.

Maximum and minimum ignore an operand that is not a number, so that one undefined quantity does
not hide the others.  Of two equal operands they take the second one, which matters where a number
is divided by one of the two zeros.
-/
namespace Roundoff

/-- The operations that the error analysis performs on numbers. -/
class Number (R : Type) extends
    Zero R, One R, Add R, Sub R, Mul R, Div R, Neg R, LE R, LT R, BEq R where
  /-- The number nearest to an integer. -/
  ofInt : Int → R
  /-- The number nearest to `m · 10 ^ e`. -/
  ofDecimal : (m : Nat) → (e : Int) → R
  /-- Two to an integer power. -/
  twoPow : Int → R
  /-- The magnitude of a number. -/
  abs : R → R
  /-- Whether a number is neither infinite nor undefined. -/
  isFinite : R → Bool
  /-- An upper bound of all numbers, where there is one. -/
  top : R
  /-- A lower bound of all numbers, where there is one. -/
  bottom : R
  /-- The square root. -/
  sqrt : R → R
  /-- The exponential function. -/
  exp : R → R
  /-- The natural logarithm. -/
  log : R → R
  /-- The inverse sine. -/
  asin : R → R
  /-- The inverse cosine. -/
  acos : R → R
  /-- Whether one number is at most another. -/
  [decLE : DecidableLE R]
  /-- Whether one number is less than another. -/
  [decLT : DecidableLT R]

attribute [reducible, instance (50)] Number.decLE Number.decLT

-- The operations that a number type has on its own are found before those it has as a `Number`.
attribute [instance (50)] Number.toZero Number.toOne Number.toAdd Number.toSub Number.toMul
  Number.toDiv Number.toNeg Number.toLE Number.toLT Number.toBEq

namespace Number

variable {R : Type} [Number R]

/-- A number that differs from itself stands for an undefined result. -/
def isNaN (a : R) : Bool := a != a

/-- The larger of two numbers, the second one if they are equal; an undefined one is ignored. -/
def max (a b : R) : R := if b < a ∨ isNaN b then a else b

/-- The smaller of two numbers, the second one if they are equal; an undefined one is ignored. -/
def min (a b : R) : R := if a < b ∨ isNaN b then a else b

/-- The sum of a list, added from left to right. -/
def sum (xs : List R) : R := xs.foldl (· + ·) 0

end Number

end Roundoff
