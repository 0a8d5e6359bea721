/-
# Update expressions

The new value of a variable that a loop carries, as an expression over the values that the loop
carries into an iteration.  Expressions are simplified by folding constants and dropping neutral and
absorbing operands, and differentiated symbolically.
-/
import Roundoff.Number
import Roundoff.Decimal.Text

namespace Roundoff

/-- The arithmetic operations of update expressions. -/
inductive Arith where
  | add
  | sub
  | mul
  | div
deriving DecidableEq, Repr

/-- The sign of an operation in texts. -/
def Arith.sign : Arith → String
  | add => "+"
  | sub => "-"
  | mul => "*"
  | div => "/"

/-- All operations. -/
def Arith.all : List Arith := [add, sub, mul, div]

/-- An expression over numbered symbols. -/
inductive Expr (R : Type) where
  | const (c : R)
  | symbol (s : Nat)
  | op (o : Arith) (a b : Expr R)
deriving BEq, Repr

namespace Expr

variable {R : Type}

/-- The value of a constant expression. -/
def const? : Expr R → Option R
  | const c => some c
  | _ => none

/-- The symbols of an expression, with all their occurrences, from left to right. -/
def occurrences : Expr R → List Nat
  | const _ => []
  | symbol s => [s]
  | op _ a b => a.occurrences ++ b.occurrences

/-- The symbols of an expression in the order of their first occurrence. -/
def symbols (e : Expr R) : List Nat := e.occurrences.eraseDups

variable [Number R]

/-- Whether an expression is the constant zero. -/
def isZero : Expr R → Bool
  | const c => c == 0
  | _ => false

/-- Whether an expression is the constant one. -/
def isOne : Expr R → Bool
  | const c => c == 1
  | _ => false

/-! ## Simplification -/

/-- The simplified sum of simplified expressions. -/
def addSimplified (a b : Expr R) : Expr R :=
  match a, b with
  | const x, const y => const (x + y)
  | a, b => if a.isZero then b else if b.isZero then a else op .add a b

/-- The simplified difference of simplified expressions. -/
def subSimplified (a b : Expr R) : Expr R :=
  match a, b with
  | const x, const y => const (x - y)
  | a, b => if b.isZero then a else if a == b then const 0 else op .sub a b

/-- The simplified product of simplified expressions. -/
def mulSimplified (a b : Expr R) : Expr R :=
  match a, b with
  | const x, const y => const (x * y)
  | a, b =>
    if a.isZero || b.isZero then const 0
    else if a.isOne then b
    else if b.isOne then a
    else op .mul a b

/-- The simplified quotient of simplified expressions. -/
def divSimplified (a b : Expr R) : Expr R :=
  if a.isZero then const 0
  else
    match a, b with
    | const x, const y => if y == 0 then op .div (const x) (const y) else const (x / y)
    | a, b => if b.isOne then a else op .div a b

/-- Combine simplified expressions by an operation. -/
def combine (o : Arith) (a b : Expr R) : Expr R :=
  match o with
  | .add => addSimplified a b
  | .sub => subSimplified a b
  | .mul => mulSimplified a b
  | .div => divSimplified a b

/-- Fold constants and drop neutral and absorbing operands. -/
def simplify : Expr R → Expr R
  | const c => const c
  | symbol s => symbol s
  | op o a b => combine o a.simplify b.simplify

/-! ## Derivatives -/

/-- The partial derivative by a symbol, simplified. -/
def diff (s : Nat) : Expr R → Expr R
  | const _ => const 0
  | symbol t => const (if t = s then 1 else 0)
  | op .add a b => (op .add (a.diff s) (b.diff s)).simplify
  | op .sub a b => (op .sub (a.diff s) (b.diff s)).simplify
  | op .mul a b => (op .add (op .mul (a.diff s) b) (op .mul a (b.diff s))).simplify
  | op .div a b =>
    (op .div (op .sub (op .mul (a.diff s) b) (op .mul a (b.diff s))) (op .mul b b)).simplify

/-! ## Text -/

/-- The text of an expression over doubles. -/
def text : Expr Float → String
  | const c => Decimal.plain c
  | symbol s => "s" ++ toString s
  | op o a b => "(" ++ a.text ++ " " ++ o.sign ++ " " ++ b.text ++ ")"

end Expr

end Roundoff
