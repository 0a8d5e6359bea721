/-
# Interval arithmetic

The bounds of a quantity without a format.  Sums, differences, products and quotients of bounds
contain the sums, differences, products and quotients of the bounded quantities.
-/
import Roundoff.Range

namespace Roundoff

/-- A lower and an upper bound. -/
structure Bounds (R : Type) where
  /-- The lower bound. -/
  lo : R
  /-- The upper bound. -/
  hi : R
deriving BEq, Repr

namespace Bounds

variable {R : Type} [Number R]

/-- The bounds given by two numbers in either order. -/
def of (a b : R) : Bounds R := ⟨Number.min a b, Number.max a b⟩

/-- The bounds of a single number. -/
def point (a : R) : Bounds R := ⟨a, a⟩

/-- The bounds that a range gives. -/
def ofRange (r : Range R) : Bounds R := of r.lo r.hi

/-- Whether zero lies between the bounds. -/
def containsZero (x : Bounds R) : Bool := x.lo ≤ 0 && 0 ≤ x.hi

/-- The largest magnitude between the bounds. -/
def maxAbs (x : Bounds R) : R := Number.max (Number.abs x.lo) (Number.abs x.hi)

/-- The bounds of a sum. -/
def add (x y : Bounds R) : Bounds R := of (x.lo + y.lo) (x.hi + y.hi)

/-- The bounds of a difference. -/
def sub (x y : Bounds R) : Bounds R := of (x.lo - y.hi) (x.hi - y.lo)

/-- The bounds of a product: the extreme products of the ends.  Products that are undefined are
ignored, and nothing is known if all of them are. -/
def mul (x y : Bounds R) : Bounds R :=
  let a := x.lo * y.lo
  let b := x.lo * y.hi
  let c := x.hi * y.lo
  let d := x.hi * y.hi
  let lo := Number.min (Number.min (Number.min a b) c) d
  let hi := Number.max (Number.max (Number.max a b) c) d
  if Number.isNaN lo then ⟨Number.bottom, Number.top⟩ else of lo hi

/-- The bounds of a quotient, unless the divisor may be zero. -/
def div (x y : Bounds R) : Option (Bounds R) :=
  if y.containsZero then none else some (x.mul (of (1 / y.hi) (1 / y.lo)))

end Bounds

end Roundoff
