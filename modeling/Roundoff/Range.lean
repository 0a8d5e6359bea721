/-
# Ranges and estimates

A range bounds a value and carries the format of the value.  An estimate is what is known of a
value: its range and, if there is one, an affine form for its error.  A missing error means that
nothing is known, which differs from the error zero.
-/
import Roundoff.Format
import Roundoff.Affine

namespace Roundoff

/-- The bounds of a value together with its format. -/
structure Range (R : Type) where
  /-- The lower bound. -/
  lo : R
  /-- The upper bound. -/
  hi : R
  /-- The format of the value. -/
  format : Format
deriving BEq, Repr

namespace Range

variable {R : Type} [Number R]

/-- The range between two bounds, given in either order. -/
def of (format : Format) (a b : R) : Range R :=
  if a ≤ b then ⟨a, b, format⟩ else ⟨b, a, format⟩

/-- The range of a single value. -/
def point (format : Format) (a : R) : Range R := of format a a

/-- The range that stands for a value of which no range is known. -/
def unknown : Range R := ⟨0, 0, Format.none⟩

instance : Inhabited (Range R) := ⟨unknown⟩

/-- Whether the range has no format. -/
def isUnknown (r : Range R) : Bool := r.format.isNone

/-- The rounding error of the format. -/
def roundingError (r : Range R) : R := r.format.roundingError

/-- Whether zero lies in the range. -/
def containsZero (r : Range R) : Bool := r.lo ≤ 0 && 0 ≤ r.hi

/-- The middle of the range. -/
def midpoint (r : Range R) : R := r.lo + (r.hi - r.lo) / Number.ofInt 2

/-- Half the width of the range. -/
def radius (r : Range R) : R := (r.hi - r.lo) / Number.ofInt 2

/-- The largest magnitude in the range. -/
def maxAbs (r : Range R) : R := Number.max (Number.abs r.lo) (Number.abs r.hi)

/-- The hull of two ranges, with the format of the first one that has a format. -/
def union (r s : Range R) : Range R where
  lo := Number.min r.lo s.lo
  hi := Number.max r.hi s.hi
  format := if r.isUnknown then s.format else r.format

/-- The distance between two ranges, zero if they meet. -/
def minDistance (r s : Range R) : R :=
  if r.lo ≤ s.hi ∧ s.lo ≤ r.hi then 0
  else if r.hi < s.lo then s.lo - r.hi
  else r.lo - s.hi

/-- The range of `1 / x`, unless the range contains zero. -/
def reciprocal (r : Range R) : Option (Range R) :=
  if r.containsZero then none else some (of r.format (1 / r.hi) (1 / r.lo))

/-- The affine form that spans the range. -/
def toAffine (r : Range R) : Fresh (Affine R) := Affine.withError r.midpoint r.radius

end Range

/-- What is known of a value: its range and its error, if there is data about it. -/
structure Estimate (R : Type) where
  /-- The range of the value. -/
  range : Range R
  /-- The error of the value; `none` means that nothing is known about it. -/
  error : Option (Affine R)
deriving BEq, Repr

namespace Estimate

variable {R : Type} [Number R]

/-- The estimate that says nothing. -/
def unknown : Estimate R := ⟨Range.unknown, none⟩

instance : Inhabited (Estimate R) := ⟨unknown⟩

/-- A bound of the magnitude of the error, if there is data about it. -/
def absError (e : Estimate R) : Option R := e.error.map Affine.noiseBound

/-- Whether there is data about the error. -/
def hasError (e : Estimate R) : Bool := e.error.isSome

/-- The same range with the error zero, if there is data about the error. -/
def zeroed (e : Estimate R) : Estimate R := { e with error := e.error.map fun _ => Affine.zero }

end Estimate

/-- The outcome of checking a comparison. -/
structure Verdict (R : Type) where
  /-- The largest error that leaves the outcome of the comparison unchanged. -/
  tolerance : R
  /-- Whether the errors of the operands may change the outcome. -/
  mayFlip : Bool
deriving BEq, Repr

end Roundoff
