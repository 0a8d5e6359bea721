/-
# Fixed-point formats

A fixed-point format says how many bits a value has, how many of them stand behind the binary
point, and whether it is signed.  The width zero means that a value has no reduced-precision
representation.
-/
import Roundoff.Number

namespace Roundoff

/-- Width, fractional bits and signedness of a fixed-point value. -/
structure Format where
  /-- The number of bits; zero for a value without a fixed-point representation. -/
  width : UInt32
  /-- The number of bits behind the binary point. -/
  fracBits : UInt32
  /-- Whether the value has a sign. -/
  signed : Bool
deriving DecidableEq, BEq, Repr

namespace Format

/-- The format of a value without a fixed-point representation. -/
def none : Format := ⟨0, 0, false⟩

instance : Inhabited Format := ⟨none⟩

/-- Whether the format stands for no representation. -/
def isNone (f : Format) : Bool := f.width == 0

/-- The same width and sign with another number of fractional bits. -/
def withFracBits (f : Format) (n : UInt32) : Format := { f with fracBits := n }

variable {R : Type} [Number R]

/-- The error made by rounding to the format: one unit in the last place. -/
def roundingError (f : Format) : R :=
  if f.isNone then 0 else Number.twoPow (-(f.fracBits.toNat : Int))

/-- The value that a raw integer stands for; a format without sign reads the bits of the integer
as a natural number. -/
def interpret (f : Format) (raw : Int64) : R :=
  let units : Int := if f.signed then raw.toInt else raw.toUInt64.toNat
  Number.ofInt units / Number.twoPow f.fracBits.toNat

end Format

end Roundoff
