/-
# Doubles as binary fractions

A finite double is `± m · 2 ^ q` with whole numbers `m` and `q`.  This file reads that form off
the bits of a double, and finds the double nearest to a quotient of two natural numbers and to a
decimal number `m · 10 ^ e`.  All arithmetic is on whole numbers and exact.
-/
namespace Roundoff.Decimal

/-- The quotient rounded to the nearest whole number; a tie goes to the even neighbour. -/
def roundDiv (num den : Nat) : Nat :=
  let q := num / den
  let r := num % den
  if 2 * r < den then q
  else if den < 2 * r then q + 1
  else if q % 2 = 0 then q
  else q + 1

/-- The parts of a double. -/
inductive Double where
  /-- The number `m · 2 ^ q`, negated if `neg` is set. -/
  | finite (neg : Bool) (m : Nat) (q : Int)
  /-- An infinite number. -/
  | infinite (neg : Bool)
  /-- An undefined number. -/
  | undefined
deriving DecidableEq, Repr

/-- The smallest exponent of a double. -/
def minExponent : Int := -1074

/-- Read the parts of a double off its bits: a sign, eleven bits of exponent, and 52 bits that
follow the leading bit of `m`, which is written only where the exponent is smallest. -/
def Double.ofBits (bits : Nat) : Double :=
  let neg := bits / Nat.pow 2 63 % 2 == 1
  let e : Nat := bits / Nat.pow 2 52 % Nat.pow 2 11
  let f : Nat := bits % Nat.pow 2 52
  if e = Nat.pow 2 11 - 1 then (if f = 0 then .infinite neg else .undefined)
  else if e = 0 then .finite neg f minExponent
  else .finite neg (f + Nat.pow 2 52) ((e : Int) - 1 + minExponent)

/-- The parts of a double. -/
def Double.ofFloat (x : Float) : Double := .ofBits x.toBits.toNat

/-- The bits of infinity. -/
def infinityBits : Nat := (Nat.pow 2 11 - 1) * Nat.pow 2 52

/-- The bits of the double nearest to `num / den`. -/
def nearestBits (num den : Nat) : Nat :=
  if num = 0 then 0
  else
    -- The quotient lies between `2 ^ (l - 1)` and `2 ^ (l + 1)`.
    let l : Int := (num.log2 : Int) - den.log2
    let atLeast := den * Nat.pow 2 l.toNat ≤ num * Nat.pow 2 (-l).toNat
    let q := max ((if atLeast then l else l - 1) - 52) minExponent
    let m := roundDiv (num * Nat.pow 2 (-q).toNat) (den * Nat.pow 2 q.toNat)
    min ((q - minExponent).toNat * Nat.pow 2 52 + m) infinityBits

/-- The double nearest to `m · 10 ^ e`.  The first two tests answer where the powers of ten would
be needlessly large. -/
def toFloat (m : Nat) (e : Int) : Float :=
  let bits :=
    if m = 0 then 0
    else if 310 < e then infinityBits
    else if (m.log2 : Int) + 1 + 3 * e < minExponent - 1 then 0
    else nearestBits (m * Nat.pow 10 e.toNat) (Nat.pow 10 (-e).toNat)
  Float.ofBits (UInt64.ofNat bits)

end Roundoff.Decimal
