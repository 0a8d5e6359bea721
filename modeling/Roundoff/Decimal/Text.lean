/-
# Decimal text

How numbers are written: in plain positional notation, in a notation that shows whether a number
is whole and turns to powers of ten for very large and very small numbers, or with a fixed number
of places.
-/
import Roundoff.Decimal.Shortest

namespace Roundoff.Decimal

/-- The sign of a number. -/
def signText (neg : Bool) : String := if neg then "-" else ""

/-- A number of zeros. -/
def zeros (n : Nat) : String := String.ofList (List.replicate n '0')

/-- The decimal `d · 10 ^ k` in positional notation, with at least `places` digits behind the
point. -/
def positional (places : Nat) (d : Nat) (k : Int) : String :=
  let digits := toString d
  if 0 ≤ k then
    digits ++ zeros k.toNat ++ (if places = 0 then "" else "." ++ zeros places)
  else
    let behind := (-k).toNat
    let padded := zeros (behind + 1 - digits.length) ++ digits
    let front := padded.length - behind
    String.ofList (padded.toList.take front) ++ "." ++ String.ofList (padded.toList.drop front)
      ++ zeros (places - behind)

/-- The decimal `d · 10 ^ k` with one digit before the point and a power of ten. -/
def scientific (d : Nat) (k : Int) : String :=
  let digits := toString d
  let rest := digits.toList.drop 1
  let exponent := k + rest.length
  String.ofList (digits.toList.take 1) ++ (if rest.isEmpty then "" else "." ++ String.ofList rest)
    ++ "e" ++ toString exponent

/-- Plain notation: always positional, and a whole number has no point. -/
def plain (x : Float) : String :=
  match Double.ofFloat x with
  | .undefined => "NaN"
  | .infinite neg => signText neg ++ "inf"
  | .finite neg 0 _ => signText neg ++ "0"
  | .finite neg m q =>
    let (d, k) := shortest m q
    signText neg ++ positional 0 d k

/-- Tagged notation: a whole number shows its point, and numbers from `10 ^ 16` on and below
`10 ^ -4` are written with a power of ten. -/
def tagged (x : Float) : String :=
  match Double.ofFloat x with
  | .undefined => "NaN"
  | .infinite neg => signText neg ++ "inf"
  | .finite neg 0 _ => signText neg ++ "0.0"
  | .finite neg m q =>
    let (d, k) := shortest m q
    let exponent := k + (toString d).length - 1
    signText neg ++ (if exponent < -4 ∨ 16 ≤ exponent then scientific d k else positional 1 d k)

/-- Notation with a fixed number of places; a half goes to the even neighbour. -/
def fixed (places : Nat) (x : Float) : String :=
  match Double.ofFloat x with
  | .undefined => "NaN"
  | .infinite neg => signText neg ++ "inf"
  | .finite neg m q =>
    let units := roundDiv (m * Nat.pow 10 places * Nat.pow 2 q.toNat) (Nat.pow 2 (-q).toNat)
    signText neg ++ positional 0 units (-(places : Int))

end Roundoff.Decimal
