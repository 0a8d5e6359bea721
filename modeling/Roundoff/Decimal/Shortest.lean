/-
# Shortest decimal digits

The digits written for a double are the fewest that read back as the same double; of several such
decimals the one nearest to the double is written, and of two equally near ones the larger.

The numbers that read back as `m · 2 ^ q` form an interval around it, which reaches half way to
the neighbouring doubles and contains its ends if `m` is even.  If a multiple of `10 ^ k` lies in
the interval, then so does one of the two multiples next to the double, so it is enough to try
these two for one `k` after the other, from large to small.
-/
import Roundoff.Decimal.Double

namespace Roundoff.Decimal

/-- The multiples of `10 ^ k` next to the positive double `m · 2 ^ q`, tried in this order: the
nearer one, then the other one.  Answers the factor of the first that reads back as the double. -/
def onGrid? (m : Nat) (q k : Int) : Option Nat :=
  -- In units of a quarter of `2 ^ q`: the double and the ends of its interval.
  let value := 4 * m
  let low := if m = Nat.pow 2 52 ∧ minExponent < q then value - 1 else value - 2
  let high := value + 2
  let scale := Nat.pow 2 (q - 2).toNat * Nat.pow 10 (-k).toNat
  let unit := Nat.pow 2 (2 - q).toNat * Nat.pow 10 k.toNat
  let inside (d : Nat) : Bool :=
    if m % 2 = 0 then low * scale ≤ d * unit && d * unit ≤ high * scale
    else low * scale < d * unit && d * unit < high * scale
  let d := value * scale / unit
  let (near, far) :=
    if 2 * (value * scale - d * unit) < unit then (d, d + 1) else (d + 1, d)
  if inside near then some near
  else if inside far then some far
  else none

/-- Try the grids `10 ^ k`, `10 ^ (k - 1)`, …; seventeen digits always read back, so that the
tries do not run out before a grid is found. -/
def digitsFrom (m : Nat) (q : Int) : (tries : Nat) → (k : Int) → Nat × Int
  | 0, k => (0, k)
  | tries + 1, k =>
    match onGrid? m q k with
    | some d => (d, k)
    | none => digitsFrom m q tries (k - 1)

/-- The shortest decimal `d · 10 ^ k` that reads back as the positive double `m · 2 ^ q`. -/
def shortest (m : Nat) (q : Int) : Nat × Int :=
  -- The double is less than `2 ^ l`, and `30103 / 100000` is close to the decimal logarithm of 2.
  let l : Int := m.log2 + 1 + q
  digitsFrom m q 22 (l * 30103 / 100000 + 2)

end Roundoff.Decimal
