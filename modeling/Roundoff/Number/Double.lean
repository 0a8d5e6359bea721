/-
# Doubles as numbers

The analysis runs on IEEE doubles.
-/
import Roundoff.Number
import Roundoff.Decimal.Double

namespace Roundoff

instance : Number Float where
  zero := 0.0
  one := 1.0
  ofInt := Float.ofInt
  ofDecimal := Decimal.toFloat
  twoPow n := (Float.ofInt n).exp2
  abs := Float.abs
  isFinite := Float.isFinite
  top := 1.0 / 0.0
  bottom := -1.0 / 0.0
  sqrt := Float.sqrt
  exp := Float.exp
  log := Float.log
  asin := Float.asin
  acos := Float.acos

end Roundoff
