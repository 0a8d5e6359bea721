/-
# Elementary functions and their errors

The functions treated here are monotonic, and so is the magnitude of their derivative on each side
of zero.  The error of `f x` for an erroneous `x` follows from the mean value theorem: it is
`f' ξ · e` for some `ξ` between the exact and the erroneous argument, and `f' ξ` is replaced by
the derivative of least magnitude plus one fresh noise term for the rest.
-/
import Roundoff.Range

namespace Roundoff

/-- The elementary functions whose errors are bounded through their derivative. -/
inductive Elementary where
  | reciprocal
  | sqrt
  | log
  | exp
  | asin
  | acos
deriving DecidableEq, BEq, Repr

namespace Elementary

/-- The name of a function in messages. -/
def name : Elementary → String
  | reciprocal => "Reciprocal"
  | sqrt => "Sqrt"
  | log => "Log"
  | exp => "Exp"
  | asin => "Asin"
  | acos => "Acos"

/-- All elementary functions. -/
def all : List Elementary := [reciprocal, sqrt, log, exp, asin, acos]

/-- The function that a library routine of the given name computes.  An intrinsic is named
`llvm.`, the function and a suffix that starts with a point; leading underscores are ignored, and
the suffixes `f` and `l` select a precision. -/
def ofLibraryName? (routine : String) : Option Elementary :=
  let chars := routine.toList
  let intrinsic := "llvm.".toList
  let base :=
    if intrinsic.isPrefixOf chars then (chars.drop intrinsic.length).takeWhile (· ≠ '.') else chars
  match String.ofList (base.dropWhile (· = '_')) with
  | "sqrt" | "sqrtf" | "sqrtl" => some sqrt
  | "log" | "logf" | "logl" => some log
  | "exp" | "expf" | "expl" => some exp
  | "asin" | "asinf" | "asinl" => some asin
  | "acos" | "acosf" | "acosl" => some acos
  | _ => none

variable {R : Type} [Number R]

/-- The value of a function. -/
def eval (x : R) : Elementary → R
  | reciprocal => 1 / x
  | sqrt => Number.sqrt x
  | log => Number.log x
  | exp => Number.exp x
  | asin => Number.asin x
  | acos => Number.acos x

/-- The derivative of a function. -/
def derivative (x : R) : Elementary → R
  | reciprocal => -1 / (x * x)
  | sqrt => Number.ofDecimal 5 (-1) / Number.sqrt x
  | log => 1 / x
  | exp => Number.exp x
  | asin => 1 / Number.sqrt (1 - x * x)
  | acos => -1 / Number.sqrt (1 - x * x)

/-- Whether the derivative is finite and of one sign on `[lo, hi]`. -/
def isDefinedOn (lo hi : R) : Elementary → Bool
  | reciprocal => 0 < lo || hi < 0
  | sqrt | log => 0 < lo
  | exp => Number.isFinite hi && Number.isFinite lo
  | asin | acos => -1 < lo && hi < 1

/-- Bounds of the magnitude of a derivative. -/
structure DerivativeBounds (R : Type) where
  /-- The least magnitude. -/
  least : R
  /-- The greatest magnitude. -/
  greatest : R
  /-- The derivative of least magnitude, with its sign. -/
  atLeast : R

/-- The points of `[lo, hi]` where the magnitude of the derivative may be extreme: the ends, and
zero for the inverse sine and cosine. -/
def extremePoints (f : Elementary) (lo hi : R) : R × List R :=
  (lo, if (f = asin ∨ f = acos) ∧ lo < 0 ∧ 0 < hi then [hi, 0] else [hi])

/-- Take one more derivative into the bounds. -/
def DerivativeBounds.extend (b : DerivativeBounds R) (d : R) : DerivativeBounds R :=
  let m := Number.abs d
  if m < b.least then ⟨m, Number.max b.greatest m, d⟩ else { b with greatest := Number.max b.greatest m }

/-- The bounds of the magnitude of the derivative on `[lo, hi]`, if it is defined and finite
there. -/
def derivativeBounds (f : Elementary) (lo hi : R) : Option (DerivativeBounds R) :=
  if f.isDefinedOn lo hi then
    let (x, xs) := f.extremePoints lo hi
    let d := f.derivative x
    let ds := xs.map f.derivative
    if (d :: ds).all Number.isFinite then
      some (ds.foldl DerivativeBounds.extend ⟨Number.abs d, Number.abs d, d⟩)
    else none
  else none

/-- The error of `f x` where `x` lies in the range and has the given error; `none` if the range
widened by the error leaves the domain of the function. -/
def errorOf (f : Elementary) (range : Range R) (error : Affine R) : Fresh (Option (Affine R)) := do
  let spread := error.noiseBound
  match f.derivativeBounds (range.lo - spread) (range.hi + spread) with
  | none => return none
  | some b =>
    let linear := { error.scale b.atLeast with central := 0 }
    return some (← linear.addNoise ((b.greatest - b.least) * spread))

/-- The range of `f x` where `x` lies in the range, if the function is defined there. -/
def image (f : Elementary) (range : Range R) : Option (Range R) :=
  if f.isDefinedOn range.lo range.hi then
    let a := f.eval range.lo
    let b := f.eval range.hi
    some (Range.of range.format (Number.min a b) (Number.max a b))
  else none

end Elementary

end Roundoff
