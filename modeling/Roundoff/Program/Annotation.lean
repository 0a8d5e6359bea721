/-
# Annotations

Formal parameters, globals and instructions may be annotated with what is known of their values
before the analysis: a format, possibly a range, and possibly an initial error.  An aggregate is
annotated field by field.
-/
import Roundoff.Range

namespace Roundoff

/-- What is known of a scalar before the analysis. -/
structure ScalarInfo (R : Type) where
  /-- The format of the value. -/
  format : Format
  /-- The bounds of the value, in either order. -/
  bounds : Option (R × R)
  /-- The error that the value starts with. -/
  initialError : Option R
deriving BEq, Repr

namespace ScalarInfo

variable {R : Type} [Number R]

/-- The annotated range, if bounds are given. -/
def range? (info : ScalarInfo R) : Option (Range R) :=
  info.bounds.map fun (a, b) => Range.of info.format a b

/-- The annotated range, or the point zero in the annotated format. -/
def rangeOrZero (info : ScalarInfo R) : Range R :=
  info.range?.getD (Range.point info.format 0)

/-- The initial error as an affine form with a noise symbol of its own. -/
def error? (info : ScalarInfo R) : Fresh (Option (Affine R)) :=
  match info.initialError with
  | none => return none
  | some m => return some (← Affine.withError 0 m)

end ScalarInfo

/-- What is known of a value before the analysis: of a scalar, or of the fields of an aggregate
one by one. -/
inductive ValueInfo (R : Type) where
  | scalar (info : ScalarInfo R)
  | struct (fields : List (Option (ValueInfo R)))
deriving BEq, Repr

namespace ValueInfo

variable {R : Type}

/-- The annotation of a scalar. -/
def scalar? : ValueInfo R → Option (ScalarInfo R)
  | scalar info => some info
  | struct _ => none

/-- The annotations of the fields of an aggregate. -/
def fields? : ValueInfo R → Option (List (Option (ValueInfo R)))
  | scalar _ => none
  | struct fields => some fields

end ValueInfo

end Roundoff
