/-
# Worst errors per label

Instructions and globals may carry a label; for every label the largest error is kept that a value
with that label was ever recorded with.
-/
import Roundoff.Number
import Roundoff.Table

namespace Roundoff

/-- The largest recorded error of each label. -/
structure Targets (R : Type) where
  /-- The errors by label. -/
  errors : Table String R
deriving Repr

namespace Targets

variable {R : Type} [Number R]

/-- No label. -/
def empty : Targets R := ⟨∅⟩

instance : Inhabited (Targets R) := ⟨empty⟩

/-- Raise the error of a label to the given one, if that is larger. -/
def raise (t : Targets R) (label : String) (error : R) : Targets R :=
  match t.errors.get? label with
  | some current => ⟨t.errors.insert label (Number.max current error)⟩
  | none => ⟨t.errors.insert label error⟩

/-- Raise the error of every label to that of another collection. -/
def merge (t other : Targets R) : Targets R :=
  other.errors.toList.foldl (fun t (label, error) => t.raise label error) t

/-- The error of a label, zero if there is none. -/
def errorFor (t : Targets R) (label : String) : R := (t.errors.get? label).getD 0

end Targets

end Roundoff
