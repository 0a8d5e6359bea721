/-
# Data as JSON values

A type is a JSON type if its data can be written as a JSON value and read back.  Reading is strict:
whole numbers must fit the type, tuples have exactly their length, and a record must not name a
field twice.  Fields that a record does not have are ignored, and a record may also be given as the
array of its fields in order.
-/
import Roundoff.Json
import Roundoff.Decimal.Shortest

namespace Roundoff

/-- Data that can be written as a JSON value. -/
class ToJson (α : Type) where
  /-- The JSON value of a datum. -/
  toJson : α → Json

/-- Data that can be read from a JSON value. -/
class OfJson (α : Type) where
  /-- The datum of a JSON value, if it has one. -/
  ofJson? : Json → Option α

export ToJson (toJson)
export OfJson (ofJson?)

namespace Json

/-! ## Simple data -/

instance : ToJson Json := ⟨id⟩

instance : OfJson Json := ⟨some⟩

instance : ToJson Bool := ⟨bool⟩

instance : OfJson Bool where
  ofJson?
    | bool b => some b
    | _ => none

instance : ToJson String := ⟨str⟩

instance : OfJson String where
  ofJson?
    | str s => some s
    | _ => none

instance : ToJson Nat := ⟨fun n => int n⟩

instance : ToJson UInt32 := ⟨fun n => int n.toNat⟩

instance : OfJson UInt32 where
  ofJson?
    | int i => if 0 ≤ i ∧ i < UInt32.size then some (UInt32.ofNat i.toNat) else none
    | _ => none

instance : ToJson UInt64 := ⟨fun n => int n.toNat⟩

instance : OfJson UInt64 where
  ofJson?
    | int i => if 0 ≤ i ∧ i < UInt64.size then some (UInt64.ofNat i.toNat) else none
    | _ => none

instance : ToJson Int64 := ⟨fun n => int n.toInt⟩

instance : OfJson Int64 where
  ofJson?
    | int i =>
      if Int64.minValue.toInt ≤ i ∧ i ≤ Int64.maxValue.toInt then some (Int64.ofInt i) else none
    | _ => none

/-- A finite double is written with its shortest digits; an infinite or undefined one has no JSON
number and becomes `null`. -/
instance : ToJson Float where
  toJson x :=
    match Decimal.Double.ofFloat x with
    | .finite neg 0 _ => dec neg 0 0
    | .finite neg m q =>
      let (d, k) := Decimal.shortest m q
      dec neg d k
    | _ => null

/-- A number is read as the nearest double; numbers beyond all doubles are refused. -/
instance : OfJson Float where
  ofJson? j :=
    let read (neg : Bool) (m : Nat) (e : Int) : Option Float :=
      let x := Decimal.toFloat m e
      if x.isFinite then some (if neg then -x else x) else none
    match j with
    | int i => read (i < 0) i.natAbs 0
    | dec neg m e => read neg m e
    | _ => none

/-! ## Compound data -/

instance {α : Type} [ToJson α] : ToJson (List α) := ⟨fun xs => arr (xs.map toJson)⟩

instance {α : Type} [OfJson α] : OfJson (List α) where
  ofJson?
    | arr xs => xs.mapM ofJson?
    | _ => none

instance {α : Type} [ToJson α] : ToJson (Array α) := ⟨fun xs => toJson xs.toList⟩

instance {α : Type} [OfJson α] : OfJson (Array α) where
  ofJson? j := (ofJson? j).map List.toArray

instance {α : Type} [ToJson α] : ToJson (Option α) where
  toJson
    | none => null
    | some x => toJson x

instance {α : Type} [OfJson α] : OfJson (Option α) where
  ofJson?
    | null => some none
    | j => (ofJson? j).map some

instance {α β : Type} [ToJson α] [ToJson β] : ToJson (α × β) :=
  ⟨fun (x, y) => arr [toJson x, toJson y]⟩

instance {α β : Type} [OfJson α] [OfJson β] : OfJson (α × β) where
  ofJson?
    | arr [x, y] => do return (← ofJson? x, ← ofJson? y)
    | _ => none

/-! ## Records -/

/-- The fields of a record that is being read. -/
structure Fields where
  /-- The value given for a field. -/
  get? : String → Option Json
  /-- Whether the record is given as the array of its fields. -/
  listed : Bool

/-- The fields of a record with the given field names: no field may be given twice. -/
def fields? (names : List String) : Json → Option Fields
  | obj given =>
    if names.all fun n => (given.filter fun (g, _) => g == n).length ≤ 1 then
      some ⟨fun n => given.lookup n, false⟩
    else none
  | arr given =>
    if given.length ≤ names.length then some ⟨fun n => (names.zip given).lookup n, true⟩ else none
  | _ => none

namespace Fields

variable {α : Type} [OfJson α]

/-- A field that must be given. -/
def required (r : Fields) (name : String) : Option α := (r.get? name).bind ofJson?

/-- A field that may be missing, which has the default then. -/
def withDefault (r : Fields) (name : String) (default : α) : Option α :=
  match r.get? name with
  | none => some default
  | some j => ofJson? j

/-- A field that may be missing or `null`. -/
def optional (r : Fields) (name : String) : Option (Option α) := r.withDefault name none

/-- A field that may be `null`, and may be missing where the fields are named. -/
def nullable (r : Fields) (name : String) : Option (Option α) :=
  match r.get? name with
  | none => if r.listed then none else some none
  | some j => ofJson? j

end Fields

/-- The field of a record that is written only if it has a value. -/
def optionalField {α : Type} [ToJson α] (name : String) : Option α → List (String × Json)
  | none => []
  | some x => [(name, toJson x)]

/-! ## Alternatives -/

/-- The tag and the contents of one of several alternatives: a name alone, or an object whose only
field is named for the alternative. -/
def variant? : Json → Option (String × Json)
  | str tag => some (tag, null)
  | obj [(tag, j)] => some (tag, j)
  | _ => none

/-- The tag of an alternative without contents. -/
def tag? (j : Json) : Option String :=
  match variant? j with
  | some (tag, null) => some tag
  | _ => none

/-- The datum of a finite choice whose name a JSON value gives. -/
def ofName? {α : Type} (name : α → String) (all : List α) (j : Json) : Option α :=
  (tag? j).bind fun tag => all.find? fun x => name x == tag

/-- An alternative with contents. -/
def variant {α : Type} [ToJson α] (tag : String) (x : α) : Json := obj [(tag, toJson x)]

end Json

end Roundoff
