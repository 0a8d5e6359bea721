/-
# Types of program values

Integers and floats have a bit width, pointers an element type, and aggregates are named by their
position in the table of struct types of the module.
-/
namespace Roundoff

/-- The position of a struct type in the module's table of struct types. -/
structure StructId where
  /-- The position. -/
  val : UInt32
deriving DecidableEq, Ord, Repr, Inhabited

/-- The type of a program value. -/
inductive Ty where
  | void
  /-- An integer of the given bit width; fixed-point values are integers. -/
  | int (bits : UInt32)
  /-- A floating-point number of the given bit width. -/
  | float (bits : UInt32)
  | pointer (target : Ty)
  /-- An aggregate of the module's table. -/
  | struct (id : StructId)
  /-- An array of a fixed length. -/
  | array (elem : Ty) (length : UInt64)
deriving DecidableEq, Repr, Inhabited

namespace Ty

/-- Whether the type is an integer type. -/
def isInt : Ty → Bool
  | int _ => true
  | _ => false

/-- Whether the type is a floating-point type. -/
def isFloat : Ty → Bool
  | float _ => true
  | _ => false

/-- Whether the type is a pointer type. -/
def isPointer : Ty → Bool
  | pointer _ => true
  | _ => false

/-- The type that a pointer points to. -/
def target? : Ty → Option Ty
  | pointer t => some t
  | _ => none

/-- The aggregate that the type names. -/
def struct? : Ty → Option StructId
  | struct id => some id
  | _ => none

/-- The aggregate that a pointer points to. -/
def targetStruct? (t : Ty) : Option StructId := t.target?.bind struct?

/-- The element type below all array dimensions. -/
def stripArrays : Ty → Ty
  | array elem _ => stripArrays elem
  | t => t

/-- The number of array dimensions around the element type. -/
def arrayDepth : Ty → Nat
  | array elem _ => arrayDepth elem + 1
  | _ => 0

end Ty

/-- A struct type: its name and the types of its fields. -/
structure StructType where
  /-- The name of the type. -/
  name : String
  /-- The types of the fields in order. -/
  fields : List Ty
deriving DecidableEq, Repr, Inhabited

end Roundoff
