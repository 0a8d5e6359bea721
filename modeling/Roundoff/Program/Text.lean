/-
# Modules as JSON

The JSON form of a module: alternatives are objects with one field named for the alternative, or
the name alone where nothing follows it, and optional data that are absent are left out.  Reading a
module includes the check that it is valid.
-/
import Roundoff.Program.Validity
import Roundoff.Json.Codec

namespace Roundoff

open Json

/-! ## Types and operands -/

instance : ToJson StructId := ⟨fun id => toJson id.val⟩

instance : OfJson StructId := ⟨fun j => (ofJson? j).map StructId.mk⟩

instance : ToJson FunctionId := ⟨fun id => toJson id.val⟩

instance : OfJson FunctionId := ⟨fun j => (ofJson? j).map FunctionId.mk⟩

instance : ToJson BlockId := ⟨fun id => toJson id.val⟩

instance : OfJson BlockId := ⟨fun j => (ofJson? j).map BlockId.mk⟩

instance : ToJson InstId := ⟨fun id => toJson id.val⟩

instance : OfJson InstId := ⟨fun j => (ofJson? j).map InstId.mk⟩

instance : ToJson GlobalId := ⟨fun id => toJson id.val⟩

instance : OfJson GlobalId := ⟨fun j => (ofJson? j).map GlobalId.mk⟩

namespace Ty

/-- The JSON form of a type. -/
def encode : Ty → Json
  | void => str "Void"
  | int bits => variant "Int" bits
  | float bits => variant "Float" bits
  | pointer t => obj [("Pointer", encode t)]
  | struct id => variant "Struct" id
  | array elem length => obj [("Array", arr [encode elem, toJson length])]

/-- The type of a JSON value. -/
def decode? : Json → Option Ty
  | str "Void" => some void
  | obj [("Void", null)] => some void
  | obj [("Int", j)] => (ofJson? j).map int
  | obj [("Float", j)] => (ofJson? j).map float
  | obj [("Pointer", j)] => (decode? j).map pointer
  | obj [("Struct", j)] => (ofJson? j).map struct
  | obj [("Array", arr [elem, length])] => do
    let elem ← decode? elem
    let length ← ofJson? length
    return array elem length
  | _ => none

end Ty

instance : ToJson Ty := ⟨Ty.encode⟩

instance : OfJson Ty := ⟨Ty.decode?⟩

variable {R : Type} [ToJson R] [OfJson R]

instance : ToJson (Value R) where
  toJson
    | .inst id => variant "Inst" id
    | .arg index => variant "Arg" index
    | .global id => variant "Global" id
    | .function id => variant "Function" id
    | .constInt raw => variant "ConstInt" raw
    | .constFloat x => variant "ConstFloat" x
    | .undef => str "Undef"

instance : OfJson (Value R) where
  ofJson? j :=
    match variant? j with
    | some ("Inst", j) => (ofJson? j).map .inst
    | some ("Arg", j) => (ofJson? j).map .arg
    | some ("Global", j) => (ofJson? j).map .global
    | some ("Function", j) => (ofJson? j).map .function
    | some ("ConstInt", j) => (ofJson? j).map .constInt
    | some ("ConstFloat", j) => (ofJson? j).map .constFloat
    | some ("Undef", null) => some .undef
    | _ => none

/-! ## Annotations -/

instance : ToJson Format where
  toJson f :=
    obj [("width", toJson f.width), ("frac_bits", toJson f.fracBits), ("signed", toJson f.signed)]

instance : OfJson Format where
  ofJson? j := do
    let r ← fields? ["width", "frac_bits", "signed"] j
    return ⟨← r.required "width", ← r.required "frac_bits", ← r.required "signed"⟩

instance : ToJson (ScalarInfo R) where
  toJson info :=
    obj ([("format", toJson info.format)] ++ optionalField "range" info.bounds
      ++ optionalField "initial_error" info.initialError)

instance : OfJson (ScalarInfo R) where
  ofJson? j := do
    let r ← fields? ["format", "range", "initial_error"] j
    return ⟨← r.required "format", ← r.optional "range", ← r.optional "initial_error"⟩

namespace ValueInfo

mutual

/-- The JSON form of an annotation. -/
def encode : ValueInfo R → Json
  | scalar info => variant "Scalar" info
  | struct fields => obj [("Struct", arr (encodeFields fields))]

/-- The JSON forms of the annotations of the fields of an aggregate. -/
def encodeFields : List (Option (ValueInfo R)) → List Json
  | [] => []
  | none :: rest => null :: encodeFields rest
  | some info :: rest => encode info :: encodeFields rest

end

mutual

/-- The annotation of a JSON value. -/
def decode? : Json → Option (ValueInfo R)
  | obj [("Scalar", j)] => (ofJson? j).map scalar
  | obj [("Struct", arr xs)] => (decodeFields? xs).map struct
  | _ => none

/-- The annotations of the fields of an aggregate. -/
def decodeFields? : List Json → Option (List (Option (ValueInfo R)))
  | [] => some []
  | null :: rest => (decodeFields? rest).map (none :: ·)
  | x :: rest => do
    let info ← decode? x
    let infos ← decodeFields? rest
    return some info :: infos

end

end ValueInfo

instance : ToJson (ValueInfo R) := ⟨ValueInfo.encode⟩

instance : OfJson (ValueInfo R) := ⟨ValueInfo.decode?⟩

/-! ## Instructions -/

instance : ToJson BinaryOp := ⟨fun op => str op.name⟩

instance : OfJson BinaryOp := ⟨ofName? BinaryOp.name BinaryOp.all⟩

instance : ToJson CastOp := ⟨fun op => str op.name⟩

instance : OfJson CastOp := ⟨ofName? CastOp.name CastOp.all⟩

instance : ToJson Predicate := ⟨fun p => str p.name⟩

instance : OfJson Predicate := ⟨ofName? Predicate.name Predicate.all⟩

instance : ToJson (Callee R) where
  toJson
    | .direct id => variant "Direct" id
    | .external name => variant "External" name
    | .indirect target => variant "Indirect" target

instance : OfJson (Callee R) where
  ofJson? j :=
    match variant? j with
    | some ("Direct", j) => (ofJson? j).map .direct
    | some ("External", j) => (ofJson? j).map .external
    | some ("Indirect", j) => (ofJson? j).map .indirect
    | _ => none

namespace Operation

/-- The JSON form of an operation. -/
def encode : Operation R → Json
  | binary op lhs rhs =>
    of "Binary" [("op", toJson op), ("lhs", toJson lhs), ("rhs", toJson rhs)]
  | cast op operand => of "Cast" [("op", toJson op), ("operand", toJson operand)]
  | icmp p lhs rhs =>
    of "ICmp" [("predicate", toJson p), ("lhs", toJson lhs), ("rhs", toJson rhs)]
  | fcmp p lhs rhs =>
    of "FCmp" [("predicate", toJson p), ("lhs", toJson lhs), ("rhs", toJson rhs)]
  | select c t f => of "Select" [("cond", toJson c), ("if_true", toJson t), ("if_false", toJson f)]
  | phi incoming => of "Phi" [("incoming", toJson incoming)]
  | alloca ty => of "Alloca" [("allocated", toJson ty)]
  | load ptr => of "Load" [("ptr", toJson ptr)]
  | store value ptr => of "Store" [("value", toJson value), ("ptr", toJson ptr)]
  | element base indices =>
    of "GetElementPtr" [("base", toJson base), ("indices", toJson indices)]
  | call callee args => of "Call" [("callee", toJson callee), ("args", toJson args)]
  | invoke callee args normal unwind =>
    of "Invoke" [("callee", toJson callee), ("args", toJson args), ("normal", toJson normal),
      ("unwind", toJson unwind)]
  | ret value => of "Ret" [("value", toJson value)]
  | br target => of "Br" [("target", toJson target)]
  | condBr c t f => of "CondBr" [("cond", toJson c), ("if_true", toJson t), ("if_false", toJson f)]
  | unreachable => str "Unreachable"
where
  /-- An alternative whose contents are a record. -/
  of (tag : String) (fields : List (String × Json)) : Json := obj [(tag, obj fields)]

/-- The operation of a JSON value. -/
def decode? (j : Json) : Option (Operation R) := do
  let (tag, j) ← variant? j
  match tag with
  | "Binary" =>
    let r ← fields? ["op", "lhs", "rhs"] j
    return binary (← r.required "op") (← r.required "lhs") (← r.required "rhs")
  | "Cast" =>
    let r ← fields? ["op", "operand"] j
    return cast (← r.required "op") (← r.required "operand")
  | "ICmp" =>
    let r ← fields? ["predicate", "lhs", "rhs"] j
    return icmp (← r.required "predicate") (← r.required "lhs") (← r.required "rhs")
  | "FCmp" =>
    let r ← fields? ["predicate", "lhs", "rhs"] j
    return fcmp (← r.required "predicate") (← r.required "lhs") (← r.required "rhs")
  | "Select" =>
    let r ← fields? ["cond", "if_true", "if_false"] j
    return select (← r.required "cond") (← r.required "if_true") (← r.required "if_false")
  | "Phi" =>
    let r ← fields? ["incoming"] j
    return phi (← r.required "incoming")
  | "Alloca" =>
    let r ← fields? ["allocated"] j
    return alloca (← r.required "allocated")
  | "Load" =>
    let r ← fields? ["ptr"] j
    return load (← r.required "ptr")
  | "Store" =>
    let r ← fields? ["value", "ptr"] j
    return store (← r.required "value") (← r.required "ptr")
  | "GetElementPtr" =>
    let r ← fields? ["base", "indices"] j
    return element (← r.required "base") (← r.required "indices")
  | "Call" =>
    let r ← fields? ["callee", "args"] j
    return call (← r.required "callee") (← r.required "args")
  | "Invoke" =>
    let r ← fields? ["callee", "args", "normal", "unwind"] j
    return invoke (← r.required "callee") (← r.required "args") (← r.required "normal")
      (← r.required "unwind")
  | "Ret" =>
    let r ← fields? ["value"] j
    return ret (← r.nullable "value")
  | "Br" =>
    let r ← fields? ["target"] j
    return br (← r.required "target")
  | "CondBr" =>
    let r ← fields? ["cond", "if_true", "if_false"] j
    return condBr (← r.required "cond") (← r.required "if_true") (← r.required "if_false")
  | "Unreachable" => if j.isNull then some unreachable else none
  | _ => none

end Operation

instance : ToJson (Operation R) := ⟨Operation.encode⟩

instance : OfJson (Operation R) := ⟨Operation.decode?⟩

instance : ToJson (Instruction R) where
  toJson i :=
    obj ([("id", toJson i.id), ("block", toJson i.block), ("name", toJson i.name),
      ("ty", toJson i.ty), ("kind", toJson i.op)] ++ optionalField "info" i.info
      ++ optionalField "target" i.target)

instance : OfJson (Instruction R) where
  ofJson? j := do
    let r ← fields? ["id", "block", "name", "ty", "kind", "info", "target"] j
    return ⟨← r.required "id", ← r.required "block", ← r.withDefault "name" "",
      ← r.required "ty", ← r.required "kind", ← r.optional "info", ← r.optional "target"⟩

/-! ## Functions and modules -/

instance : ToJson (Param R) where
  toJson p := obj ([("name", toJson p.name), ("ty", toJson p.ty)] ++ optionalField "info" p.info)

instance : OfJson (Param R) where
  ofJson? j := do
    let r ← fields? ["name", "ty", "info"] j
    return ⟨← r.required "name", ← r.required "ty", ← r.optional "info"⟩

instance : ToJson Block where
  toJson b :=
    obj ([("id", toJson b.id), ("name", toJson b.name), ("insts", toJson b.insts)]
      ++ optionalField "unroll_hint" b.unrollHint ++ optionalField "trip_count" b.tripCount)

instance : OfJson Block where
  ofJson? j := do
    let r ← fields? ["id", "name", "insts", "unroll_hint", "trip_count"] j
    return ⟨← r.required "id", ← r.withDefault "name" "", ← r.required "insts",
      ← r.optional "unroll_hint", ← r.optional "trip_count"⟩

instance : ToJson (Function R) where
  toJson f :=
    obj ([("id", toJson f.id), ("name", toJson f.name), ("params", toJson f.params),
      ("ret_ty", toJson f.retTy), ("blocks", toJson f.blocks), ("insts", toJson f.insts)]
      ++ optionalField "max_recursion" f.maxRecursion
      ++ [("entry_point", toJson f.entryPoint)])

instance : OfJson (Function R) where
  ofJson? j := do
    let r ← fields?
      ["id", "name", "params", "ret_ty", "blocks", "insts", "max_recursion", "entry_point"] j
    return ⟨← r.required "id", ← r.required "name", ← r.required "params",
      ← r.required "ret_ty", ← r.required "blocks", ← r.required "insts",
      ← r.optional "max_recursion", ← r.withDefault "entry_point" false⟩

instance : ToJson (Global R) where
  toJson g :=
    obj ([("id", toJson g.id), ("name", toJson g.name), ("ty", toJson g.ty)]
      ++ optionalField "info" g.info ++ optionalField "target" g.target)

instance : OfJson (Global R) where
  ofJson? j := do
    let r ← fields? ["id", "name", "ty", "info", "target"] j
    return ⟨← r.required "id", ← r.required "name", ← r.required "ty", ← r.optional "info",
      ← r.optional "target"⟩

instance : ToJson StructType where
  toJson s := obj [("name", toJson s.name), ("fields", toJson s.fields)]

instance : OfJson StructType where
  ofJson? j := do
    let r ← fields? ["name", "fields"] j
    return ⟨← r.required "name", ← r.required "fields"⟩

instance : ToJson (Module R) where
  toJson m :=
    obj [("name", toJson m.name), ("functions", toJson m.functions),
      ("globals", toJson m.globals), ("struct_types", toJson m.structs)]

instance : OfJson (Module R) where
  ofJson? j := do
    let r ← fields? ["name", "functions", "globals", "struct_types"] j
    return ⟨← r.required "name", ← r.required "functions", ← r.withDefault "globals" #[],
      ← r.withDefault "struct_types" #[]⟩

/-- Why a text is not a module. -/
inductive ModuleError where
  /-- The text is not the JSON form of a module. -/
  | syntaxError
  /-- The module is not valid. -/
  | invalid (defect : Defect)
deriving DecidableEq, Repr

namespace Module

/-- The text of a module. -/
def write (m : Module R) : String := (toJson m).writeLines

/-- The valid module of a JSON value. -/
def ofJson (j : Json) : Except ModuleError (Module R) :=
  match (ofJson? j : Option (Module R)) with
  | none => .error .syntaxError
  | some m =>
    match m.defect? with
    | some d => .error (.invalid d)
    | none => .ok m

/-- Read a valid module from its text. -/
def read (text : String) : Except ModuleError (Module R) :=
  match Json.read? text with
  | none => .error .syntaxError
  | some j => ofJson j

end Module

end Roundoff
