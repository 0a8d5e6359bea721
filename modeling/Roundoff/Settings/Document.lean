/-
# Settings documents

Settings are kept in a YAML document with a version number and a section of settings.  Settings that
the section does not name have their defaults, and names that are not settings are ignored there,
while the document itself has no other keys than the version and the section.
-/
import Roundoff.Settings
import Roundoff.Yaml.Node

namespace Roundoff

namespace Yaml

/-! ## Scalars as data -/

/-- The number that digits of the given base stand for. -/
def digits? (base : Nat) (cs : List Char) : Option Nat :=
  if cs.isEmpty then none
  else
    cs.foldlM (fun n c => (Json.hexValue? c).bind fun d =>
      if d < base then some (base * n + d) else none) 0

/-- The number that a scalar without quotes stands for: decimal without leading zeros, or with the
mark of another base. -/
def natural? (cs : List Char) : Option Nat :=
  let cs := if cs.head? = some '+' then cs.drop 1 else cs
  match cs with
  | '0' :: 'x' :: ds => digits? 16 ds
  | '0' :: 'o' :: ds => digits? 8 ds
  | '0' :: 'b' :: ds => digits? 2 ds
  | '0' :: _ :: _ => none
  | ds => digits? 10 ds

/-- Whether a scalar stands for more than its text: it has no quotes, or it is a block whose lines
are kept, with the tag of what it stands for. -/
def isReadable (expected : String) (tag : Option Octets) : ScalarStyle → Bool
  | .plain => true
  | .literal => tag = some (octets expected)
  | _ => false

/-- The tag of whole numbers. -/
def intTag : String := "tag:yaml.org,2002:int"

/-- The tag of truth values. -/
def boolTag : String := "tag:yaml.org,2002:bool"

namespace Document

/-- Read a whole number. -/
def word? (d : Document) (n : Node) : Option UInt32 := do
  match ← d.resolve? n with
  | .scalar tag style text =>
    let value ← natural? text.toList
    if isReadable intTag tag style ∧ value < UInt32.size then return UInt32.ofNat value else none
  | _ => none

/-- The truth value that a word stands for. -/
def boolOfWord? : String → Option Bool
  | "true" | "True" | "TRUE" => some true
  | "false" | "False" | "FALSE" => some false
  | _ => none

/-- Read a truth value. -/
def bool? (d : Document) (n : Node) : Option Bool := do
  match ← d.resolve? n with
  | .scalar tag style text => if isReadable boolTag tag style then boolOfWord? text else none
  | _ => none

/-- Read a text. -/
def text? (d : Document) (n : Node) : Option String := do
  match ← d.resolve? n with
  | .scalar _ _ text => return text
  | _ => none

/-- Whether a scalar without quotes stands for nothing. -/
def isNull (text : String) : Bool := ["", "~", "null", "Null", "NULL"].contains text

/-- The name that a tag gives to what it marks: the tag of a name is an exclamation mark in front of
the name. -/
def nameOfTag? (tag : Octets) : Option String := do
  let text ← String.fromUTF8? ⟨tag.toArray⟩
  match text.toList with
  | '!' :: name => return if name.isEmpty then "!" else String.ofList name
  | _ => none

/-- Read the name of a choice: a text, or the name in a tag in front of nothing. -/
def choice? (d : Document) (n : Node) : Option String := do
  match ← d.resolve? n with
  | .scalar tag style text =>
    match tag.bind nameOfTag? with
    | some name => if style = .plain ∧ isNull text then return name else none
    | none => return text
  | _ => none

/-- The pairs of a mapping whose keys are texts; an absent value is a mapping without pairs. -/
def record? (d : Document) (n : Node) : Option (List (String × Node)) := do
  match ← d.resolve? n with
  | .mapping _ pairs => pairs.mapM fun (key, x) => (d.text? key).map fun name => (name, x)
  | .scalar _ .plain "" => return []
  | _ => none

end Document

/-- The value of a field that is given at most once. -/
def field? {α : Type} (fields : List (String × Node)) (name : String) (read : Node → Option α)
    (default : Option α) : Option α :=
  match fields.filter fun (key, _) => key == name with
  | [] => default
  | [(_, x)] => read x
  | _ => none

end Yaml

namespace Settings

/-- The version of the document. -/
def documentVersion : UInt32 := 1

/-- The name of a truth value in documents. -/
def boolText (b : Bool) : String := if b then "true" else "false"

/-- The settings with their names, as they are written in documents. -/
def lines (s : Settings) : List (String × String) :=
  [("default_unroll_count", toString s.defaultUnrollCount),
    ("no_loop_unroll", boolText s.noLoopUnroll),
    ("cmp_error_threshold", toString s.cmpErrorThreshold),
    ("default_max_recursion", toString s.defaultMaxRecursion),
    ("propagate_only_flagged", boolText s.propagateOnlyFlagged),
    ("report_mode", s.reportMode.name),
    ("lipschitz_loops", boolText s.lipschitzLoops)]

/-- The document with the given lines in its section. -/
def document (lines : List (String × String)) : String :=
  "version: " ++ toString documentVersion ++ "\nerrorprop:\n"
    ++ String.join (lines.map fun (name, value) => "  " ++ name ++ ": " ++ value ++ "\n")

/-- The document of settings. -/
def write (s : Settings) : String := document s.lines

/-- The settings of a section. -/
def ofSection? (d : Yaml.Document) (n : Yaml.Node) : Option Settings := do
  let fields ← d.record? n
  let default : Settings := {}
  let mode? (n : Yaml.Node) : Option ReportMode :=
    (d.choice? n).bind fun name => ReportMode.all.find? fun m => m.name == name
  return {
    defaultUnrollCount := ← Yaml.field? fields "default_unroll_count" d.word? default.defaultUnrollCount
    noLoopUnroll := ← Yaml.field? fields "no_loop_unroll" d.bool? default.noLoopUnroll
    cmpErrorThreshold := ← Yaml.field? fields "cmp_error_threshold" d.word? default.cmpErrorThreshold
    defaultMaxRecursion :=
      ← Yaml.field? fields "default_max_recursion" d.word? default.defaultMaxRecursion
    propagateOnlyFlagged :=
      ← Yaml.field? fields "propagate_only_flagged" d.bool? default.propagateOnlyFlagged
    reportMode := ← Yaml.field? fields "report_mode" mode? default.reportMode
    lipschitzLoops := ← Yaml.field? fields "lipschitz_loops" d.bool? default.lipschitzLoops }

/-- The version and the settings of a document. -/
def ofDocument? (d : Yaml.Document) : Option (UInt32 × Settings) := do
  let fields ← d.record? d.root
  if fields.all fun (name, _) => name == "version" || name == "errorprop" then
    let version ← Yaml.field? fields "version" d.word? none
    let settings ← Yaml.field? fields "errorprop" (ofSection? d) (some {})
    return (version, settings)
  else none

/-- Read a document and check the settings. -/
def read (text : String) : Except SettingsError Settings :=
  match (Yaml.Document.read? text).bind ofDocument? with
  | none => .error .syntaxError
  | some (version, settings) =>
    if version ≠ documentVersion then
      .error (.outOfRange "version" version documentVersion documentVersion
        "Add 'version: 1' to the top of the file")
    else
      match settings.fault? with
      | some e => .error e
      | none => .ok settings

end Settings

end Roundoff
