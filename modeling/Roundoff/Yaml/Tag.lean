/-
# Tags and directives

A tag names the kind of a node.  It is written in full between angle brackets, or as a handle and a
suffix; directives in front of a document say what its handles stand for.  Since octets can be
written in a tag by their numbers, a tag is a sequence of octets, and need not be the encoding of a
text.
-/
import Roundoff.Yaml.Cursor

namespace Roundoff

namespace Yaml

/-- The octets of a tag. -/
abbrev Octets := List UInt8

/-- The octets of a text. -/
def octets (text : String) : Octets := text.toUTF8.toList

/-- A tag as it is written.  The handle is empty where the suffix is the whole tag. -/
structure WrittenTag where
  /-- The handle. -/
  handle : List Char
  /-- What follows the handle. -/
  suffix : Octets
deriving DecidableEq, Repr

/-- What a document says about itself before it begins. -/
inductive Directive where
  /-- The version of YAML. -/
  | version (major minor : Nat)
  /-- What a handle stands for. -/
  | handle (handle : List Char) (start : Octets)
deriving DecidableEq, Repr

/-! ## Octets -/

/-- An octet that is written as a percent sign and two hexadecimal digits. -/
def octet? : List Char → Option (UInt8 × List Char)
  | '%' :: a :: b :: cs => do
    let a ← Json.hexValue? a
    let b ← Json.hexValue? b
    return (UInt8.ofNat (16 * a + b), cs)
  | _ => none

/-- How many octets follow the first octet of a character. -/
def followers? (first : UInt8) : Option Nat :=
  if first < 0x80 then some 0
  else if first < 0xc0 then none
  else if first < 0xe0 then some 1
  else if first < 0xf0 then some 2
  else if first < 0xf8 then some 3
  else none

/-- The given number of octets that follow the first octet of a character. -/
def following? : Nat → List Char → Option (Octets × List Char)
  | 0, cs => some ([], cs)
  | n + 1, cs => do
    let (o, cs) ← octet? cs
    if 0x80 ≤ o ∧ o < 0xc0 then
      let (os, cs) ← following? n cs
      return (o :: os, cs)
    else none

/-- The octets of a character that is written by its octets. -/
def escapedOctets? (cs : List Char) : Option (Octets × List Char) := do
  let (first, cs) ← octet? cs
  let (os, cs) ← following? (← followers? first) cs
  return (first :: os, cs)

/-- Signs that may occur in every tag. -/
def tagSigns : List Char := ";/?:@&=+$.%!~*'()".toList

/-- Signs that may occur only in a tag that is written in full. -/
def fullTagSigns : List Char := [',', '[', ']']

/-- Whether a character may occur in a tag. -/
def isTagChar (full : Bool) (c : Char) : Bool :=
  isNameChar c || tagSigns.contains c || (full && fullTagSigns.contains c)

/-- Read the octets of a tag as far as they go. -/
def tagOctets (full : Bool) : (letters : Nat) → List Char → Option (Octets × List Char)
  | 0, _ => none
  | letters + 1, cs =>
    match cs with
    | [] => some ([], [])
    | '%' :: _ => do
      let (os, rest) ← escapedOctets? cs
      let (more, rest) ← tagOctets full letters rest
      return (os ++ more, rest)
    | c :: rest =>
      if isTagChar full c then do
        let (os, rest) ← tagOctets full letters rest
        return (UInt8.ofNat c.toNat :: os, rest)
      else some ([], cs)

/-- Read part of a tag.  It ends before an octet zero. -/
def tagPart? (full : Bool) (cs : List Char) : Option (Octets × List Char) :=
  (tagOctets full (cs.length + 1) cs).map fun (os, rest) => (os.takeWhile (· ≠ 0), rest)

/-- Read part of a tag that must not be empty. -/
def nonemptyTagPart? (full : Bool) (cs : List Char) : Option (Octets × List Char) :=
  (tagPart? full cs).filter fun (_, rest) => rest.length < cs.length

/-! ## Tags -/

/-- A handle: an exclamation mark, or a name between two.  The answer is the name with its marks as
far as they are there. -/
def handle? : List Char → Option (List Char × List Char)
  | '!' :: cs =>
    let name := cs.takeWhile isNameChar
    match cs.dropWhile isNameChar with
    | '!' :: rest => some ('!' :: name ++ ['!'], rest)
    | rest => some ('!' :: name, rest)
  | _ => none

/-- Whether the answer of `handle?` is a handle with both of its marks. -/
def isNamedHandle (handle : List Char) : Bool := 1 < handle.length && handle.getLast? = some '!'

/-- A tag at the front of a text. -/
def tag? (cs : List Char) : Option (WrittenTag × List Char) :=
  match cs with
  | '!' :: '<' :: cs => do
    let (suffix, rest) ← nonemptyTagPart? true cs
    match rest with
    | '>' :: rest => return (⟨[], suffix⟩, rest)
    | _ => none
  | cs => do
    let (handle, rest) ← handle? cs
    if isNamedHandle handle then
      let (suffix, rest) ← nonemptyTagPart? false rest
      return (⟨handle, suffix⟩, rest)
    else
      -- What follows the exclamation mark belongs to the suffix.
      let (more, rest) ← tagPart? false rest
      let suffix := octets (String.ofList (handle.drop 1)) ++ more
      return (if suffix.isEmpty then ⟨[], octets "!"⟩ else ⟨['!'], suffix⟩, rest)

/-- Read a tag.  A blank or a line break follows it, or in brackets a comma. -/
def readTag (inFlow : Bool) (c : Cursor) : Option (WrittenTag × Cursor) := do
  let (tag, rest) ← tag? c.rest
  if atWordEnd rest || (inFlow && rest.head? = some ',') then return (tag, c.passTo rest) else none

/-! ## Directives -/

/-- A number of at most nine digits. -/
def versionNumber? (cs : List Char) : Option (Nat × List Char) :=
  let digits := cs.takeWhile Char.isDigit
  if digits.isEmpty || 9 < digits.length then none
  else some (Json.digitsValue digits, cs.dropWhile Char.isDigit)

/-- What follows the name of a directive. -/
def directiveValue? (name : String) (cs : List Char) : Option (Directive × List Char) :=
  let cs := cs.dropWhile isBlank
  match name with
  | "YAML" => do
    let (major, rest) ← versionNumber? cs
    match rest with
    | '.' :: rest =>
      let (minor, rest) ← versionNumber? rest
      return (.version major minor, rest)
    | _ => none
  | "TAG" => do
    let (handle, rest) ← handle? cs
    if handle = ['!'] ∨ isNamedHandle handle then
      if rest.head?.any isBlank then
        let (start, rest) ← nonemptyTagPart? true (rest.dropWhile isBlank)
        if atWordEnd rest then return (.handle handle start, rest) else none
      else none
    else none
  | _ => none

/-- Read a directive, which fills a line. -/
def readDirective (c : Cursor) : Option (Directive × Cursor) := do
  let cs := c.rest.drop 1
  let name := cs.takeWhile isNameChar
  let rest := cs.dropWhile isNameChar
  if name.isEmpty ∨ ¬ atWordEnd rest then none
  let (directive, rest) ← directiveValue? (String.ofList name) rest
  let c ← (c.passTo rest).endLine?
  return (directive, c)

/-! ## Meaning -/

/-- What handles stand for where no directive says otherwise. -/
def defaultHandles : List (List Char × Octets) :=
  [(['!'], octets "!"), (['!', '!'], octets "tag:yaml.org,2002:")]

/-- What the directives of a document say about its handles, unless they contradict each other:
there must be at most one version, which is 1.1 or 1.2, and every handle must be given at most once. -/
def handlesOf? (ds : List Directive) : Option (List (List Char × Octets)) :=
  let versions := ds.filterMap fun
    | .version major minor => some (major, minor)
    | .handle .. => none
  let handles := ds.filterMap fun
    | .version .. => none
    | .handle handle start => some (handle, start)
  if (versions.isEmpty ∨ versions = [(1, 1)] ∨ versions = [(1, 2)])
      ∧ (handles.map Prod.fst).Nodup then
    some (handles ++ defaultHandles)
  else none

/-- The octets that a tag stands for. -/
def WrittenTag.resolve? (handles : List (List Char × Octets)) (t : WrittenTag) : Option Octets :=
  if t.handle.isEmpty then some t.suffix
  else (handles.lookup t.handle).map fun start => start ++ t.suffix

end Yaml

end Roundoff
