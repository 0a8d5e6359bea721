/-
# JSON values and their text

A JSON value keeps whole numbers apart from numbers with a fraction or an exponent, since only the
former name positions and counts, and it keeps the fields of an object in the order of the text.
The text of a value is written onto a rest of text, so that the text of a value followed by
anything is `writeOnto v rest`.
-/
namespace Roundoff

/-- A JSON value. -/
inductive Json where
  | null
  | bool (b : Bool)
  /-- A whole number, written without fraction and exponent. -/
  | int (i : Int)
  /-- The number `± m · 10 ^ e`, written with a fraction or an exponent, or minus zero. -/
  | dec (neg : Bool) (m : Nat) (e : Int)
  | str (s : String)
  | arr (xs : List Json)
  | obj (fields : List (String × Json))
  /-- What is well formed but has no meaning: a string with half of a character, an object with such
  a name, or an array or object that is nested too deeply.  It may stand where a value is ignored. -/
  | unreadable
deriving BEq, Repr, Inhabited

namespace Json

/-- The field of an object, `null` where there is none.  Of two fields with one name the later one
counts. -/
def field (j : Json) (name : String) : Json :=
  match j with
  | obj fields => (fields.reverse.lookup name).getD null
  | _ => null

/-- Whether an object has a field. -/
def hasField (j : Json) (name : String) : Bool :=
  match j with
  | obj fields => fields.any fun (n, _) => n == name
  | _ => false

/-- Whether the value is `null`. -/
def isNull : Json → Bool
  | null => true
  | _ => false

/-- The items of an array; no items for any other value. -/
def items : Json → List Json
  | arr xs => xs
  | _ => []

/-! ## Writing -/

/-- A hexadecimal digit. -/
def hexDigit (n : Nat) : Char := if n < 10 then Char.ofNat (48 + n) else Char.ofNat (87 + n)

/-- A character inside a string: quotes, backslashes and control characters are escaped. -/
def escape (c : Char) : List Char :=
  if c = '"' then ['\\', '"']
  else if c = '\\' then ['\\', '\\']
  else if c = '\x08' then ['\\', 'b']
  else if c = '\x0c' then ['\\', 'f']
  else if c = '\n' then ['\\', 'n']
  else if c = '\r' then ['\\', 'r']
  else if c = '\t' then ['\\', 't']
  else if c.toNat < 32 then ['\\', 'u', '0', '0', hexDigit (c.toNat / 16), hexDigit (c.toNat % 16)]
  else [c]

/-- Write a string in quotes. -/
def writeString (s : String) (rest : List Char) : List Char :=
  '"' :: s.toList.foldr (fun c out => escape c ++ out) ('"' :: rest)

/-- Write a whole number. -/
def writeInt (i : Int) (rest : List Char) : List Char :=
  (if i < 0 then ['-'] else []) ++ (toString i.natAbs).toList ++ rest

/-- How the items of arrays and the fields of objects are laid out. -/
inductive Layout where
  /-- All in one line. -/
  | line
  /-- One below the other, where the enclosing array or object is indented by so many spaces. -/
  | lines (indent : Nat)

namespace Layout

/-- The layout inside an array or object: two more spaces. -/
def inner : Layout → Layout
  | line => line
  | lines indent => lines (indent + 2)

/-- Begin a new line, if there are lines. -/
def newline (layout : Layout) (rest : List Char) : List Char :=
  match layout with
  | line => rest
  | lines indent => '\n' :: (List.replicate indent ' ' ++ rest)

/-- The colon after the name of a field. -/
def colon (layout : Layout) (rest : List Char) : List Char :=
  match layout with
  | line => ':' :: rest
  | lines _ => ':' :: ' ' :: rest

end Layout

mutual

/-- The text of a value, followed by `rest`. -/
def writeOnto (layout : Layout) : Json → List Char → List Char
  | null, rest | unreadable, rest => 'n' :: 'u' :: 'l' :: 'l' :: rest
  | bool true, rest => 't' :: 'r' :: 'u' :: 'e' :: rest
  | bool false, rest => 'f' :: 'a' :: 'l' :: 's' :: 'e' :: rest
  | int i, rest => writeInt i rest
  | dec neg m e, rest =>
    (if neg then ['-'] else []) ++ (toString m).toList ++ 'e' :: writeInt e rest
  | str s, rest => writeString s rest
  | arr [], rest => '[' :: ']' :: rest
  | arr (x :: xs), rest =>
    '[' :: layout.inner.newline (writeOnto layout.inner x (writeItems layout xs rest))
  | obj [], rest => '{' :: '}' :: rest
  | obj ((name, x) :: fields), rest =>
    '{' :: layout.inner.newline (writeString name
      (layout.colon (writeOnto layout.inner x (writeFields layout fields rest))))

/-- The items of an array after the first one. -/
def writeItems (layout : Layout) : List Json → List Char → List Char
  | [], rest => layout.newline (']' :: rest)
  | x :: xs, rest =>
    ',' :: layout.inner.newline (writeOnto layout.inner x (writeItems layout xs rest))

/-- The fields of an object after the first one. -/
def writeFields (layout : Layout) : List (String × Json) → List Char → List Char
  | [], rest => layout.newline ('}' :: rest)
  | (name, x) :: fields, rest =>
    ',' :: layout.inner.newline (writeString name
      (layout.colon (writeOnto layout.inner x (writeFields layout fields rest))))

end

/-- The text of a value in one line. -/
def write (j : Json) : String := String.ofList (writeOnto .line j [])

/-- The text of a value with one item or field a line. -/
def writeLines (j : Json) : String := String.ofList (writeOnto (.lines 0) j [])

/-! ## Reading -/

/-- Skip blanks: spaces, tabs and line ends. -/
def skipBlank : List Char → List Char
  | c :: cs => if c = ' ' ∨ c = '\t' ∨ c = '\n' ∨ c = '\r' then skipBlank cs else c :: cs
  | [] => []

/-- The value of a hexadecimal digit. -/
def hexValue? (c : Char) : Option Nat :=
  if '0' ≤ c ∧ c ≤ '9' then some (c.toNat - 48)
  else if 'a' ≤ c ∧ c ≤ 'f' then some (c.toNat - 87)
  else if 'A' ≤ c ∧ c ≤ 'F' then some (c.toNat - 55)
  else none

/-- The sixteen-bit unit written as four hexadecimal digits. -/
def readUnit : List Char → Option (Nat × List Char)
  | a :: b :: c :: d :: rest => do
    let a ← hexValue? a
    let b ← hexValue? b
    let c ← hexValue? c
    let d ← hexValue? d
    return (((a * 16 + b) * 16 + c) * 16 + d, rest)
  | _ => none

/-- Whether a unit is the first half of a character beyond the first plane. -/
def isFirstHalf (u : Nat) : Bool := 0xD800 ≤ u && u < 0xDC00

/-- Whether a unit is the second half of a character beyond the first plane. -/
def isSecondHalf (u : Nat) : Bool := 0xDC00 ≤ u && u < 0xE000

/-- The character written as `\u` and a unit.  A character beyond the first plane is written as two
units, and such a unit alone is no character. -/
def readUnicode (cs : List Char) : Option (Option Char × List Char) := do
  let (u, rest) ← readUnit cs
  if isSecondHalf u then return (none, rest)
  if !isFirstHalf u then return (some (Char.ofNat u), rest)
  match rest with
  | '\\' :: 'u' :: more =>
    let (v, more) ← readUnit more
    if isSecondHalf v then
      return (some (Char.ofNat (0x10000 + (u - 0xD800) * 0x400 + (v - 0xDC00))), more)
    else return (none, rest)
  | _ => return (none, rest)

/-- The character that an escape stands for, if it is one; the text begins after the backslash. -/
def readEscape : List Char → Option (Option Char × List Char)
  | '"' :: rest => some (some '"', rest)
  | '\\' :: rest => some (some '\\', rest)
  | '/' :: rest => some (some '/', rest)
  | 'b' :: rest => some (some '\x08', rest)
  | 'f' :: rest => some (some '\x0c', rest)
  | 'n' :: rest => some (some '\n', rest)
  | 'r' :: rest => some (some '\r', rest)
  | 't' :: rest => some (some '\t', rest)
  | 'u' :: rest => readUnicode rest
  | _ => none

/-- The rest of a string up to its closing quote, given the characters read so far in reverse
order.  Control characters are refused.  There is no string if there is half of a character. -/
def readString : (fuel : Nat) → (done : Option (List Char)) → List Char →
    Option (Option String × List Char)
  | 0, _, _ => none
  | fuel + 1, done, cs =>
    match cs with
    | [] => none
    | '"' :: rest => some (done.map fun cs => String.ofList cs.reverse, rest)
    | '\\' :: rest =>
      match readEscape rest with
      | some (some c, rest) => readString fuel (done.map (c :: ·)) rest
      | some (none, rest) => readString fuel none rest
      | none => none
    | c :: rest => if c.toNat < 32 then none else readString fuel (done.map (c :: ·)) rest

/-- The number that a list of digits stands for. -/
def digitsValue (ds : List Char) : Nat := ds.foldl (fun n c => 10 * n + (c.toNat - 48)) 0

/-- The digits at the front of a text; there must be some. -/
def readDigits (cs : List Char) : Option (List Char × List Char) :=
  let ds := cs.takeWhile Char.isDigit
  if ds.isEmpty then none else some (ds, cs.dropWhile Char.isDigit)

/-- Whether a number begins with a minus sign, and the text after the sign. -/
def readMinus : List Char → Bool × List Char
  | '-' :: rest => (true, rest)
  | rest => (false, rest)

/-- Whether an exponent is negative, and the text after its sign. -/
def readSign : List Char → Bool × List Char
  | '+' :: rest => (false, rest)
  | rest => readMinus rest

/-- The digits of a fraction, if there is one. -/
def readFraction : List Char → Option (Option (List Char) × List Char)
  | '.' :: rest => (readDigits rest).map fun (ds, rest) => (some ds, rest)
  | rest => some (none, rest)

/-- The exponent after the letter that announces it. -/
def readExponent (cs : List Char) : Option (Int × List Char) :=
  let (neg, cs) := readSign cs
  (readDigits cs).map fun (ds, rest) =>
    let n : Int := digitsValue ds
    (if neg then -n else n, rest)

/-- An exponent, if there is one. -/
def readScale : List Char → Option (Option Int × List Char)
  | 'e' :: rest | 'E' :: rest => (readExponent rest).map fun (e, rest) => (some e, rest)
  | rest => some (none, rest)

/-- The number that is written with the given parts. -/
def number (neg : Bool) (whole : List Char) (fraction : Option (List Char))
    (exponent : Option Int) : Json :=
  let digits := fraction.getD []
  let m := digitsValue (whole ++ digits)
  if fraction.isNone ∧ exponent.isNone ∧ ¬ (neg ∧ m = 0) then int (if neg then -(m : Int) else m)
  else dec neg m (exponent.getD 0 - digits.length)

/-- A number: digits without leading zeros, then possibly a fraction and an exponent. -/
def readNumber (cs : List Char) : Option (Json × List Char) := do
  let (neg, cs) := readMinus cs
  let (whole, rest) ← readDigits cs
  if whole.head? = some '0' ∧ 1 < whole.length then none
  let (fraction, rest) ← readFraction rest
  let (exponent, rest) ← readScale rest
  return (number neg whole fraction exponent, rest)

/-- Remove a word from the front of a text. -/
def readWord (word : String) (j : Json) (cs : List Char) : Option (Json × List Char) :=
  if word.toList.isPrefixOf cs then some (j, cs.drop word.length) else none

/-- An array or object in a place where arrays and objects may be nested `room` deep. -/
def within (room : Nat) (j : Json) : Json := if room = 0 then unreadable else j

mutual

/-- The value at the front of a text.  Arrays and objects may be nested `room` deep in it. -/
def readValue : (fuel room : Nat) → List Char → Option (Json × List Char)
  | 0, _, _ => none
  | fuel + 1, room, cs =>
    match skipBlank cs with
    | [] => none
    | '"' :: rest =>
      (readString fuel (some []) rest).map fun (s, rest) => (s.elim unreadable str, rest)
    | '[' :: rest =>
      match skipBlank rest with
      | ']' :: rest => some (within room (arr []), rest)
      | rest => readItems fuel room [] rest
    | '{' :: rest =>
      match skipBlank rest with
      | '}' :: rest => some (within room (obj []), rest)
      | rest => readFields fuel room (some []) rest
    | 'n' :: rest => readWord "null" null ('n' :: rest)
    | 't' :: rest => readWord "true" (bool true) ('t' :: rest)
    | 'f' :: rest => readWord "false" (bool false) ('f' :: rest)
    | rest => readNumber rest

/-- The items of an array up to its closing bracket, given the items read so far in reverse
order. -/
def readItems : (fuel room : Nat) → (done : List Json) → List Char → Option (Json × List Char)
  | 0, _, _, _ => none
  | fuel + 1, room, done, cs =>
    match readValue fuel (room - 1) cs with
    | none => none
    | some (x, rest) =>
      match skipBlank rest with
      | ',' :: rest => readItems fuel room (x :: done) rest
      | ']' :: rest => some (within room (arr (x :: done).reverse), rest)
      | _ => none

/-- The fields of an object up to its closing brace, given the fields read so far in reverse
order, unless one of them has no name. -/
def readFields : (fuel room : Nat) → (done : Option (List (String × Json))) → List Char →
    Option (Json × List Char)
  | 0, _, _, _ => none
  | fuel + 1, room, done, cs =>
    match skipBlank cs with
    | '"' :: rest =>
      match readString fuel (some []) rest with
      | none => none
      | some (name, rest) =>
        match skipBlank rest with
        | ':' :: rest =>
          match readValue fuel (room - 1) rest with
          | none => none
          | some (x, rest) =>
            let done := done.bind fun fields => name.map fun name => (name, x) :: fields
            match skipBlank rest with
            | ',' :: rest => readFields fuel room done rest
            | '}' :: rest =>
              some (within room (done.elim unreadable fun fields => obj fields.reverse), rest)
            | _ => none
        | _ => none
    | _ => none

end

/-- How deep arrays and objects may be nested in data that are not ignored. -/
def maxDepth : Nat := 127

/-- Read a text that consists of one value and blanks around it.  Every second step of the reader
takes a character, which bounds their number. -/
def read? (text : String) : Option Json :=
  let cs := text.toList
  match readValue (2 * cs.length + 2) maxDepth cs with
  | some (j, rest) => if (skipBlank rest).isEmpty then some j else none
  | none => none

end Json

end Roundoff
