/-
# Tokens

The tokens of a YAML text.  Apart from what is written, there are tokens for the beginning and the
end of block collections, which follow from the indentation, and for implicit keys, which show only
when the colon after them is read: the token for the key is then put in front of what has been read
since the key began.
-/
import Roundoff.Yaml.Scalar
import Roundoff.Yaml.Tag

namespace Roundoff

namespace Yaml

/-- A token. -/
inductive Token where
  | directive (d : Directive)
  | documentStart
  | documentEnd
  /-- The beginning of a sequence that is structured by indentation. -/
  | blockSequence
  /-- The beginning of a mapping that is structured by indentation. -/
  | blockMapping
  /-- The end of a collection that is structured by indentation. -/
  | blockEnd
  | flowSequence
  | flowSequenceEnd
  | flowMapping
  | flowMappingEnd
  /-- The hyphen in front of an item. -/
  | item
  /-- The comma between items. -/
  | comma
  /-- The beginning of a key, written or not. -/
  | key
  /-- The colon in front of a value. -/
  | value
  | anchor (name : String)
  | alias (name : String)
  | tag (t : WrittenTag)
  | scalar (style : ScalarStyle) (text : String)
deriving DecidableEq, Repr

/-- A place at which an implicit key may have begun. -/
structure PossibleKey where
  /-- Whether something is wrong with the indentation if no key has begun. -/
  required : Bool
  /-- The number of tokens before the place. -/
  tokens : Nat
  /-- The number of octets before the place. -/
  offset : Nat
  /-- The line of the place. -/
  line : Nat
  /-- The column of the place. -/
  column : Nat
deriving Repr

/-- Whether a key that began at a place would be too long: it must end in its line, and have at most
1024 octets. -/
def PossibleKey.isStale (k : PossibleKey) (c : Cursor) : Bool :=
  k.line < c.line || k.offset + 1024 < c.offset

/-- A text while its tokens are read. -/
structure Lexer where
  /-- The rest of the text. -/
  cursor : Cursor
  /-- The tokens read, the last one in front. -/
  tokens : List Token := []
  /-- The columns of the block collections that are open, the innermost one in front. -/
  columns : List Nat := []
  /-- Whether an implicit key may begin at the cursor. -/
  keyAllowed : Bool := true
  /-- Where an implicit key may have begun, within the innermost brackets. -/
  key : Option PossibleKey := none
  /-- Where implicit keys may have begun outside of the brackets that are open, the innermost in
  front. -/
  outerKeys : List (Option PossibleKey) := []

namespace Lexer

/-- Whether the cursor is in brackets. -/
def inFlow (l : Lexer) : Bool := !l.outerKeys.isEmpty

/-- The first column to the right of the innermost block collection. -/
def least (l : Lexer) : Nat := l.columns.head?.elim 0 (· + 1)

/-- Add a token and go on behind it. -/
def add (l : Lexer) (t : Token) (c : Cursor) : Lexer := { l with tokens := t :: l.tokens, cursor := c }

/-- Add a token that is an indicator of the given length. -/
def addSign (l : Lexer) (t : Token) (length : Nat) : Lexer := l.add t (l.cursor.pass length)

/-! ## Block collections -/

/-- Whether a block collection begins at a column. -/
def opensAt (l : Lexer) (column : Nat) : Bool := !l.inFlow && l.least ≤ column

/-- Begin a block collection at the cursor, unless one is open at its column. -/
def openBlock (l : Lexer) (t : Token) : Lexer :=
  if l.opensAt l.cursor.column then
    { l with tokens := t :: l.tokens, columns := l.cursor.column :: l.columns }
  else l

/-- End the block collections to the right of a column. -/
def closeBlocks (l : Lexer) (column : Nat) : Lexer :=
  if l.inFlow then l
  else
    let closed := l.columns.takeWhile (column < ·)
    { l with
      tokens := List.replicate closed.length .blockEnd ++ l.tokens
      columns := l.columns.drop closed.length }

/-- End all block collections. -/
def closeAll (l : Lexer) : Lexer :=
  if l.inFlow then l
  else
    { l with tokens := List.replicate l.columns.length .blockEnd ++ l.tokens, columns := [] }

/-! ## Implicit keys -/

/-- Forget where a key may have begun; it is an error if a key is required there. -/
def dropKey (l : Lexer) : Option Lexer :=
  if l.key.any PossibleKey.required then none else some { l with key := none }

/-- Note that a key may begin at the cursor. -/
def noteKey (l : Lexer) : Option Lexer :=
  if l.keyAllowed then
    let c := l.cursor
    let required := !l.inFlow && l.columns.head? = some c.column
    l.dropKey.map fun l =>
      { l with key := some ⟨required, l.tokens.length, c.offset, c.line, c.column⟩ }
  else some l

/-- Forget a possible key that has become too long; it is an error if a key is required there. -/
def checkKey (c : Cursor) : Option PossibleKey → Option (Option PossibleKey)
  | none => some none
  | some k =>
    if k.isStale c then (if k.required then none else some none) else some (some k)

/-- Forget all possible keys that have become too long. -/
def checkKeys (l : Lexer) : Option Lexer := do
  let key ← checkKey l.cursor l.key
  let outerKeys ← l.outerKeys.mapM (checkKey l.cursor)
  return { l with key := key, outerKeys := outerKeys }

/-- Put the token for a key in front of the tokens that have been read since it began.  With the
first key of a block mapping the mapping begins. -/
def insertKey (l : Lexer) (k : PossibleKey) : Lexer :=
  let since := l.tokens.length - k.tokens
  let opens := l.opensAt k.column
  { l with
    tokens := l.tokens.take since
      ++ .key :: (if opens then [.blockMapping] else []) ++ l.tokens.drop since
    columns := if opens then k.column :: l.columns else l.columns
    key := none }

/-! ## Kinds of tokens -/

/-- Read a directive. -/
def readDirective (l : Lexer) : Option Lexer := do
  let l ← l.closeAll.dropKey
  let (d, c) ← Yaml.readDirective l.cursor
  return { l.add (.directive d) c with keyAllowed := false }

/-- Read the mark of the beginning or the end of a document. -/
def readDocumentMark (l : Lexer) (t : Token) : Option Lexer := do
  let l ← l.closeAll.dropKey
  return { l.addSign t 3 with keyAllowed := false }

/-- Read an opening bracket. -/
def openFlow (l : Lexer) (t : Token) : Option Lexer := do
  let l ← l.noteKey
  return { l.addSign t 1 with keyAllowed := true, key := none, outerKeys := l.key :: l.outerKeys }

/-- Read a closing bracket. -/
def closeFlow (l : Lexer) (t : Token) : Option Lexer := do
  let l ← l.dropKey
  return { l.addSign t 1 with
    keyAllowed := false, key := l.outerKeys.headD none, outerKeys := l.outerKeys.tail }

/-- Read a comma. -/
def readComma (l : Lexer) : Option Lexer := do
  let l ← l.dropKey
  return { l.addSign .comma 1 with keyAllowed := true }

/-- Read the hyphen of an item. -/
def readItem (l : Lexer) : Option Lexer := do
  if l.inFlow ∨ l.keyAllowed then
    let l ← (l.openBlock .blockSequence).dropKey
    return { l.addSign .item 1 with keyAllowed := true }
  else none

/-- Read the question mark of a key. -/
def readKey (l : Lexer) : Option Lexer := do
  if l.inFlow ∨ l.keyAllowed then
    let l ← (l.openBlock .blockMapping).dropKey
    return { l.addSign .key 1 with keyAllowed := !l.inFlow }
  else none

/-- Read the colon of a value. -/
def readValue (l : Lexer) : Option Lexer :=
  match l.key with
  | some k => some { (l.insertKey k).addSign .value 1 with keyAllowed := false }
  | none =>
    if l.inFlow ∨ l.keyAllowed then
      some { (l.openBlock .blockMapping).addSign .value 1 with keyAllowed := !l.inFlow }
    else none

/-- Signs that may follow the name of an anchor. -/
def nameEnds : List Char := "?:,]\x7d%@\x60".toList

/-- Read an anchor or an alias, whose name ends at a blank or an indicator. -/
def readName (l : Lexer) (token : String → Token) : Option Lexer := do
  let l ← l.noteKey
  let c := l.cursor.pass 1
  let name := c.rest.takeWhile isNameChar
  let c := c.pass name.length
  if !name.isEmpty && (atWordEnd c.rest || c.head?.any nameEnds.contains) then
    return { l.add (token (String.ofList name)) c with keyAllowed := false }
  else none

/-- Read a tag. -/
def readTag (l : Lexer) : Option Lexer := do
  let l ← l.noteKey
  let (t, c) ← Yaml.readTag l.inFlow l.cursor
  return { l.add (.tag t) c with keyAllowed := false }

/-- Read a block of lines. -/
def readBlock (l : Lexer) (style : ScalarStyle) : Option Lexer := do
  let l ← l.dropKey
  let (text, c) ← blockScalar (style = .folded) l.columns.head? (l.cursor.pass 1)
  return { l.add (.scalar style (String.ofList text)) c with keyAllowed := true }

/-- Read a scalar in quotes. -/
def readQuoted (l : Lexer) (style : ScalarStyle) : Option Lexer := do
  let l ← l.noteKey
  let (text, c) ← quotedScalar (style = .double) (l.cursor.pass 1)
  return { l.add (.scalar style (String.ofList text)) c with keyAllowed := false }

/-- Read a scalar without quotes.  After a line break an implicit key may begin. -/
def readPlain (l : Lexer) : Option Lexer := do
  let l ← l.noteKey
  let (text, broken, c) ← plainScalar l.inFlow l.least l.cursor
  return { l.add (.scalar .plain (String.ofList text)) c with keyAllowed := broken }

/-! ## Texts -/

/-- Characters that cannot begin a scalar without quotes. -/
def indicators : List Char := flowIndicators ++ "#&*!|>'\"%@\x60".toList

/-- Whether a scalar without quotes can begin with `c` in front of `rest`. -/
def isPlainStart (inFlow : Bool) (c : Char) (rest : List Char) : Bool :=
  if c = '-' then !rest.head?.any isBlank
  else if c = '?' || c = ':' then !inFlow && !atWordEnd rest
  else !isSpace c && !indicators.contains c

/-- Read the token at the cursor, which is the character `c` in front of `rest`. -/
def readToken (l : Lexer) (c : Char) (rest : List Char) : Option Lexer :=
  if l.cursor.column = 0 ∧ c = '%' then l.readDirective
  else if l.cursor.atMark "---" then l.readDocumentMark .documentStart
  else if l.cursor.atMark "..." then l.readDocumentMark .documentEnd
  else if c = '[' then l.openFlow .flowSequence
  else if c = '\x7b' then l.openFlow .flowMapping
  else if c = ']' then l.closeFlow .flowSequenceEnd
  else if c = '\x7d' then l.closeFlow .flowMappingEnd
  else if c = ',' then l.readComma
  else if c = '-' ∧ atWordEnd rest then l.readItem
  else if c = '?' ∧ (l.inFlow ∨ atWordEnd rest) then l.readKey
  else if c = ':' ∧ (l.inFlow ∨ atWordEnd rest) then l.readValue
  else if c = '*' then l.readName .alias
  else if c = '&' then l.readName .anchor
  else if c = '!' then l.readTag
  else if c = '|' ∧ ¬ l.inFlow then l.readBlock .literal
  else if c = '>' ∧ ¬ l.inFlow then l.readBlock .folded
  else if c = '\'' then l.readQuoted .single
  else if c = '"' then l.readQuoted .double
  else if isPlainStart l.inFlow c rest then l.readPlain
  else none

/-- Read the tokens of the rest of a text, each of which takes at least one character. -/
def readTokens : (letters : Nat) → Lexer → Option (List Token)
  | 0, _ => none
  | letters + 1, l => do
    let (keyAllowed, c) := l.cursor.toToken l.inFlow (l.cursor.rest.length + 1) l.keyAllowed
    let l ← checkKeys { l with cursor := c, keyAllowed := keyAllowed }
    let l := l.closeBlocks c.column
    match c.rest with
    | [] => return (← l.closeAll.dropKey).tokens.reverse
    | ch :: rest => readTokens letters (← l.readToken ch rest)

end Lexer

/-- The tokens of a text, in which only characters occur that are allowed. -/
def tokens? (text : String) : Option (List Token) :=
  let cs := text.toList
  if cs.all isAllowed then Lexer.readTokens (cs.length + 1) { cursor := .start cs } else none

end Yaml

end Roundoff
