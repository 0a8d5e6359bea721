/-
# Places in a text

Layout has a meaning in YAML, so the rest of a text is read together with its place: the column says
to which block a token belongs, and the line and the offset say how far an implicit key reaches.
-/
import Roundoff.Json

namespace Roundoff

namespace Yaml

/-! ## Characters -/

/-- Whether a character separates words. -/
def isBlank (c : Char) : Bool := c = ' ' || c = '\t'

/-- Whether a character separates lines or paragraphs without being a line end of plain text. -/
def isSeparator (c : Char) : Bool := c = '\u2028' || c = '\u2029'

/-- Whether a character ends a line: a line feed, a carriage return, the character for the next
line, or a separator. -/
def isBreak (c : Char) : Bool := c = '\n' || c = '\r' || c = '\u0085' || isSeparator c

/-- Whether a character is a blank or ends a line. -/
def isSpace (c : Char) : Bool := isBlank c || isBreak c

/-- Whether a text ends or goes on with a blank or a line break. -/
def atWordEnd : List Char → Bool
  | [] => true
  | c :: _ => isSpace c

/-- Whether a character may stand in the name of an anchor. -/
def isNameChar (c : Char) : Bool := c.isAlphanum || c = '_' || c = '-'

/-- Characters that structure collections in brackets. -/
def flowIndicators : List Char := [',', '[', ']', '\x7b', '\x7d']

/-- Whether a character may occur in a text at all.  Of the control characters only the tab and line
ends may. -/
def isAllowed (c : Char) : Bool :=
  isSpace c || (' ' ≤ c && c ≤ '~') || ('\u00a0' ≤ c && c ≠ '\ufffe' && c ≠ '\uffff')

/-- The number of octets of a text in UTF-8. -/
def octetCount (cs : List Char) : Nat := cs.foldr (fun c n => c.utf8Size + n) 0

/-! ## Cursors -/

/-- The rest of a text and its place. -/
structure Cursor where
  /-- The characters that have not been read. -/
  rest : List Char
  /-- The number of octets before the place, in UTF-8. -/
  offset : Nat
  /-- The number of lines before the place. -/
  line : Nat
  /-- The number of characters before the place in its line. -/
  column : Nat
deriving Repr

namespace Cursor

/-- The beginning of a text. -/
def start (text : List Char) : Cursor := ⟨text, 0, 0, 0⟩

/-- The next character. -/
def head? (c : Cursor) : Option Char := c.rest.head?

/-- Pass over some characters of a line. -/
def pass (c : Cursor) (n : Nat) : Cursor :=
  ⟨c.rest.drop n, c.offset + octetCount (c.rest.take n), c.line, c.column + n⟩

/-- Pass over the characters of a line in front of `rest`. -/
def passTo (c : Cursor) (rest : List Char) : Cursor := c.pass (c.rest.length - rest.length)

/-- Pass over the characters of a line that have a property. -/
def passWhile (c : Cursor) (p : Char → Bool) : Cursor := c.pass (c.rest.takeWhile p).length

/-- Pass over a line break, if the cursor is at one.  A carriage return and a line feed are one
break.  Within a scalar a break stands for a line feed, unless it is a separator, which stays as it
is. -/
def lineBreak? (c : Cursor) : Option (Char × Cursor) :=
  match c.rest with
  | '\r' :: '\n' :: rest => some ('\n', ⟨rest, c.offset + 2, c.line + 1, 0⟩)
  | b :: rest =>
    if isBreak b then
      some (if isSeparator b then b else '\n', ⟨rest, c.offset + b.utf8Size, c.line + 1, 0⟩)
    else none
  | [] => none

/-- Pass over the rest of a line. -/
def passLine (c : Cursor) : Cursor := c.passWhile fun ch => !isBreak ch

/-- Pass over a comment, if the cursor is at one. -/
def passComment (c : Cursor) : Cursor := if c.head? = some '#' then c.passLine else c

/-- Pass over the end of a line, which has only blanks and a comment before its break. -/
def endLine? (c : Cursor) : Option Cursor :=
  let c := (c.passWhile isBlank).passComment
  if c.rest.isEmpty then some c else c.lineBreak?.map Prod.snd

/-- Whether a line begins with the given mark, which a blank or the end of the line must follow. -/
def atMark (c : Cursor) (mark : String) : Bool :=
  c.column = 0 && mark.toList.isPrefixOf c.rest && atWordEnd (c.rest.drop mark.length)

/-- Whether the cursor is at the mark of the beginning or the end of a document. -/
def atDocumentMark (c : Cursor) : Bool := c.atMark "---" || c.atMark "..."

/-- Pass over blanks, comments and line breaks up to the next token, and say whether an implicit key
may begin there, given whether one might begin at the cursor.  It may after a line break, but not in
brackets (`inFlow`).  Tabs cannot stand in front of an implicit key, and a byte order mark may stand
in front of a line. -/
def toToken (inFlow : Bool) : (lines : Nat) → (keyAllowed : Bool) → Cursor → Bool × Cursor
  | 0, keyAllowed, c => (keyAllowed, c)
  | lines + 1, keyAllowed, c =>
    let c := if c.column = 0 ∧ c.head? = some '\ufeff' then c.pass 1 else c
    let c := c.passWhile fun ch => ch = ' ' || ((inFlow || !keyAllowed) && ch = '\t')
    let c := c.passComment
    match c.lineBreak? with
    | some (_, c) => toToken inFlow lines (keyAllowed || !inFlow) c
    | none => (keyAllowed, c)

end Cursor

/-! ## Gaps between words -/

/-- The blanks and line breaks between two words of a scalar. -/
structure Gap where
  /-- The blanks behind the first word. -/
  blanks : List Char
  /-- The line breaks, each with the blanks in front of its line. -/
  breaks : List (Char × List Char)
deriving Repr

/-- Read line breaks, each with the blanks that follow it. -/
def Cursor.breaks : (lines : Nat) → Cursor → List (Char × List Char) × Cursor
  | 0, c => ([], c)
  | lines + 1, c =>
    match c.lineBreak? with
    | none => ([], c)
    | some (b, c) =>
      let blanks := c.rest.takeWhile isBlank
      let (more, c) := (c.pass blanks.length).breaks lines
      ((b, blanks) :: more, c)

/-- Read the gap at the cursor. -/
def Cursor.gap (c : Cursor) : Gap × Cursor :=
  let blanks := c.rest.takeWhile isBlank
  let (breaks, c) := (c.pass blanks.length).breaks c.rest.length
  (⟨blanks, breaks⟩, c)

namespace Gap

/-- The line breaks after the first one. -/
def emptyLines (g : Gap) : List Char := g.breaks.tail.map Prod.fst

/-- What a gap stands for.  Blanks within a line stand for themselves.  A line break is folded: it
stands for a space, or for the empty lines that follow it.  A separator is not folded. -/
def folded (g : Gap) : List Char :=
  match g.breaks with
  | [] => g.blanks
  | (b, _) :: _ =>
    if b = '\n' then (if g.emptyLines.isEmpty then [' '] else g.emptyLines)
    else b :: g.emptyLines

/-- Whether a tab stands in front of column `least` of a line. -/
def hasTabBefore (g : Gap) (least : Nat) : Bool :=
  g.breaks.any fun (_, blanks) => (blanks.take least).contains '\t'

end Gap

end Yaml

end Roundoff
