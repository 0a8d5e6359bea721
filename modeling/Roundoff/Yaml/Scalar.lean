/-
# Scalars

A scalar is written in one of five styles: without quotes, in single or double quotes, or as a block
of lines that is kept or folded.  Reading a scalar gives its text, in which escapes are replaced and
line breaks are folded as the style says.
-/
import Roundoff.Yaml.Cursor

namespace Roundoff

namespace Yaml

/-- How a scalar is written. -/
inductive ScalarStyle where
  /-- Without quotes. -/
  | plain
  /-- In single quotes. -/
  | single
  /-- In double quotes. -/
  | double
  /-- As a block whose lines are kept. -/
  | literal
  /-- As a block whose lines are folded. -/
  | folded
deriving DecidableEq, Repr

/-! ## Plain scalars -/

/-- A word of a plain scalar.  It ends before a colon that ends a word, and in brackets before an
indicator; a colon directly before an indicator is an error there. -/
def plainWord? (inFlow : Bool) : List Char → Option (List Char)
  | [] => some []
  | c :: cs =>
    if isSpace c then some []
    else if inFlow && c = ':' && cs.head?.any ('?' :: flowIndicators).contains then none
    else if (c = ':' && atWordEnd cs) || (inFlow && flowIndicators.contains c) then some []
    else (plainWord? inFlow cs).map (c :: ·)

/-- The rest of a plain scalar, where `done` is what precedes a gap that stands for `gap`, and
`broken` says whether the gap has a line break.  Lines after the first one begin at column `least`
or further right, unless the scalar is in brackets.  The answer says whether the scalar is followed
by a line break. -/
def plainFrom (inFlow : Bool) (least : Nat) :
    (words : Nat) → (done gap : List Char) → (broken : Bool) → Cursor →
      Option (List Char × Bool × Cursor)
  | 0, _, _, _, _ => none
  | words + 1, done, gap, broken, c =>
    if c.atDocumentMark || c.head? = some '#' then some (done, broken, c)
    else
      match plainWord? inFlow c.rest with
      | none => none
      | some [] => some (done, broken, c)
      | some word =>
        let done := done ++ gap ++ word
        let (g, c) := (c.pass word.length).gap
        let broken := !g.breaks.isEmpty
        if g.hasTabBefore least then none
        else if !inFlow && c.column < least then some (done, broken, c)
        else plainFrom inFlow least words done g.folded broken c

/-- Read a plain scalar. -/
def plainScalar (inFlow : Bool) (least : Nat) (c : Cursor) : Option (List Char × Bool × Cursor) :=
  plainFrom inFlow least (c.rest.length + 1) [] [] false c

/-! ## Scalars in quotes -/

/-- The number that some hexadecimal digits stand for. -/
def hexNumber? (cs : List Char) : Option Nat :=
  cs.foldlM (fun n c => (Json.hexValue? c).map fun d => 16 * n + d) 0

/-- The character with the number that the given count of hexadecimal digits stands for. -/
def hexChar? (count : Nat) (cs : List Char) : Option (Char × List Char) := do
  let digits := cs.take count
  let n ← hexNumber? digits
  if digits.length = count ∧ n.isValidChar then some (Char.ofNat n, cs.drop count) else none

/-- The character that an escape stands for; the text begins after the backslash. -/
def escape? : List Char → Option (Char × List Char)
  | '0' :: cs => some ('\x00', cs)
  | 'a' :: cs => some ('\x07', cs)
  | 'b' :: cs => some ('\x08', cs)
  | 't' :: cs | '\t' :: cs => some ('\t', cs)
  | 'n' :: cs => some ('\n', cs)
  | 'v' :: cs => some ('\x0b', cs)
  | 'f' :: cs => some ('\x0c', cs)
  | 'r' :: cs => some ('\r', cs)
  | 'e' :: cs => some ('\x1b', cs)
  | ' ' :: cs => some (' ', cs)
  | '"' :: cs => some ('"', cs)
  | '/' :: cs => some ('/', cs)
  | '\\' :: cs => some ('\\', cs)
  | 'N' :: cs => some ('\u0085', cs)
  | '_' :: cs => some ('\u00a0', cs)
  | 'L' :: cs => some ('\u2028', cs)
  | 'P' :: cs => some ('\u2029', cs)
  | 'x' :: cs => hexChar? 2 cs
  | 'u' :: cs => hexChar? 4 cs
  | 'U' :: cs => hexChar? 8 cs
  | _ => none

/-- How a word in quotes ends. -/
inductive WordEnd where
  /-- At the closing quote. -/
  | quote
  /-- At a gap, or at the end of the text. -/
  | gap
  /-- At a line break that is escaped and joins what it separates. -/
  | escapedBreak

/-- A word in single quotes, where two quotes stand for one. -/
def singleWord : List Char → List Char × WordEnd × List Char
  | [] => ([], .gap, [])
  | '\'' :: '\'' :: cs =>
    let (word, how, rest) := singleWord cs
    ('\'' :: word, how, rest)
  | c :: cs =>
    if isSpace c then ([], .gap, c :: cs)
    else if c = '\'' then ([], .quote, c :: cs)
    else
      let (word, how, rest) := singleWord cs
      (c :: word, how, rest)

/-- A word in double quotes; `done` is its beginning in reverse order. -/
def doubleWord : (letters : Nat) → (done : List Char) → List Char →
    Option (List Char × WordEnd × List Char)
  | 0, _, _ => none
  | letters + 1, done, cs =>
    match cs with
    | [] => some (done.reverse, .gap, [])
    | '\\' :: rest =>
      if rest.head?.any isBreak then some (done.reverse, .escapedBreak, rest)
      else
        match escape? rest with
        | some (c, rest) => doubleWord letters (c :: done) rest
        | none => none
    | c :: rest =>
      if isSpace c then some (done.reverse, .gap, cs)
      else if c = '"' then some (done.reverse, .quote, cs)
      else doubleWord letters (c :: done) rest

/-- A word in double or single quotes. -/
def quotedWord (double : Bool) (cs : List Char) : Option (List Char × WordEnd × List Char) :=
  if double then doubleWord (cs.length + 1) [] cs else some (singleWord cs)

/-- The rest of a scalar in quotes, where `done` is what precedes the cursor.  The marks of
documents may not stand in front of a line. -/
def quotedFrom (double : Bool) :
    (words : Nat) → (done : List Char) → Cursor → Option (List Char × Cursor)
  | 0, _, _ => none
  | words + 1, done, c =>
    if c.atDocumentMark || c.rest.isEmpty then none
    else
      match quotedWord double c.rest with
      | none => none
      | some (word, .quote, rest) => some (done ++ word, (c.passTo rest).pass 1)
      | some (word, .gap, rest) =>
        let (g, c) := (c.passTo rest).gap
        quotedFrom double words (done ++ word ++ g.folded) c
      | some (word, .escapedBreak, rest) =>
        let (g, c) := (c.passTo rest).gap
        quotedFrom double words (done ++ word ++ g.emptyLines) c

/-- Read a scalar in quotes whose opening quote has been read. -/
def quotedScalar (double : Bool) (c : Cursor) : Option (List Char × Cursor) :=
  quotedFrom double (c.rest.length + 1) [] c

/-! ## Blocks of lines -/

/-- What becomes of the line breaks at the end of a block. -/
inductive Chomping where
  /-- The last line keeps its break, and empty lines are dropped. -/
  | clip
  /-- All line breaks are dropped. -/
  | strip
  /-- All line breaks are kept. -/
  | keep
deriving DecidableEq, Repr

/-- What is said of a block in front of its lines. -/
structure BlockHeader where
  /-- What becomes of the line breaks at the end. -/
  chomping : Chomping := .clip
  /-- How much further than the block around it the block is indented. -/
  indent : Option Nat := none
deriving Repr

namespace BlockHeader

/-- The chomping that a sign stands for. -/
def chomping? : Char → Option Chomping
  | '+' => some .keep
  | '-' => some .strip
  | _ => none

/-- Read the sign for the chomping, if there is one. -/
def readChomping (h : BlockHeader) (c : Cursor) : BlockHeader × Cursor :=
  match c.head?.bind chomping? with
  | some chomping => ({ h with chomping := chomping }, c.pass 1)
  | none => (h, c)

/-- Read the digit for the indentation, if there is one; it is not zero. -/
def readIndent (h : BlockHeader) (c : Cursor) : Option (BlockHeader × Cursor) :=
  match c.head? with
  | some d =>
    if d = '0' then none
    else if d.isDigit then some ({ h with indent := some (d.toNat - '0'.toNat) }, c.pass 1)
    else some (h, c)
  | none => some (h, c)

/-- Read the sign and the digit in either order. -/
def read (c : Cursor) : Option (BlockHeader × Cursor) :=
  match c.head?.bind chomping? with
  | some chomping => readIndent { chomping := chomping } (c.pass 1)
  | none => (readIndent {} c).map fun (h, c) => h.readChomping c

end BlockHeader

/-- The spaces in front of a line, at most up to column `indent` if that is given. -/
def Cursor.passIndent (indent : Option Nat) (c : Cursor) : Cursor :=
  let spaces := (c.rest.takeWhile (· = ' ')).length
  c.pass (match indent with
    | some n => min spaces (n - c.column)
    | none => spaces)

/-- Pass over empty lines and the spaces in front of the next line.  Answers the line breaks in
reverse order, and the greatest column reached, given those of the lines before.  A tab may not take
the place of a space. -/
def blankLines (indent : Option Nat) :
    (lines : Nat) → (breaks : List Char) → (deepest : Nat) → Cursor →
      Option (List Char × Nat × Cursor)
  | 0, _, _, _ => none
  | lines + 1, breaks, deepest, c =>
    let c := c.passIndent indent
    let deepest := max deepest c.column
    if indent.all (c.column < ·) && c.head? = some '\t' then none
    else
      match c.lineBreak? with
      | some (b, c) => blankLines indent lines (b :: breaks) deepest c
      | none => some (breaks, deepest, c)

/-- A block while it is read. -/
structure BlockText where
  /-- The lines so far, without the last line break. -/
  text : List Char := []
  /-- The break of the last line; none at the beginning, or where the text ends. -/
  lastBreak : List Char := []
  /-- The breaks of the empty lines that follow. -/
  emptyLines : List Char := []
  /-- Whether the last line begins with a blank. -/
  indented : Bool := false

namespace BlockText

/-- What stands between the last line and the next one, which begins with a blank if `indented` is
set.  Between lines that begin without one, a line break is folded. -/
def between (folding indented : Bool) (b : BlockText) : List Char :=
  if folding && b.lastBreak = ['\n'] && !b.indented && !indented then
    if b.emptyLines.isEmpty then [' '] else b.emptyLines
  else b.lastBreak ++ b.emptyLines

/-- The text of the block. -/
def finish (b : BlockText) : Chomping → List Char
  | .strip => b.text
  | .clip => b.text ++ b.lastBreak
  | .keep => b.text ++ b.lastBreak ++ b.emptyLines

/-- Read the lines of a block that begin at column `indent`. -/
def readLines (folding : Bool) (indent : Nat) :
    (lines : Nat) → BlockText → Cursor → Option (BlockText × Cursor)
  | 0, _, _ => none
  | lines + 1, b, c =>
    if c.column = indent ∧ ¬ c.rest.isEmpty then
      let indented := c.head?.any isBlank
      let line := c.rest.takeWhile fun ch => !isBreak ch
      let text := b.text ++ b.between folding indented ++ line
      let c := c.pass line.length
      let (lastBreak, c) :=
        match c.lineBreak? with
        | some (ch, c) => ([ch], c)
        | none => ([], c)
      match blankLines (some indent) (c.rest.length + 1) [] 0 c with
      | some (breaks, _, c) =>
        readLines folding indent lines ⟨text, lastBreak, breaks.reverse, indented⟩ c
      | none => none
    else some (b, c)

end BlockText

/-- Read a block of lines whose indicator has been read.  The innermost block collection around it
begins at column `around`, if there is one.  Without a digit in the header the first line that is
not empty sets the indentation. -/
def blockScalar (folding : Bool) (around : Option Nat) (c : Cursor) :
    Option (List Char × Cursor) := do
  let (header, c) ← BlockHeader.read c
  let c ← c.endLine?
  let given := header.indent.map fun n => around.elim n (· + n)
  let (breaks, deepest, c) ← blankLines given (c.rest.length + 1) [] 0 c
  let least := around.elim 1 (· + 1)
  let indent := given.getD (max deepest least)
  let (b, c) ← BlockText.readLines folding indent (c.rest.length + 1)
    { emptyLines := breaks.reverse } c
  return (b.finish header.chomping, c)

end Yaml

end Roundoff
