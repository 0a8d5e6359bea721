/-
# The tokens of lines

A line of a block mapping is a word, a colon, and a word as the value, or its value is a mapping
that begins in the next line and is indented further.  Two steps of the lexer read a word with its
colon, and a third one the value.  The token for the key is put in front of the word when the colon
is read, and a mapping begins with the first of its keys.
-/
import Mathlib
import Roundoff.Proofs.Yaml.Words
import Roundoff.Yaml.Token

namespace Roundoff.Yaml

namespace Lexer

variable {name value rest : List Char} {ts : List Token} {columns : List ℕ} {c : Cursor} {ch : Char}
  {keyAllowed : Bool} {k n off line col : ℕ}

/-! ## States -/

/-- The lexer between two tokens outside of brackets, where no key has begun. -/
def between (keyAllowed : Bool) (ts : List Token) (columns : List ℕ) (c : Cursor) : Lexer :=
  { cursor := c, tokens := ts, columns := columns, keyAllowed := keyAllowed }

/-- No block collection ends at a column. -/
def EndsNone (columns : List ℕ) (col : ℕ) : Prop := ∀ d ∈ columns.head?, d ≤ col

namespace EndsNone

lemma mono {col' : ℕ} (h : EndsNone columns col) (hle : col ≤ col') : EndsNone columns col' :=
  fun d hd => (h d hd).trans hle

lemma takeWhile_eq (h : EndsNone columns col) :
    columns.takeWhile (fun d => decide (col < d)) = [] := by
  cases columns with
  | nil => rfl
  | cons d columns =>
    refine List.takeWhile_cons_of_neg ?_
    rw [decide_eq_true_eq, not_lt]
    exact h d rfl

lemma closeBlocks_eq {l : Lexer} (h : EndsNone l.columns col) : l.closeBlocks col = l := by
  rw [closeBlocks, h.takeWhile_eq]
  split
  · rfl
  · rfl

end EndsNone

/-! ## One token -/

/-- A token that begins with a character is read where the cursor gets between tokens. -/
lemma readTokens_step {l l' l'' : Lexer} (ch : Char) (rest : List Char)
    (htoken : l.cursor.toToken l.inFlow (l.cursor.rest.length + 1) l.keyAllowed = (keyAllowed, c))
    (hcheck : checkKeys { l with cursor := c, keyAllowed := keyAllowed } = some l')
    (hclose : EndsNone l'.columns c.column) (hc : c.rest = ch :: rest)
    (hread : l'.readToken ch rest = some l'') :
    readTokens (n + 1) l = readTokens n l'' := by
  rw [readTokens, htoken]
  simp only [hcheck, Option.bind_eq_bind, Option.bind_some, hclose.closeBlocks_eq, hc, hread]

/-- A word begins a plain scalar. -/
lemma readToken_word {l : Lexer} (hc : isWordChar ch = true) (hl : l.cursor.rest = ch :: rest) :
    l.readToken ch rest = l.readPlain := by
  have hne {d : Char} (hd : isWordChar d = false) : ch ≠ d := ne_of_isWordChar hc hd
  have hmark (mark : String) {d : Char} {ds : List Char} (hd : isWordChar d = false)
      (hmark : mark.toList = d :: ds) : l.cursor.atMark mark = false := by
    simp [Cursor.atMark, hl, hmark, List.isPrefixOf, (hne hd).symm]
  have hstart : isPlainStart l.inFlow ch rest = true := by
    have hindicator : ch ∉ indicators := by
      intro hmem
      have hall : (indicators.all fun d => !isWordChar d) = true := rfl
      have hch := List.all_eq_true.1 hall ch hmem
      rw [hc] at hch
      cases hch
    rw [isPlainStart, if_neg (hne rfl)]
    simp [hne (d := '?') rfl, hne (d := ':') rfl, isSpace_of_isWordChar hc, hindicator]
  rw [readToken, if_neg fun h => hne rfl h.2, hmark "---" rfl rfl, if_neg Bool.false_ne_true,
    hmark "..." rfl rfl, if_neg Bool.false_ne_true, if_neg (hne rfl), if_neg (hne rfl),
    if_neg (hne rfl), if_neg (hne rfl), if_neg (hne rfl), if_neg fun h => hne rfl h.1,
    if_neg fun h => hne rfl h.1, if_neg fun h => hne rfl h.1, if_neg (hne rfl), if_neg (hne rfl),
    if_neg (hne rfl), if_neg fun h => hne rfl h.1, if_neg fun h => hne rfl h.1, if_neg (hne rfl),
    if_neg (hne rfl), if_pos hstart]

/-- A colon that ends a word is the sign of a value. -/
lemma readToken_colon {l : Lexer} (hl : l.cursor.rest = ':' :: rest)
    (hrest : atWordEnd rest = true) :
    l.readToken ':' rest = l.readValue := by
  have hmark (mark : String) {d : Char} {ds : List Char} (hd : d ≠ ':')
      (hmark : mark.toList = d :: ds) : l.cursor.atMark mark = false := by
    simp [Cursor.atMark, hl, hmark, List.isPrefixOf, hd]
  rw [readToken, if_neg fun h => absurd h.2 (by decide), hmark "---" (by decide) rfl,
    if_neg Bool.false_ne_true, hmark "..." (by decide) rfl, if_neg Bool.false_ne_true]
  simp [hrest]

/-! ## Lines -/

/-- The mapping that begins with a key at a column, if one does. -/
def opened (columns : List ℕ) (col : ℕ) : List Token :=
  if columns.head?.elim 0 (· + 1) ≤ col then [.blockMapping] else []

/-- The open block collections behind a key at a column. -/
def columnsWith (columns : List ℕ) (col : ℕ) : List ℕ :=
  if columns.head?.elim 0 (· + 1) ≤ col then col :: columns else columns

/-- The token for a key is put in front of the last token. -/
lemma insertKey_last {l : Lexer} {t : Token} {key : PossibleKey} (hl : l.tokens = t :: ts)
    (hkey : key.tokens = ts.length) (hflow : l.outerKeys = []) :
    l.insertKey key = { l with
      tokens := t :: .key :: (opened l.columns key.column ++ ts)
      columns := columnsWith l.columns key.column
      key := none } := by
  have hsince : (t :: ts).length - ts.length = 1 := Nat.add_sub_cancel_left _ _
  have hopens : l.opensAt key.column = decide (l.columns.head?.elim 0 (· + 1) ≤ key.column) := by
    rw [opensAt, inFlow, hflow]
    rfl
  simp only [insertKey, hl, hkey, hsince, hopens, decide_eq_true_eq]
  rfl

/-- A word and the colon behind it are a key and the sign of its value. -/
lemma readTokens_key (hname : IsWord name) (hlength : name.length ≤ 1024)
    (hrest : atWordEnd rest = true) (hends : EndsNone columns col) (n : ℕ) :
    readTokens (n + 2) (between true ts columns ⟨name ++ ':' :: rest, off, line, col⟩)
      = readTokens n (between false
          (.value :: .scalar .plain (String.ofList name) :: .key :: (opened columns col ++ ts))
          (columnsWith columns col)
          ⟨rest, off + name.length + 1, line, col + name.length + 1⟩) := by
  obtain ⟨ch, name', hcons⟩ := List.exists_cons_of_ne_nil hname.ne_nil
  have hlen : 1 ≤ name.length := by rw [hcons]; exact Nat.le_add_left 1 _
  have hch : isWordChar ch = true := hname.isWordChar ch (hcons ▸ List.mem_cons_self)
  -- the word is read as a scalar, at which a key may begin
  let required := decide (columns.head? = some col)
  let scalar : Lexer :=
    { cursor := ⟨':' :: rest, off + name.length, line, col + name.length⟩
      tokens := .scalar .plain (String.ofList name) :: ts, columns := columns, keyAllowed := false
      key := some ⟨required, ts.length, off, line, col⟩ }
  have hplain : (between true ts columns ⟨name ++ ':' :: rest, off, line, col⟩).readPlain
      = some scalar := by
    have hleast : (columns.head?.elim 0 (· + 1) : ℕ) ≤ col + name.length := by
      cases hd : columns.head? with
      | none => exact Nat.zero_le _
      | some d => exact Nat.add_le_add (hends d hd) hlen
    rw [readPlain]
    change Option.bind (plainScalar false (columns.head?.elim 0 (· + 1))
      ⟨name ++ ':' :: rest, off, line, col⟩) _ = _
    rw [plainScalar_key hname hrest hleast]
    rfl
  have hfirst : readTokens (n + 2) (between true ts columns ⟨name ++ ':' :: rest, off, line, col⟩)
      = readTokens (n + 1) scalar := by
    refine readTokens_step ch (name' ++ ':' :: rest)
      (Cursor.toToken_spaces (hname.atToken _) true _ 0) rfl hends ?_ ?_
    · exact congrArg (· ++ ':' :: rest) hcons
    · rw [readToken_word hch (congrArg (· ++ ':' :: rest) hcons)]
      exact hplain
  rw [hfirst]
  -- at the colon it shows that a key has begun
  have hcheck : checkKeys { scalar with cursor := scalar.cursor, keyAllowed := false }
      = some scalar := by
    have hstale : PossibleKey.isStale ⟨required, ts.length, off, line, col⟩ scalar.cursor
        = false := by
      simp [scalar, PossibleKey.isStale, hlength]
    change (checkKey scalar.cursor (some ⟨required, ts.length, off, line, col⟩)).bind _ = _
    rw [checkKey, hstale]
    rfl
  have htokens : scalar.tokens = .scalar .plain (String.ofList name) :: ts := rfl
  refine readTokens_step ':' rest (Cursor.toToken_spaces (atToken_colon rest) false _ 0) hcheck
    (hends.mono (Nat.le_add_right _ _)) rfl ?_
  rw [readToken_colon rfl hrest]
  change some { (scalar.insertKey ⟨required, ts.length, off, line, col⟩).addSign .value 1 with
    keyAllowed := false } = _
  rw [insertKey_last htokens rfl rfl]
  rfl

/-- A word at the end of a line is a value, if the next line does not belong to it. -/
lemma readTokens_value (hvalue : IsWord value) (hrest : AtToken rest) {d : ℕ}
    (hends : EndsNone (d :: columns) (col + 1)) (hk : k ≤ d) (n : ℕ) :
    readTokens (n + 1) (between false ts (d :: columns)
        ⟨' ' :: (value ++ '\n' :: (List.replicate k ' ' ++ rest)), off, line, col⟩)
      = readTokens n (between true (.scalar .plain (String.ofList value) :: ts) (d :: columns)
          ⟨rest, off + 1 + value.length + 1 + k, line + 1, k⟩) := by
  obtain ⟨ch, value', hcons⟩ := List.exists_cons_of_ne_nil hvalue.ne_nil
  have hch : isWordChar ch = true := hvalue.isWordChar ch (hcons ▸ List.mem_cons_self)
  have hword : value ++ '\n' :: (List.replicate k ' ' ++ rest)
      = ch :: (value' ++ '\n' :: (List.replicate k ' ' ++ rest)) :=
    congrArg (· ++ '\n' :: (List.replicate k ' ' ++ rest)) hcons
  refine readTokens_step ch _
    (Cursor.toToken_spaces (hvalue.atToken ('\n' :: (List.replicate k ' ' ++ rest))) false _ 1) rfl
    hends hword ?_
  rw [readToken_word hch hword, readPlain]
  change Option.bind (plainScalar false (d + 1)
    ⟨value ++ '\n' :: (List.replicate k ' ' ++ rest), off + 1, line, col + 1⟩) _ = _
  rw [plainScalar_value hvalue hrest (Nat.lt_succ_of_le hk)]
  rfl

/-- Behind a line break the next key may begin. -/
lemma readTokens_newline (hrest : AtToken rest) (n : ℕ) :
    readTokens (n + 1) (between false ts columns
        ⟨'\n' :: (List.replicate k ' ' ++ rest), off, line, col⟩)
      = readTokens (n + 1) (between true ts columns ⟨rest, off + 1 + k, line + 1, k⟩) := by
  have hfirst : (⟨'\n' :: (List.replicate k ' ' ++ rest), off, line, col⟩ : Cursor).toToken false
      (('\n' :: (List.replicate k ' ' ++ rest)).length + 1) false
        = (true, ⟨rest, off + 1 + k, line + 1, k⟩) := by
    rw [Cursor.toToken_newline, List.length_cons, Cursor.toToken_spaces hrest, zero_add]
  have hsecond : (⟨rest, off + 1 + k, line + 1, k⟩ : Cursor).toToken false (rest.length + 1) true
      = (true, ⟨rest, off + 1 + k, line + 1, k⟩) :=
    Cursor.toToken_spaces hrest true _ 0
  rw [readTokens, readTokens]
  dsimp only [between, inFlow]
  rw [List.isEmpty_nil, Bool.not_true, hfirst, hsecond]

/-- Where all block collections end, it makes no difference that some have ended before. -/
lemma closeAll_closeBlocks {l : Lexer} (hflow : l.outerKeys = []) (col : ℕ) :
    (l.closeBlocks col).closeAll = l.closeAll := by
  have hnot : ¬ l.inFlow = true := by rw [inFlow, hflow]; exact Bool.false_ne_true
  let closed := l.columns.takeWhile fun d => decide (col < d)
  have hlength : closed.length ≤ l.columns.length := (List.takeWhile_sublist _).length_le
  have hblocks : l.closeBlocks col = { l with
      tokens := List.replicate closed.length .blockEnd ++ l.tokens
      columns := l.columns.drop closed.length } := by
    rw [closeBlocks, if_neg hnot]
  rw [hblocks, closeAll, if_neg (by exact hnot), closeAll, if_neg hnot]
  dsimp only
  rw [List.length_drop, ← List.append_assoc, List.replicate_append_replicate,
    Nat.sub_add_cancel hlength]

/-- All block collections end with the text. -/
lemma readTokens_end (n : ℕ) :
    readTokens (n + 1) (between true ts columns ⟨[], off, line, col⟩)
      = some (ts.reverse ++ List.replicate columns.length .blockEnd) := by
  have htoken : (⟨[], off, line, col⟩ : Cursor).toToken false 1 true
      = (true, ⟨[], off, line, col⟩) := Cursor.toToken_spaces atToken_nil true 0 0
  have hlast : readTokens (n + 1) (between true ts columns ⟨[], off, line, col⟩)
      = ((between true ts columns ⟨[], off, line, col⟩).closeBlocks col).closeAll.dropKey.map
          fun l => l.tokens.reverse := by
    rw [readTokens]
    dsimp only [between, inFlow]
    rw [List.isEmpty_nil, Bool.not_true, List.length_nil, zero_add, htoken]
    rfl
  have hall : (between true ts columns ⟨[], off, line, col⟩).closeAll
      = between true (List.replicate columns.length .blockEnd ++ ts) [] ⟨[], off, line, col⟩ := rfl
  rw [hlast, closeAll_closeBlocks rfl, hall]
  change some (List.replicate columns.length Token.blockEnd ++ ts).reverse = _
  rw [List.reverse_append, List.reverse_replicate]

end Lexer

/-! ## Several lines -/

/-- A name and a value, both of which are words. -/
structure IsLine (l : String × String) : Prop where
  /-- The name is a word. -/
  name : IsWord l.1.toList
  /-- The name is no longer than an implicit key may be. -/
  length_le : l.1.toList.length ≤ 1024
  /-- The value is a word. -/
  value : IsWord l.2.toList

/-- The text of a line behind its indentation. -/
def lineText (l : String × String) (rest : List Char) : List Char :=
  l.1.toList ++ ':' :: ' ' :: (l.2.toList ++ '\n' :: rest)

/-- Lines with the given indentation. -/
def linesText (indent : ℕ) (ls : List (String × String)) : List Char :=
  ls.foldr (fun l rest => List.replicate indent ' ' ++ lineText l rest) []

/-- The tokens of a line. -/
def lineTokens (l : String × String) : List Token :=
  [.key, .scalar .plain l.1, .value, .scalar .plain l.2]

namespace Lexer

variable {l : String × String} {rest : List Char} {ts : List Token} {columns cs : List ℕ}
  {k n off line col : ℕ}

/-- A line is read in three steps. -/
lemma readTokens_line (hl : IsLine l) (hrest : AtToken rest) (hends : EndsNone columns col)
    (hcolumns : columnsWith columns col = col :: cs) (hk : k ≤ col) (n : ℕ) :
    readTokens (n + 3) (between true ts columns
        ⟨lineText l (List.replicate k ' ' ++ rest), off, line, col⟩)
      = readTokens n (between true ((lineTokens l).reverse ++ (opened columns col ++ ts))
        (col :: cs)
          ⟨rest, off + l.1.toList.length + 1 + 1 + l.2.toList.length + 1 + k, line + 1, k⟩) := by
  have hvalue : EndsNone (col :: cs) (col + l.1.toList.length + 1 + 1) := by
    rintro _ ⟨⟩
    omega
  rw [lineText, readTokens_key hl.name hl.length_le rfl hends, hcolumns,
    readTokens_value hl.value hrest hvalue hk, String.ofList_toList, String.ofList_toList]
  rfl

/-- A key at the column of the last block collection opens none. -/
lemma opened_self (cs : List ℕ) (col : ℕ) :
    opened (col :: cs) col = [] ∧ columnsWith (col :: cs) col = col :: cs := by
  have hnot : ¬ (col :: cs).head?.elim 0 (· + 1) ≤ col := Nat.not_succ_le_self col
  exact ⟨if_neg hnot, if_neg hnot⟩

/-- A mapping at the end of the text is read line by line. -/
lemma readTokens_lines {ls : List (String × String)} (hls : ∀ l' ∈ l :: ls, IsLine l')
    (hends : EndsNone columns col) (hcolumns : columnsWith columns col = col :: cs) (n : ℕ) :
    readTokens (n + 1 + 3 * (ls.length + 1))
        (between true ts columns ⟨lineText l (linesText col ls), off, line, col⟩)
      = some ((opened columns col ++ ts).reverse ++ (l :: ls).flatMap lineTokens
          ++ List.replicate (col :: cs).length .blockEnd) := by
  induction ls generalizing l ts columns off line with
  | nil =>
    have hl : IsLine l := hls l List.mem_cons_self
    refine (readTokens_line hl atToken_nil hends hcolumns (Nat.zero_le col) (n + 1)).trans ?_
    rw [readTokens_end, List.reverse_append, List.reverse_reverse, List.flatMap_singleton]
  | cons l' ls ih =>
    obtain ⟨hl, hls'⟩ := List.forall_mem_cons.1 hls
    have hl' : IsLine l' := hls' l' List.mem_cons_self
    have hstay : EndsNone (col :: cs) col := by
      rintro _ ⟨⟩
      exact le_rfl
    obtain ⟨hopened, hcolumns'⟩ := opened_self cs col
    refine (readTokens_line hl (hl'.name.atToken (':' :: ' ' :: (l'.2.toList ++ '\n' ::
      linesText col ls))) hends hcolumns le_rfl (n + 1 + 3 * (ls.length + 1))).trans ?_
    refine (ih hls' hstay hcolumns').trans ?_
    simp only [hopened, List.nil_append, List.reverse_append, List.reverse_reverse,
      List.flatMap_cons, List.append_assoc]

/-- A section at the end of the text is the last key of the outer mapping. -/
lemma readTokens_section {ls : List (String × String)} {name : String} (hname : IsWord name.toList)
    (hlength : name.toList.length ≤ 1024) (hls : ∀ l' ∈ l :: ls, IsLine l') (n : ℕ) :
    readTokens (n + 1 + 3 * (ls.length + 1) + 2) (between true ts [0]
        ⟨name.toList ++ ':' :: '\n' :: linesText 2 (l :: ls), off, line, 0⟩)
      = some (ts.reverse ++ [.key, .scalar .plain name, .value, .blockMapping]
          ++ (l :: ls).flatMap lineTokens ++ [.blockEnd, .blockEnd]) := by
  have hrest : AtToken (lineText l (linesText 2 ls)) := (hls l List.mem_cons_self).name.atToken _
  have hfuel : n + 1 + 3 * (ls.length + 1) = n + 3 * (ls.length + 1) + 1 := by omega
  have hkey : EndsNone [0] 0 := by
    rintro _ ⟨⟩
    exact le_rfl
  have hinner : EndsNone [0] 2 := hkey.mono (Nat.zero_le 2)
  rw [readTokens_key hname hlength rfl hkey, (opened_self [] 0).1, (opened_self [] 0).2, hfuel]
  refine (readTokens_newline (k := 2) hrest _).trans ?_
  rw [← hfuel, readTokens_lines hls hinner rfl, String.ofList_toList]
  simp [opened]

end Lexer

/-! ## Texts -/

section Texts

variable {l : String × String} {ls : List (String × String)} {name : String}

lemma isAllowed_lineText (hl : IsLine l) {rest : List Char} (hrest : rest.all isAllowed = true) :
    (lineText l rest).all isAllowed = true := by
  have hword {w : List Char} (hw : IsWord w) : w.all isAllowed = true :=
    List.all_eq_true.2 fun c hc => isAllowed_of_isWordChar (hw.isWordChar c hc)
  rw [lineText, List.all_append, hword hl.name, List.all_cons, List.all_cons, List.all_append,
    hword hl.value, List.all_cons, hrest]
  rfl

lemma isAllowed_linesText (hls : ∀ l ∈ ls, IsLine l) (indent : ℕ) :
    (linesText indent ls).all isAllowed = true := by
  induction ls with
  | nil => rfl
  | cons l ls ih =>
    obtain ⟨hl, hls⟩ := List.forall_mem_cons.1 hls
    have hspaces : (List.replicate indent ' ').all isAllowed = true :=
      List.all_eq_true.2 fun c hc => List.eq_of_mem_replicate hc ▸ rfl
    change (List.replicate indent ' ' ++ lineText l (linesText indent ls)).all isAllowed = true
    rw [List.all_append, hspaces, isAllowed_lineText hl (ih hls)]
    rfl

lemma le_length_lineText (l : String × String) (rest : List Char) :
    rest.length + 3 ≤ (lineText l rest).length := by
  simp only [lineText, List.length_append, List.length_cons]
  omega

lemma le_length_linesText (indent : ℕ) (ls : List (String × String)) :
    3 * ls.length ≤ (linesText indent ls).length := by
  induction ls with
  | nil => exact le_rfl
  | cons l ls ih =>
    change 3 * (ls.length + 1)
      ≤ (List.replicate indent ' ' ++ lineText l (linesText indent ls)).length
    have hline := le_length_lineText l (linesText indent ls)
    rw [List.length_append]
    omega

/-- **The tokens of a document** with a line and a section of lines. -/
theorem tokens?_section {first : String × String} {text : String} (hfirst : IsLine first)
    (hname : IsWord name.toList) (hlength : name.toList.length ≤ 1024)
    (hls : ∀ l' ∈ l :: ls, IsLine l')
    (htext : text.toList
      = lineText first (name.toList ++ ':' :: '\n' :: linesText 2 (l :: ls))) :
    tokens? text = some (.blockMapping :: lineTokens first
      ++ [.key, .scalar .plain name, .value, .blockMapping]
      ++ (l :: ls).flatMap lineTokens ++ [.blockEnd, .blockEnd]) := by
  have hallowed : text.toList.all isAllowed = true := by
    have hword : name.toList.all isAllowed = true :=
      List.all_eq_true.2 fun c hc => isAllowed_of_isWordChar (hname.isWordChar c hc)
    rw [htext]
    refine isAllowed_lineText hfirst ?_
    rw [List.all_append, hword, List.all_cons, List.all_cons, isAllowed_linesText hls]
    rfl
  -- enough steps are allowed for
  obtain ⟨n, hn⟩ : ∃ n, text.toList.length + 1 = n + 1 + 3 * (ls.length + 1) + 2 + 3 := by
    have hlines := le_length_linesText 2 (l :: ls)
    have hfirst := le_length_lineText first (name.toList ++ ':' :: '\n' :: linesText 2 (l :: ls))
    rw [← htext, List.length_append] at hfirst
    simp only [List.length_cons] at hfirst hlines
    exact ⟨text.toList.length + 1 - (1 + 3 * (ls.length + 1) + 2 + 3), by omega⟩
  rw [tokens?, if_pos hallowed, hn, htext]
  have hrest : AtToken (name.toList ++ ':' :: '\n' :: linesText 2 (l :: ls)) := hname.atToken _
  have hstart : Lexer.EndsNone [] 0 := nofun
  refine (Lexer.readTokens_line hfirst hrest hstart rfl le_rfl _).trans ?_
  rw [Lexer.readTokens_section hname hlength hls, List.reverse_append, List.reverse_reverse]
  rfl

end Texts

end Roundoff.Yaml
