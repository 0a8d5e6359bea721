/-
# Words

A word consists of letters, digits and underscores.  Where a scalar without quotes begins with a
word, it is this word if a colon follows that is the sign of a value, and if its line ends and the
next line does not belong to the block.  Whatever blanks and line breaks there are between two
tokens, the cursor passes over them.
-/
import Mathlib
import Roundoff.Yaml.Scalar

namespace Roundoff.Yaml

variable {c d : Char} {w rest : List Char} {k n off line col : ℕ}

/-! ## Characters -/

/-- Whether a character may stand in a word. -/
def isWordChar (c : Char) : Bool := c.isAlphanum || c = '_'

lemma ne_of_isWordChar (hc : isWordChar c = true) (hd : isWordChar d = false) : c ≠ d := by
  rintro rfl
  rw [hc] at hd
  cases hd

lemma isBreak_of_isWordChar (hc : isWordChar c = true) : isBreak c = false := by
  have hne {d : Char} (hd : isWordChar d = false) : decide (c = d) = false :=
    decide_eq_false (ne_of_isWordChar hc hd)
  simp only [isBreak, isSeparator, hne (d := '\n') rfl, hne (d := '\r') rfl,
    hne (d := '\u0085') rfl, hne (d := '\u2028') rfl, hne (d := '\u2029') rfl, Bool.or_self]

lemma isSpace_of_isWordChar (hc : isWordChar c = true) : isSpace c = false := by
  have hne {d : Char} (hd : isWordChar d = false) : decide (c = d) = false :=
    decide_eq_false (ne_of_isWordChar hc hd)
  simp only [isSpace, isBlank, isBreak_of_isWordChar hc, hne (d := ' ') rfl, hne (d := '\t') rfl,
    Bool.or_self]

/-- The characters of words are between the digit zero and the letter z. -/
lemma toNat_of_isWordChar (hc : isWordChar c = true) : 48 ≤ c.toNat ∧ c.toNat ≤ 122 := by
  rw [isWordChar, Bool.or_eq_true, decide_eq_true_eq] at hc
  rcases hc with hc | rfl
  · simp only [Char.isAlphanum, Char.isAlpha, Char.isUpper, Char.isLower, Char.isDigit,
      Bool.or_eq_true, Bool.and_eq_true, decide_eq_true_eq, UInt32.le_iff_toNat_le, ge_iff_le] at hc
    simp at hc
    omega
  · decide

lemma utf8Size_of_isWordChar (hc : isWordChar c = true) : c.utf8Size = 1 := by
  have hle : c.val.toNat ≤ 122 := (toNat_of_isWordChar hc).2
  rw [Char.utf8Size_eq_one_iff, UInt32.le_iff_toNat_le]
  exact hle.trans (by decide)

lemma isAllowed_of_isWordChar (hc : isWordChar c = true) : isAllowed c = true := by
  obtain ⟨hge, hle⟩ : 48 ≤ c.val.toNat ∧ c.val.toNat ≤ 122 := toNat_of_isWordChar hc
  have hfirst : ' ' ≤ c := (show (32 : ℕ) ≤ 48 by omega).trans hge
  have hlast : c ≤ '~' := hle.trans (show (122 : ℕ) ≤ 126 by omega)
  simp [isAllowed, hfirst, hlast]

/-- Letters, digits and underscores, and at least one of them. -/
structure IsWord (w : List Char) : Prop where
  /-- There is a character. -/
  ne_nil : w ≠ []
  /-- All of them may stand in a word. -/
  isWordChar : ∀ c ∈ w, isWordChar c = true

lemma octetCount_word (hw : ∀ c ∈ w, isWordChar c = true) : octetCount w = w.length := by
  induction w with
  | nil => rfl
  | cons c w ih =>
    obtain ⟨hc, hw⟩ := List.forall_mem_cons.1 hw
    change c.utf8Size + octetCount w = _
    rw [ih hw, utf8Size_of_isWordChar hc, List.length_cons, add_comm]

/-- The text does not begin with anything that is passed over between tokens. -/
def AtToken (rest : List Char) : Prop :=
  ∀ c ∈ rest.head?, isSpace c = false ∧ c ≠ '#' ∧ c ≠ '\ufeff'

lemma IsWord.atToken (hw : IsWord w) (rest : List Char) : AtToken (w ++ rest) := by
  obtain ⟨c, w, rfl⟩ := List.exists_cons_of_ne_nil hw.ne_nil
  rintro _ ⟨⟩
  have hc := hw.isWordChar c List.mem_cons_self
  exact ⟨isSpace_of_isWordChar hc, ne_of_isWordChar hc rfl, ne_of_isWordChar hc rfl⟩

lemma atToken_colon (rest : List Char) : AtToken (':' :: rest) := by
  rintro _ ⟨⟩
  decide

lemma atToken_nil : AtToken [] := nofun

namespace AtToken

lemma isBlank_eq (h : AtToken rest) : ∀ c ∈ rest.head?, isBlank c = false := fun c hc =>
  (Bool.or_eq_false_iff.1 (h c hc).1).1

lemma isBreak_eq (h : AtToken rest) : ∀ c ∈ rest.head?, isBreak c = false := fun c hc =>
  (Bool.or_eq_false_iff.1 (h c hc).1).2

end AtToken

/-- As many characters are taken as have the property, if the next one does not have it. -/
lemma takeWhile_replicate_append {p : Char → Bool} (hc : p c = true)
    (hrest : ∀ d ∈ rest.head?, p d = false) (k : ℕ) :
    (List.replicate k c ++ rest).takeWhile p = List.replicate k c := by
  have hnone : rest.takeWhile p = [] := by
    cases rest with
    | nil => rfl
    | cons d rest =>
      exact List.takeWhile_cons_of_neg (by rw [hrest d rfl]; exact Bool.false_ne_true)
  rw [List.takeWhile_append_of_pos fun d hd => List.eq_of_mem_replicate hd ▸ hc, hnone,
    List.append_nil]

/-! ## Cursors -/

namespace Cursor

lemma pass_zero (c : Cursor) : c.pass 0 = c := rfl

/-- To pass over characters of one octet each. -/
lemma pass_append (hw : octetCount w = w.length) :
    (⟨w ++ rest, off, line, col⟩ : Cursor).pass w.length
      = ⟨rest, off + w.length, line, col + w.length⟩ := by
  simp [pass, hw]

lemma octetCount_replicate (k : ℕ) : octetCount (List.replicate k ' ') = k := by
  induction k with
  | zero => rfl
  | succ k ih =>
    change ' '.utf8Size + octetCount (List.replicate k ' ') = _
    rw [ih, add_comm]
    rfl

/-- To pass over spaces. -/
lemma pass_replicate (k : ℕ) :
    (⟨List.replicate k ' ' ++ rest, off, line, col⟩ : Cursor).pass k
      = ⟨rest, off + k, line, col + k⟩ := by
  have hlength : (List.replicate k ' ').length = k := List.length_replicate
  have hpass : (⟨List.replicate k ' ' ++ rest, off, line, col⟩ : Cursor).pass
        (List.replicate k ' ').length
      = ⟨rest, off + (List.replicate k ' ').length, line, col + (List.replicate k ' ').length⟩ :=
    pass_append (by rw [octetCount_replicate, hlength])
  rwa [hlength] at hpass

lemma lineBreak?_of_atToken (h : AtToken rest) :
    (⟨rest, off, line, col⟩ : Cursor).lineBreak? = none := by
  rw [lineBreak?]
  split
  · next hrest =>
    dsimp only at hrest
    rw [hrest] at h
    exact absurd (h.isBreak_eq _ rfl) (by decide)
  · next hrest =>
    dsimp only at hrest
    rw [h.isBreak_eq _ (hrest ▸ rfl), if_neg Bool.false_ne_true]
  · rfl

lemma lineBreak?_newline :
    (⟨'\n' :: rest, off, line, col⟩ : Cursor).lineBreak?
      = some ('\n', ⟨rest, off + 1, line + 1, 0⟩) := rfl

/-! ### Between tokens -/

/-- Spaces in front of a token are passed over. -/
lemma toToken_spaces (h : AtToken rest) (keyAllowed : Bool) (lines k : ℕ) :
    (⟨List.replicate k ' ' ++ rest, off, line, col⟩ : Cursor).toToken false (lines + 1) keyAllowed
      = (keyAllowed, ⟨rest, off + k, line, col + k⟩) := by
  have hmark : (⟨List.replicate k ' ' ++ rest, off, line, col⟩ : Cursor).head? ≠ some '\ufeff' := by
    cases k with
    | zero =>
      intro hhead
      exact (h _ hhead).2.2 rfl
    | succ k => exact fun hhead => absurd (Option.some.inj hhead) (by decide)
  have hcomment : (⟨rest, off + k, line, col + k⟩ : Cursor).head? ≠ some '#' := fun hhead =>
    (h _ hhead).2.1 rfl
  have hspaces : (List.replicate k ' ' ++ rest).takeWhile
      (fun ch => ch = ' ' || ((false || !keyAllowed) && ch = '\t')) = List.replicate k ' ' := by
    refine takeWhile_replicate_append rfl (fun d hd => ?_) k
    have hblank := Bool.or_eq_false_iff.1 (h.isBlank_eq d hd)
    rw [hblank.1, hblank.2, Bool.and_false, Bool.or_self]
  rw [toToken, if_neg fun hmark' => hmark hmark'.2, passWhile, hspaces, List.length_replicate,
    pass_replicate, passComment, if_neg hcomment, lineBreak?_of_atToken h]

/-- A line break is passed over, and then a key may begin. -/
lemma toToken_newline (keyAllowed : Bool) (lines : ℕ) :
    (⟨'\n' :: rest, off, line, col⟩ : Cursor).toToken false (lines + 1) keyAllowed
      = (⟨rest, off + 1, line + 1, 0⟩ : Cursor).toToken false lines true := by
  have hspaces : ('\n' :: rest).takeWhile
      (fun ch => ch = ' ' || ((false || !keyAllowed) && ch = '\t')) = [] := by
    refine List.takeWhile_cons_of_neg ?_
    simp
  have hcomment : (⟨'\n' :: rest, off, line, col⟩ : Cursor).head? ≠ some '#' := fun hhead =>
    absurd (Option.some.inj hhead) (by decide)
  rw [toToken, if_neg fun hmark => absurd (Option.some.inj hmark.2) (by decide), passWhile, hspaces,
    List.length_nil, pass_zero, passComment, if_neg hcomment, lineBreak?_newline]
  simp

/-! ### Within scalars -/

/-- There is no gap in front of a sign. -/
lemma gap_of_atToken (h : AtToken rest) :
    (⟨rest, off, line, col⟩ : Cursor).gap = (⟨[], []⟩, ⟨rest, off, line, col⟩) := by
  have hblanks : rest.takeWhile isBlank = [] :=
    takeWhile_replicate_append (c := ' ') rfl h.isBlank_eq 0
  have hbreaks (lines : ℕ) : (⟨rest, off, line, col⟩ : Cursor).breaks lines
      = ([], ⟨rest, off, line, col⟩) := by
    cases lines with
    | zero => rfl
    | succ lines => rw [breaks, lineBreak?_of_atToken h]
  rw [gap]
  dsimp only
  rw [hblanks, List.length_nil, pass_zero, hbreaks]

/-- The gap between a word and a token in the next line. -/
lemma gap_newline (h : AtToken rest) (k : ℕ) :
    (⟨'\n' :: (List.replicate k ' ' ++ rest), off, line, col⟩ : Cursor).gap
      = (⟨[], [('\n', List.replicate k ' ')]⟩, ⟨rest, off + 1 + k, line + 1, k⟩) := by
  have hblanks : (List.replicate k ' ' ++ rest).takeWhile isBlank = List.replicate k ' ' :=
    takeWhile_replicate_append rfl h.isBlank_eq k
  have hbreaks (lines : ℕ) : (⟨rest, off + 1 + k, line + 1, 0 + k⟩ : Cursor).breaks lines
      = ([], ⟨rest, off + 1 + k, line + 1, k⟩) := by
    rw [zero_add]
    cases lines with
    | zero => rfl
    | succ lines => rw [breaks, lineBreak?_of_atToken h]
  have hnone : ('\n' :: (List.replicate k ' ' ++ rest)).takeWhile isBlank = [] := rfl
  rw [gap]
  dsimp only
  rw [hnone, List.length_nil, pass_zero, List.length_cons, breaks, lineBreak?_newline]
  dsimp only
  rw [hblanks, List.length_replicate, pass_replicate, hbreaks]

end Cursor

/-! ## Plain scalars -/

/-- A word is read up to where no more of it follows. -/
lemma plainWord?_append (hw : ∀ c ∈ w, isWordChar c = true)
    (hrest : plainWord? false rest = some []) : plainWord? false (w ++ rest) = some w := by
  induction w with
  | nil => exact hrest
  | cons c w ih =>
    obtain ⟨hc, hw⟩ := List.forall_mem_cons.1 hw
    have hcolon : c ≠ ':' := ne_of_isWordChar hc rfl
    simp [plainWord?, isSpace_of_isWordChar hc, hcolon, ih hw]

lemma plainWord?_colon (h : atWordEnd rest = true) : plainWord? false (':' :: rest) = some [] := by
  simp [plainWord?, h, isSpace, isBlank, isBreak, isSeparator]

lemma plainWord?_newline : plainWord? false ('\n' :: rest) = some [] := rfl

lemma not_atDocumentMark (hrest : ∀ c ∈ rest.head?, c ≠ '-' ∧ c ≠ '.') :
    (⟨rest, off, line, col⟩ : Cursor).atDocumentMark = false := by
  cases rest with
  | nil => simp [Cursor.atDocumentMark, Cursor.atMark]
  | cons c rest =>
    obtain ⟨hhyphen, hdot⟩ := hrest c rfl
    simp [Cursor.atDocumentMark, Cursor.atMark, List.isPrefixOf, hhyphen.symm, hdot.symm]

section PlainScalar

variable {least : ℕ}

/-- The first word of a plain scalar. -/
lemma plainFrom_word (hw : IsWord w) (hrest : plainWord? false rest = some []) (words : ℕ) :
    plainFrom false least (words + 1) [] [] false ⟨w ++ rest, off, line, col⟩
      = let r := (⟨rest, off + w.length, line, col + w.length⟩ : Cursor).gap
        if r.1.hasTabBefore least then none
        else if r.2.column < least then some (w, !r.1.breaks.isEmpty, r.2)
        else plainFrom false least words w r.1.folded (!r.1.breaks.isEmpty) r.2 := by
  have hnext := plainWord?_append hw.isWordChar hrest
  have hpass : (⟨w ++ rest, off, line, col⟩ : Cursor).pass w.length
      = ⟨rest, off + w.length, line, col + w.length⟩ :=
    Cursor.pass_append (octetCount_word hw.isWordChar)
  obtain ⟨c, w, rfl⟩ := List.exists_cons_of_ne_nil hw.ne_nil
  have hc := hw.isWordChar c List.mem_cons_self
  have hmark : (⟨c :: w ++ rest, off, line, col⟩ : Cursor).atDocumentMark = false :=
    not_atDocumentMark fun d hd => by
      cases hd
      exact ⟨ne_of_isWordChar hc rfl, ne_of_isWordChar hc rfl⟩
  have hcomment : (⟨c :: w ++ rest, off, line, col⟩ : Cursor).head? ≠ some '#' := fun h =>
    ne_of_isWordChar hc rfl (Option.some.inj h)
  rw [plainFrom, hmark, decide_eq_false hcomment, Bool.or_self, if_neg Bool.false_ne_true, hnext]
  dsimp only
  rw [hpass]
  simp

/-- A word in front of a value. -/
lemma plainScalar_key (hw : IsWord w) (hrest : atWordEnd rest = true)
    (hleast : least ≤ col + w.length) :
    plainScalar false least ⟨w ++ ':' :: rest, off, line, col⟩
      = some (w, false, ⟨':' :: rest, off + w.length, line, col + w.length⟩) := by
  have hlength : (w ++ ':' :: rest).length = w.length + rest.length + 1 := by
    rw [List.length_append, List.length_cons, Nat.add_assoc]
  rw [plainScalar, hlength, plainFrom_word hw (plainWord?_colon hrest),
    Cursor.gap_of_atToken (atToken_colon rest)]
  dsimp only
  rw [if_neg (by exact Bool.false_ne_true), if_neg (Nat.not_lt.2 hleast), plainFrom,
    not_atDocumentMark (by rintro _ ⟨⟩; decide), plainWord?_colon hrest]
  rfl

/-- A word at the end of a line, if the next line does not belong to the block. -/
lemma plainScalar_value (hw : IsWord w) (hrest : AtToken rest) (hk : k < least) :
    plainScalar false least ⟨w ++ '\n' :: (List.replicate k ' ' ++ rest), off, line, col⟩
      = some (w, true, ⟨rest, off + w.length + 1 + k, line + 1, k⟩) := by
  rw [plainScalar, plainFrom_word hw plainWord?_newline, Cursor.gap_newline hrest]
  dsimp only
  have htab : Gap.hasTabBefore ⟨[], [('\n', List.replicate k ' ')]⟩ least = false := by
    simp [Gap.hasTabBefore, List.mem_replicate]
  rw [htab, if_neg Bool.false_ne_true, if_pos hk]
  rfl

end PlainScalar

end Roundoff.Yaml
