/-
# Reading the text of a JSON value

The writer nests arrays and objects as deep as the value does, but the reader only so deep.  So the
text of a value is read as the value in which everything that is nested deeper is unreadable, in
both layouts of the text.
-/
import Mathlib
import Roundoff.Proofs.Json.Tokens

namespace Roundoff.Json

variable {layout : Layout} {rest : List Char} {fuel room n : ℕ}

/-! ## Depth -/

mutual

/-- How deep arrays and objects are nested in a value. -/
def depth : Json → ℕ
  | arr xs => depthItems xs + 1
  | obj fields => depthFields fields + 1
  | null | bool _ | int _ | dec .. | str _ | unreadable => 0

/-- How deep they are nested in the items of an array. -/
def depthItems : List Json → ℕ
  | [] => 0
  | x :: xs => max (depth x) (depthItems xs)

/-- How deep they are nested in the fields of an object. -/
def depthFields : List (String × Json) → ℕ
  | [] => 0
  | (_, x) :: fields => max (depth x) (depthFields fields)

end

mutual

/-- What the reader makes of a value where arrays and objects may be nested `room` deep. -/
def clip (room : ℕ) : Json → Json
  | arr xs => within room (arr (clipItems (room - 1) xs))
  | obj fields => within room (obj (clipFields (room - 1) fields))
  | null | unreadable => null
  | bool b => bool b
  | int i => int i
  | dec neg m e => dec neg m e
  | str s => str s

/-- What it makes of the items of an array. -/
def clipItems (room : ℕ) : List Json → List Json
  | [] => []
  | x :: xs => clip room x :: clipItems room xs

/-- What it makes of the fields of an object. -/
def clipFields (room : ℕ) : List (String × Json) → List (String × Json)
  | [] => []
  | (name, x) :: fields => (name, clip room x) :: clipFields room fields

end

lemma clipItems_eq_map (room : ℕ) (xs : List Json) : clipItems room xs = xs.map (clip room) := by
  induction xs with
  | nil => rfl
  | cons x xs ih => rw [clipItems, ih, List.map_cons]

lemma clipFields_eq_map (room : ℕ) (fields : List (String × Json)) :
    clipFields room fields = fields.map fun f => (f.1, clip room f.2) := by
  induction fields with
  | nil => rfl
  | cons f fields ih => rw [clipFields, ih, List.map_cons]

lemma depthItems_le_iff {xs : List Json} : depthItems xs ≤ n ↔ ∀ x ∈ xs, depth x ≤ n := by
  induction xs with
  | nil => simp [depthItems]
  | cons x xs ih => rw [depthItems, max_le_iff, ih, List.forall_mem_cons]

lemma depthFields_le_iff {fields : List (String × Json)} :
    depthFields fields ≤ n ↔ ∀ f ∈ fields, depth f.2 ≤ n := by
  induction fields with
  | nil => simp [depthFields]
  | cons f fields ih => rw [depthFields, max_le_iff, ih, List.forall_mem_cons]

/-! ## Tokens of a text -/

lemma readValue_newline (fuel room : ℕ) (layout : Layout) (cs : List Char) :
    readValue fuel room (layout.newline cs) = readValue fuel room cs := by
  cases fuel with
  | zero => rfl
  | succ fuel => rw [readValue, readValue, skipBlank_newline]

lemma readFields_newline (fuel room : ℕ) (done : Option (List (String × Json))) (layout : Layout)
    (cs : List Char) :
    readFields fuel room done (layout.newline cs) = readFields fuel room done cs := by
  cases fuel with
  | zero => rfl
  | succ fuel => rw [readFields, readFields, skipBlank_newline]

lemma le_length_newline (layout : Layout) (cs : List Char) :
    cs.length ≤ (layout.newline cs).length := by
  cases layout with
  | line => exact le_rfl
  | lines indent =>
    change cs.length ≤ ('\n' :: (List.replicate indent ' ' ++ cs)).length
    rw [List.length_cons, List.length_append]
    omega

/-- After the colon of a field there may be a blank. -/
lemma exists_colon_eq (layout : Layout) (cs : List Char) :
    ∃ cs', layout.colon cs = ':' :: cs' ∧ cs.length ≤ cs'.length ∧
      ∀ fuel room, readValue fuel room cs' = readValue fuel room cs := by
  cases layout with
  | line => exact ⟨cs, rfl, le_rfl, fun _ _ => rfl⟩
  | lines indent =>
    refine ⟨' ' :: cs, rfl, Nat.le_succ _, fun fuel room => ?_⟩
    cases fuel with
    | zero => rfl
    | succ fuel => rw [readValue, readValue, skipBlank_blank (.inl rfl)]

/-- The text of a number begins with a digit or a sign. -/
lemma exists_number_eq (neg : Bool) (n : ℕ) (cs : List Char) :
    ∃ c cs', (if neg then ['-'] else []) ++ (Nat.toDigits 10 n ++ cs) = c :: cs' ∧
      (c.isDigit = true ∨ c = '-') := by
  cases neg with
  | true => exact ⟨'-', _, rfl, .inr rfl⟩
  | false =>
    obtain ⟨d, ds, hds⟩ := List.exists_cons_of_ne_nil (toDigits_ne_nil n)
    refine ⟨d, ds ++ cs, ?_, .inl (isDigit_of_mem_toDigits (hds ▸ List.mem_cons_self))⟩
    rw [hds]
    rfl

/-- The reader takes what begins like a number for a number. -/
lemma readValue_number {cs cs' : List Char} {c : Char} (hcs : cs = c :: cs')
    (hc : c.isDigit = true ∨ c = '-') : readValue (fuel + 1) room cs = readNumber cs := by
  have hblank : ¬ IsBlank c := by
    rintro (rfl | rfl | rfl | rfl) <;> revert hc <;> decide
  have hne (d : Char) (hd : d.isDigit = false ∧ d ≠ '-') : c ≠ d := by
    rintro rfl
    rcases hc with hc | hc
    · rw [hd.1] at hc
      exact Bool.false_ne_true hc
    · exact hd.2 hc
  rw [readValue, hcs, skipBlank_cons hblank]
  -- the cases are the characters that begin other values, and the last one is that of numbers
  split
  case h_1 heq => cases heq
  case h_8 => rfl
  all_goals
    next heq => exact absurd (List.cons.inj heq).1 (hne _ (by decide))

lemma readValue_writeInt (i : ℤ) (hrest : EndsNumber rest) :
    readValue (fuel + 1) room (writeInt i rest) = some (int i, rest) := by
  obtain ⟨c, cs, hcs, hc⟩ := exists_number_eq (decide (i < 0)) i.natAbs rest
  rw [readValue_number (by rw [writeInt_eq, hcs]) hc, readNumber_writeInt i hrest]

lemma readValue_dec (neg : Bool) (m : ℕ) (e : ℤ) (hrest : EndsNumber rest) :
    readValue (fuel + 1) room
        ((if neg then ['-'] else []) ++ (toString m).toList ++ 'e' :: writeInt e rest)
      = some (dec neg m e, rest) := by
  obtain ⟨c, cs, hcs, hc⟩ := exists_number_eq neg m ('e' :: writeInt e rest)
  rw [readValue_number (by rw [toList_toString, List.append_assoc, hcs]) hc,
    readNumber_dec neg m e hrest.noDigit]

/-- Values do not begin with a blank, and not like the end of an array. -/
lemma exists_writeOnto_eq (layout : Layout) (j : Json) (rest : List Char) :
    ∃ c cs, writeOnto layout j rest = c :: cs ∧ ¬ IsBlank c ∧ c ≠ ']' := by
  have hnumber (neg : Bool) (n : ℕ) (cs : List Char) :
      ∃ c cs', (if neg then ['-'] else []) ++ (Nat.toDigits 10 n ++ cs) = c :: cs' ∧
        ¬ IsBlank c ∧ c ≠ ']' := by
    obtain ⟨c, cs', hcs, hc⟩ := exists_number_eq neg n cs
    refine ⟨c, cs', hcs, ?_, ?_⟩
    · rintro (rfl | rfl | rfl | rfl) <;> revert hc <;> decide
    · rintro rfl
      revert hc
      decide
  cases j with
  | null => exact ⟨'n', _, rfl, by simp [IsBlank], by decide⟩
  | unreadable => exact ⟨'n', _, rfl, by simp [IsBlank], by decide⟩
  | bool b =>
    cases b with
    | true => exact ⟨'t', _, rfl, by simp [IsBlank], by decide⟩
    | false => exact ⟨'f', _, rfl, by simp [IsBlank], by decide⟩
  | int i =>
    rw [writeOnto, writeInt_eq]
    exact hnumber _ _ _
  | dec neg m e =>
    rw [writeOnto, toList_toString, List.append_assoc]
    exact hnumber _ _ _
  | str s => exact ⟨'"', _, rfl, by simp [IsBlank], by decide⟩
  | arr xs =>
    cases xs with
    | nil => exact ⟨'[', _, rfl, by simp [IsBlank], by decide⟩
    | cons x xs => exact ⟨'[', _, rfl, by simp [IsBlank], by decide⟩
  | obj fields =>
    cases fields with
    | nil => exact ⟨'{', _, rfl, by simp [IsBlank], by decide⟩
    | cons f fields => exact ⟨'{', _, rfl, by simp [IsBlank], by decide⟩

/-! ## The rest of a text -/

lemma endsNumber_cons {c : Char} (hc : c.isDigit = false ∧ c ≠ '.' ∧ c ≠ 'e' ∧ c ≠ 'E')
    (cs : List Char) : EndsNumber (c :: cs) := by
  rintro d ⟨⟩
  exact hc

lemma endsNumber_newline {c : Char} (hc : c.isDigit = false ∧ c ≠ '.' ∧ c ≠ 'e' ∧ c ≠ 'E')
    (layout : Layout) (cs : List Char) : EndsNumber (layout.newline (c :: cs)) := by
  cases layout with
  | line => exact endsNumber_cons hc cs
  | lines indent => exact endsNumber_cons (by decide) _

/-- No number goes on after an item of an array. -/
lemma endsNumber_writeItems (layout : Layout) (xs : List Json) (rest : List Char) :
    EndsNumber (writeItems layout xs rest) := by
  cases xs with
  | nil => exact endsNumber_newline (by decide) layout rest
  | cons x xs => exact endsNumber_cons (by decide) _

/-- No number goes on after a field of an object. -/
lemma endsNumber_writeFields (layout : Layout) (fields : List (String × Json)) (rest : List Char) :
    EndsNumber (writeFields layout fields rest) := by
  cases fields with
  | nil => exact endsNumber_newline (by decide) layout rest
  | cons f fields => exact endsNumber_cons (by decide) _

/-- The name of a field takes some text. -/
lemma length_lt_name (layout layout' : Layout) (name : String) (cs : List Char) :
    cs.length < (layout'.newline (writeString name (layout.colon cs))).length := by
  obtain ⟨cs', hcolon, hle, -⟩ := exists_colon_eq layout cs
  have hname := length_writeString name (layout.colon cs)
  have hnewline := le_length_newline layout' (writeString name (layout.colon cs))
  rw [hcolon, List.length_cons] at hname
  rw [hcolon] at hnewline ⊢
  omega

mutual

/-- Every value takes some text. -/
theorem length_lt_writeOnto (layout : Layout) :
    ∀ (j : Json) (rest : List Char), rest.length < (writeOnto layout j rest).length
  | null, rest | unreadable, rest | bool true, rest | bool false, rest | arr [], rest
  | obj [], rest => by
    simp only [writeOnto, List.length_cons]
    omega
  | int i, rest => by
    have hdigits := List.length_pos_of_ne_nil (toDigits_ne_nil i.natAbs)
    rw [writeOnto, writeInt_eq, List.length_append, List.length_append]
    omega
  | dec neg m e, rest => by
    rw [writeOnto, writeInt_eq]
    simp only [List.length_append, List.length_cons]
    omega
  | str s, rest => by
    have hlength := length_writeString s rest
    rw [writeOnto]
    omega
  | arr (x :: xs), rest => by
    have hitem := length_lt_writeOnto layout.inner x (writeItems layout xs rest)
    have hitems := length_lt_writeItems layout xs rest
    have hnewline := le_length_newline layout.inner
      (writeOnto layout.inner x (writeItems layout xs rest))
    rw [writeOnto, List.length_cons]
    omega
  | obj ((name, x) :: fields), rest => by
    have hvalue := length_lt_writeOnto layout.inner x (writeFields layout fields rest)
    have hfields := length_lt_writeFields layout fields rest
    have hname := length_lt_name layout layout.inner name
      (writeOnto layout.inner x (writeFields layout fields rest))
    rw [writeOnto, List.length_cons]
    omega

/-- So do the items of an array that are left, and its end. -/
theorem length_lt_writeItems (layout : Layout) :
    ∀ (xs : List Json) (rest : List Char), rest.length < (writeItems layout xs rest).length
  | [], rest => by
    have hnewline := le_length_newline layout (']' :: rest)
    rw [List.length_cons] at hnewline
    rw [writeItems]
    omega
  | x :: xs, rest => by
    have hitem := length_lt_writeOnto layout.inner x (writeItems layout xs rest)
    have hitems := length_lt_writeItems layout xs rest
    have hnewline := le_length_newline layout.inner
      (writeOnto layout.inner x (writeItems layout xs rest))
    rw [writeItems, List.length_cons]
    omega

/-- So do the fields of an object that are left, and its end. -/
theorem length_lt_writeFields (layout : Layout) :
    ∀ (fields : List (String × Json)) (rest : List Char),
      rest.length < (writeFields layout fields rest).length
  | [], rest => by
    have hnewline := le_length_newline layout ('}' :: rest)
    rw [List.length_cons] at hnewline
    rw [writeFields]
    omega
  | (name, x) :: fields, rest => by
    have hvalue := length_lt_writeOnto layout.inner x (writeFields layout fields rest)
    have hfields := length_lt_writeFields layout fields rest
    have hname := length_lt_name layout layout.inner name
      (writeOnto layout.inner x (writeFields layout fields rest))
    rw [writeFields, List.length_cons]
    omega

end

/-! ## Reading what was written -/

/-- What the reader does after an item of an array. -/
def afterItem (fuel room : ℕ) (done : List Json) (cs : List Char) : Option (Json × List Char) :=
  match skipBlank cs with
  | ',' :: rest => readItems fuel room done rest
  | ']' :: rest => some (within room (arr done.reverse), rest)
  | _ => none

/-- What the reader does after a field of an object. -/
def afterField (fuel room : ℕ) (done : List (String × Json)) (cs : List Char) :
    Option (Json × List Char) :=
  match skipBlank cs with
  | ',' :: rest => readFields fuel room (some done) rest
  | '}' :: rest => some (within room (obj done.reverse), rest)
  | _ => none

lemma readItems_eq_afterItem {x : Json} {done : List Json} {cs : List Char}
    (h : readValue fuel (room - 1) cs = some (x, rest)) :
    readItems (fuel + 1) room done cs = afterItem fuel room (x :: done) rest := by
  rw [readItems, h]
  rfl

lemma readFields_eq_afterField {name : String} {x : Json} {done : List (String × Json)}
    {cs cs' : List Char} (hname : name.toList.length < fuel)
    (hcs : layout.colon cs = ':' :: cs')
    (h : readValue fuel (room - 1) cs' = some (x, rest)) :
    readFields (fuel + 1) room (some done) (writeString name (layout.colon cs))
      = afterField fuel room ((name, x) :: done) rest := by
  obtain ⟨text, htext, hread⟩ := readString_writeString name hname (layout.colon cs)
  have hquote : ¬ IsBlank '"' := by simp [IsBlank]
  have hcolon : ¬ IsBlank ':' := by simp [IsBlank]
  rw [htext, readFields, skipBlank_cons hquote]
  simp only [hread, hcs, skipBlank_cons hcolon, h]
  rfl

/-- The reader looks for items in an array that does not end at once. -/
lemma readValue_array {c : Char} {cs cs' : List Char} (hcs : skipBlank cs = c :: cs')
    (hc : c ≠ ']') : readValue (fuel + 1) room ('[' :: cs) = readItems fuel room [] (c :: cs') := by
  have hbracket : ¬ IsBlank '[' := by simp [IsBlank]
  rw [readValue, skipBlank_cons hbracket]
  simp only [hcs]
  split
  · next heq => exact absurd (List.cons.inj heq).1 hc
  · rfl

/-- The reader looks for fields in an object that begins with a name. -/
lemma readValue_object (cs : List Char) (name : String) (layout : Layout) :
    readValue (fuel + 1) room ('{' :: layout.newline (writeString name cs))
      = readFields fuel room (some []) (writeString name cs) := by
  have hbrace : ¬ IsBlank '{' := by simp [IsBlank]
  have hquote : ¬ IsBlank '"' := by simp [IsBlank]
  rw [readValue, skipBlank_cons hbrace]
  simp only [skipBlank_newline]
  rw [writeString, skipBlank_cons hquote]
  rfl

-- The induction is on the fuel: a value and what follows an item or a field use up one or two units
-- of it and begin with a character, so twice the length of the text is enough.
mutual

/-- The text of a value is read as the value, as far as it is not nested too deep. -/
theorem readValue_writeOnto (layout : Layout) (j : Json) (fuel room : ℕ) (rest : List Char)
    (hrest : EndsNumber rest) (hfuel : 2 * (writeOnto layout j rest).length < fuel) :
    readValue fuel room (writeOnto layout j rest) = some (clip room j, rest) := by
  obtain ⟨fuel, rfl⟩ := Nat.exists_eq_succ_of_ne_zero (Nat.ne_of_gt (Nat.zero_lt_of_lt hfuel))
  match j with
  | null => rfl
  | unreadable => rfl
  | bool true => rfl
  | bool false => rfl
  | int i => exact readValue_writeInt i hrest
  | dec neg m e => exact readValue_dec neg m e hrest
  | str s =>
    rw [writeOnto] at hfuel ⊢
    have hquote : ¬ IsBlank '"' := by simp [IsBlank]
    have hlength : s.toList.length < fuel := by
      have htext := length_writeString s rest
      omega
    obtain ⟨cs, hcs, hread⟩ := readString_writeString s hlength rest
    rw [hcs, readValue, skipBlank_cons hquote]
    simp only [hread]
    rfl
  | arr [] => rfl
  | arr (x :: xs) =>
    rw [writeOnto, List.length_cons] at hfuel
    have hnewline := le_length_newline layout.inner
      (writeOnto layout.inner x (writeItems layout xs rest))
    have hitem := length_lt_writeOnto layout.inner x (writeItems layout xs rest)
    obtain ⟨fuel, rfl⟩ := Nat.exists_eq_succ_of_ne_zero (show fuel ≠ 0 by omega)
    obtain ⟨c, cs, hcs, hblank, hc⟩ :=
      exists_writeOnto_eq layout.inner x (writeItems layout xs rest)
    -- the reader has to see that the array does not end at once
    have hskip : skipBlank (layout.inner.newline
        (writeOnto layout.inner x (writeItems layout xs rest))) = c :: cs := by
      rw [skipBlank_newline, hcs, skipBlank_cons hblank]
    rw [writeOnto, readValue_array hskip hc, ← hcs,
      readItems_eq_afterItem (readValue_writeOnto layout.inner x fuel (room - 1) _
        (endsNumber_writeItems layout xs rest) (by omega)),
      afterItem_writeItems layout xs fuel room [clip (room - 1) x] rest (by omega)]
    rfl
  | obj [] => rfl
  | obj ((name, x) :: fields) =>
    rw [writeOnto, List.length_cons] at hfuel
    rw [writeOnto, readValue_object,
      readFields_writeField layout name x fields fuel room [] rest (by omega)]
    rfl
termination_by (fuel, 0)

/-- The items of an array that are left are read. -/
theorem afterItem_writeItems (layout : Layout) (xs : List Json) (fuel room : ℕ) (done : List Json)
    (rest : List Char) (hfuel : 2 * (writeItems layout xs rest).length ≤ fuel) :
    afterItem fuel room done (writeItems layout xs rest)
      = some (within room (arr (done.reverse ++ clipItems (room - 1) xs)), rest) := by
  match xs with
  | [] =>
    have hbracket : ¬ IsBlank ']' := by simp [IsBlank]
    rw [writeItems, afterItem, skipBlank_newline, skipBlank_cons hbracket, clipItems,
      List.append_nil]
    rfl
  | x :: xs =>
    have hcomma : ¬ IsBlank ',' := by simp [IsBlank]
    rw [writeItems, List.length_cons] at hfuel
    have hnewline := le_length_newline layout.inner
      (writeOnto layout.inner x (writeItems layout xs rest))
    have hitem := length_lt_writeOnto layout.inner x (writeItems layout xs rest)
    obtain ⟨fuel, rfl⟩ := Nat.exists_eq_succ_of_ne_zero (show fuel ≠ 0 by omega)
    have hread := readValue_writeOnto layout.inner x fuel (room - 1) _
      (endsNumber_writeItems layout xs rest) (by omega)
    rw [← readValue_newline _ _ layout.inner] at hread
    rw [writeItems, afterItem, skipBlank_cons hcomma]
    change readItems (fuel + 1) room done _ = _
    rw [readItems_eq_afterItem hread, afterItem_writeItems layout xs fuel room _ rest (by omega),
      clipItems, List.reverse_cons, List.append_assoc]
    rfl
termination_by (fuel, 0)

/-- The first of the fields of an object that are left is read, and the others. -/
theorem readFields_writeField (layout : Layout) (name : String) (x : Json)
    (fields : List (String × Json)) (fuel room : ℕ) (done : List (String × Json))
    (rest : List Char)
    (hfuel : 2 * (layout.inner.newline (writeString name (layout.colon
      (writeOnto layout.inner x (writeFields layout fields rest))))).length < fuel) :
    readFields fuel room (some done) (writeString name (layout.colon
        (writeOnto layout.inner x (writeFields layout fields rest))))
      = some (within room (obj (done.reverse ++ clipFields (room - 1) ((name, x) :: fields))),
          rest) := by
  have htext := length_lt_name layout layout.inner name
    (writeOnto layout.inner x (writeFields layout fields rest))
  have hvalue := length_lt_writeOnto layout.inner x (writeFields layout fields rest)
  have hname := length_writeString name
    (layout.colon (writeOnto layout.inner x (writeFields layout fields rest)))
  have hnewline := le_length_newline layout.inner (writeString name
    (layout.colon (writeOnto layout.inner x (writeFields layout fields rest))))
  obtain ⟨fuel, rfl⟩ := Nat.exists_eq_succ_of_ne_zero (show fuel ≠ 0 by omega)
  obtain ⟨cs, hcs, -, hcolon⟩ := exists_colon_eq layout
    (writeOnto layout.inner x (writeFields layout fields rest))
  have hread := readValue_writeOnto layout.inner x fuel (room - 1) _
    (endsNumber_writeFields layout fields rest) (by omega)
  rw [← hcolon] at hread
  rw [readFields_eq_afterField (by omega) hcs hread,
    afterField_writeFields layout fields fuel room _ rest (by omega), clipFields,
    List.reverse_cons, List.append_assoc]
  rfl
termination_by (fuel, 0)

/-- The fields of an object that are left are read. -/
theorem afterField_writeFields (layout : Layout) (fields : List (String × Json))
    (fuel room : ℕ) (done : List (String × Json)) (rest : List Char)
    (hfuel : 2 * (writeFields layout fields rest).length ≤ fuel) :
    afterField fuel room done (writeFields layout fields rest)
      = some (within room (obj (done.reverse ++ clipFields (room - 1) fields)), rest) := by
  match fields with
  | [] =>
    have hbrace : ¬ IsBlank '}' := by simp [IsBlank]
    rw [writeFields, afterField, skipBlank_newline, skipBlank_cons hbrace, clipFields,
      List.append_nil]
    rfl
  | (name, x) :: fields =>
    have hcomma : ¬ IsBlank ',' := by simp [IsBlank]
    rw [writeFields, List.length_cons] at hfuel
    rw [writeFields, afterField, skipBlank_cons hcomma]
    change readFields fuel room (some done) _ = _
    rw [readFields_newline,
      readFields_writeField layout name x fields fuel room done rest (by omega)]
termination_by (fuel, 1)

end

/-- **Reading what was written.**  The text of a value, in either layout, is read as the value in
which everything that is nested too deep is unreadable. -/
theorem read?_writeOnto (layout : Layout) (j : Json) :
    read? (String.ofList (writeOnto layout j [])) = some (clip maxDepth j) := by
  have hends : EndsNumber [] := nofun
  rw [read?, String.toList_ofList]
  simp only [readValue_writeOnto layout j (2 * (writeOnto layout j []).length + 2) maxDepth [] hends
    (by omega)]
  rfl

end Roundoff.Json
