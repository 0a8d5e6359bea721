/-
# Numbers and strings in JSON texts

Reading is the inverse of writing for the parts of a text that hold no others: a number that is
followed by something that cannot belong to it, and a string, whatever follows its closing quote.
-/
import Mathlib
import Roundoff.Json

namespace Roundoff.Json

variable {c : Char} {ds rest : List Char} {n : ℕ}

/-! ## Blanks -/

/-- Whether the reader skips a character. -/
def IsBlank (c : Char) : Prop := c = ' ' ∨ c = '\t' ∨ c = '\n' ∨ c = '\r'

lemma skipBlank_blank (h : IsBlank c) (rest : List Char) : skipBlank (c :: rest) = skipBlank rest :=
  if_pos h

lemma skipBlank_cons (h : ¬ IsBlank c) (rest : List Char) : skipBlank (c :: rest) = c :: rest :=
  if_neg h

/-- A line end and the indentation after it are skipped. -/
@[simp] lemma skipBlank_newline (layout : Layout) (rest : List Char) :
    skipBlank (layout.newline rest) = skipBlank rest := by
  have hspaces (k : ℕ) : skipBlank (List.replicate k ' ' ++ rest) = skipBlank rest := by
    induction k with
    | zero => rfl
    | succ k ih =>
      rw [List.replicate_succ, List.cons_append, skipBlank_blank (.inl rfl), ih]
  cases layout with
  | line => rfl
  | lines indent =>
    change skipBlank ('\n' :: (List.replicate indent ' ' ++ rest)) = skipBlank rest
    rw [skipBlank_blank (.inr (.inr (.inl rfl))), hspaces]

/-! ## Digits -/

lemma toList_toString (n : ℕ) : (toString n).toList = Nat.toDigits 10 n := by
  rw [Nat.toString_eq_ofList_toDigits, String.toList_ofList]

lemma digitsValue_toDigits (n : ℕ) : digitsValue (Nat.toDigits 10 n) = n :=
  Nat.ofDigitChars_ten_toDigits

lemma isDigit_of_mem_toDigits (h : c ∈ Nat.toDigits 10 n) : c.isDigit = true :=
  Nat.isDigit_of_mem_toDigits (by omega) le_rfl h

lemma toDigits_ne_nil (n : ℕ) : Nat.toDigits 10 n ≠ [] := by
  rw [Nat.toDigits_eq_if (by omega)]
  split
  · exact List.cons_ne_nil _ _
  · simp

/-- The first digit is zero only if there is no other. -/
lemma head?_toDigits_ne (h : n ≠ 0) : (Nat.toDigits 10 n).head? ≠ some '0' := by
  induction n using Nat.strong_induction_on with
  | _ n ih =>
    rw [Nat.toDigits_eq_if (by omega)]
    split
    · next hn =>
      interval_cases n
      · exact absurd rfl h
      all_goals decide
    · next hn =>
      have hrest := ih (n / 10) (by omega) (by omega)
      rwa [List.head?_append_of_ne_nil _ (toDigits_ne_nil _)]

/-- So there are no leading zeros. -/
lemma not_leadingZero (n : ℕ) :
    ¬ ((Nat.toDigits 10 n).head? = some '0' ∧ 1 < (Nat.toDigits 10 n).length) := by
  rintro ⟨hzero, hlength⟩
  rcases eq_or_ne n 0 with rfl | hn
  · exact absurd hlength (by decide)
  · exact head?_toDigits_ne hn hzero

/-- The text does not go on with a digit. -/
def NoDigit (rest : List Char) : Prop := ∀ c ∈ rest.head?, c.isDigit = false

lemma takeWhile_isDigit (hds : ∀ c ∈ ds, c.isDigit = true) (hrest : NoDigit rest) :
    (ds ++ rest).takeWhile Char.isDigit = ds := by
  rw [List.takeWhile_append_of_pos hds]
  cases rest with
  | nil => simp
  | cons c rest => simp [hrest c rfl]

lemma dropWhile_isDigit (hds : ∀ c ∈ ds, c.isDigit = true) (hrest : NoDigit rest) :
    (ds ++ rest).dropWhile Char.isDigit = rest := by
  rw [List.dropWhile_append_of_pos hds]
  cases rest with
  | nil => rfl
  | cons c rest => simp [hrest c rfl]

lemma toDigits_append_ne (hc : c.isDigit = false) (n : ℕ) (rest rest' : List Char) :
    Nat.toDigits 10 n ++ rest ≠ c :: rest' := by
  obtain ⟨d, ds, hds⟩ := List.exists_cons_of_ne_nil (toDigits_ne_nil n)
  have hd : d.isDigit = true := isDigit_of_mem_toDigits (hds ▸ List.mem_cons_self)
  intro h
  rw [hds, List.cons_append, List.cons.injEq] at h
  rw [h.1, hc] at hd
  exact Bool.false_ne_true hd

lemma readDigits_toDigits (n : ℕ) (hrest : NoDigit rest) :
    readDigits (Nat.toDigits 10 n ++ rest) = some (Nat.toDigits 10 n, rest) := by
  have hdigits : ∀ c ∈ Nat.toDigits 10 n, c.isDigit = true := fun _ => isDigit_of_mem_toDigits
  have hempty : ¬ (Nat.toDigits 10 n).isEmpty = true := by
    rw [List.isEmpty_iff]
    exact toDigits_ne_nil n
  rw [readDigits, takeWhile_isDigit hdigits hrest, dropWhile_isDigit hdigits hrest]
  exact if_neg hempty

/-! ## Numbers -/

/-- The text does not go on with anything that may belong to a number. -/
def EndsNumber (rest : List Char) : Prop :=
  ∀ c ∈ rest.head?, c.isDigit = false ∧ c ≠ '.' ∧ c ≠ 'e' ∧ c ≠ 'E'

lemma EndsNumber.noDigit (h : EndsNumber rest) : NoDigit rest := fun c hc => (h c hc).1

/-- The sign in front of digits. -/
lemma readMinus_sign (neg : Bool) (n : ℕ) (rest : List Char) :
    readMinus ((if neg then ['-'] else []) ++ (Nat.toDigits 10 n ++ rest))
      = (neg, Nat.toDigits 10 n ++ rest) := by
  cases neg with
  | true => rfl
  | false =>
    change readMinus (Nat.toDigits 10 n ++ rest) = _
    rw [readMinus]
    exact toDigits_append_ne rfl n rest

lemma writeInt_eq (i : ℤ) (rest : List Char) :
    writeInt i rest
      = (if decide (i < 0) then ['-'] else []) ++ (Nat.toDigits 10 i.natAbs ++ rest) := by
  rw [writeInt, toList_toString, List.append_assoc]
  simp only [decide_eq_true_eq]

lemma signed_natAbs (i : ℤ) : (if decide (i < 0) then -(i.natAbs : ℤ) else i.natAbs) = i := by
  simp only [decide_eq_true_eq]
  split <;> omega

lemma readExponent_writeInt (i : ℤ) (hrest : NoDigit rest) :
    readExponent (writeInt i rest) = some (i, rest) := by
  have hsign : readSign (writeInt i rest) = (decide (i < 0), Nat.toDigits 10 i.natAbs ++ rest) := by
    rw [readSign, writeInt_eq, readMinus_sign]
    intro rest' h
    rw [writeInt_eq] at h
    split at h
    · cases h
    · exact toDigits_append_ne rfl _ _ _ h
  rw [readExponent, hsign]
  simp only [readDigits_toDigits _ hrest, Option.map_some, digitsValue_toDigits, signed_natAbs]

lemma readFraction_eq (h : ∀ c ∈ rest.head?, c ≠ '.') : readFraction rest = some (none, rest) := by
  rw [readFraction]
  rintro rest' rfl
  exact h '.' rfl rfl

/-- After the digits of a whole number, what follows is read before the number is put together. -/
lemma readNumber_sign (neg : Bool) (n : ℕ) {fraction : Option (List Char)} {exponent : Option ℤ}
    {rest' rest'' : List Char} (hrest : NoDigit rest)
    (hfraction : readFraction rest = some (fraction, rest'))
    (hscale : readScale rest' = some (exponent, rest'')) :
    readNumber ((if neg then ['-'] else []) ++ (Nat.toDigits 10 n ++ rest))
      = some (number neg (Nat.toDigits 10 n) fraction exponent, rest'') := by
  rw [readNumber, readMinus_sign]
  simp only [readDigits_toDigits _ hrest, Option.bind_eq_bind, Option.bind_some,
    if_neg (not_leadingZero n), hfraction, hscale]
  rfl

/-- A whole number is read back. -/
theorem readNumber_writeInt (i : ℤ) (hrest : EndsNumber rest) :
    readNumber (writeInt i rest) = some (int i, rest) := by
  have hfraction := readFraction_eq fun c hc => (hrest c hc).2.1
  have hscale : readScale rest = some (none, rest) := by
    rw [readScale]
    · rintro rest' rfl
      exact (hrest 'e' rfl).2.2.1 rfl
    · rintro rest' rfl
      exact (hrest 'E' rfl).2.2.2 rfl
  have hnumber : number (decide (i < 0)) (Nat.toDigits 10 i.natAbs) none none = int i := by
    have hminus : ¬ (decide (i < 0) = true ∧ i.natAbs = 0) := by
      rw [decide_eq_true_eq]
      omega
    simp only [number, Option.getD_none, List.append_nil, digitsValue_toDigits, Option.isNone_none,
      hminus, not_false_eq_true, and_self, if_true, signed_natAbs]
  rw [writeInt_eq, readNumber_sign _ _ hrest.noDigit hfraction hscale, hnumber]

/-- A number with an exponent is read back. -/
theorem readNumber_dec (neg : Bool) (m : ℕ) (e : ℤ) (hrest : NoDigit rest) :
    readNumber ((if neg then ['-'] else []) ++ (toString m).toList ++ 'e' :: writeInt e rest)
      = some (dec neg m e, rest) := by
  have hscale : readScale ('e' :: writeInt e rest) = some (some e, rest) := by
    rw [readScale, readExponent_writeInt e hrest]
    rfl
  have hnumber : number neg (Nat.toDigits 10 m) none (some e) = dec neg m e := by
    simp [number, digitsValue_toDigits]
  have hletter : NoDigit ('e' :: writeInt e rest) := by
    rintro c ⟨⟩
    rfl
  rw [toList_toString, List.append_assoc, readNumber_sign _ _ hletter (readFraction_eq ?_) hscale,
    hnumber]
  rintro c ⟨⟩
  decide

/-! ## Strings -/

lemma hexValue?_hexDigit (h : n < 16) : hexValue? (hexDigit n) = some n := by
  interval_cases n <;> rfl

/-- A control character is read back from its number. -/
lemma readUnicode_control (h : c.toNat < 32) (rest : List Char) :
    readUnicode ('0' :: '0' :: hexDigit (c.toNat / 16) :: hexDigit (c.toNat % 16) :: rest)
      = some (some c, rest) := by
  have hunit : readUnit ('0' :: '0' :: hexDigit (c.toNat / 16) :: hexDigit (c.toNat % 16) :: rest)
      = some (c.toNat, rest) := by
    have hzero : hexValue? '0' = some 0 := rfl
    have hvalue : ((0 * 16 + 0) * 16 + c.toNat / 16) * 16 + c.toNat % 16 = c.toNat := by omega
    simp only [readUnit, hzero, hexValue?_hexDigit (show c.toNat / 16 < 16 by omega),
      hexValue?_hexDigit (show c.toNat % 16 < 16 by omega), Option.bind_eq_bind, Option.bind_some,
      hvalue]
    rfl
  have hfirst : isFirstHalf c.toNat = false := by
    simp only [isFirstHalf, Bool.and_eq_false_iff, decide_eq_false_iff_not]
    omega
  have hsecond : isSecondHalf c.toNat = false := by
    simp only [isSecondHalf, Bool.and_eq_false_iff, decide_eq_false_iff_not]
    omega
  rw [readUnicode, hunit]
  simp [hfirst, hsecond, Char.ofNat_toNat]

/-- A character is written as it is, or escaped such that it is read back. -/
lemma escape_cases (c : Char) :
    (escape c = [c] ∧ c ≠ '"' ∧ c ≠ '\\' ∧ ¬ c.toNat < 32) ∨
      ∃ cs, escape c = '\\' :: cs ∧ ∀ rest, readEscape (cs ++ rest) = some (some c, rest) := by
  rw [escape]
  split
  · next h => exact .inr ⟨['"'], rfl, fun rest => by rw [h]; rfl⟩
  split
  · next h => exact .inr ⟨['\\'], rfl, fun rest => by rw [h]; rfl⟩
  split
  · next h => exact .inr ⟨['b'], rfl, fun rest => by rw [h]; rfl⟩
  split
  · next h => exact .inr ⟨['f'], rfl, fun rest => by rw [h]; rfl⟩
  split
  · next h => exact .inr ⟨['n'], rfl, fun rest => by rw [h]; rfl⟩
  split
  · next h => exact .inr ⟨['r'], rfl, fun rest => by rw [h]; rfl⟩
  split
  · next h => exact .inr ⟨['t'], rfl, fun rest => by rw [h]; rfl⟩
  split
  · next h => exact .inr ⟨_, rfl, readUnicode_control h⟩
  · next hquote hback _ _ _ _ _ h => exact .inl ⟨rfl, hquote, hback, h⟩

/-- A written character is read back. -/
lemma readString_escape (fuel : ℕ) (done : List Char) (c : Char) (rest : List Char) :
    readString (fuel + 1) (some done) (escape c ++ rest)
      = readString fuel (some (c :: done)) rest := by
  rcases escape_cases c with ⟨h, hquote, hback, hcontrol⟩ | ⟨cs, h, hread⟩
  · rw [h, List.singleton_append, readString]
    · exact if_neg hcontrol
    · exact hquote
    · exact hback
  · rw [h, List.cons_append, readString, hread]
    rfl

/-- The characters up to the closing quote are read back, after those read before. -/
lemma readString_chars (cs done : List Char) {fuel : ℕ} (hfuel : cs.length < fuel)
    (rest : List Char) :
    readString fuel (some done) (cs.foldr (fun c out => escape c ++ out) ('"' :: rest))
      = some (some (String.ofList (done.reverse ++ cs)), rest) := by
  induction cs generalizing done fuel with
  | nil =>
    obtain ⟨fuel, rfl⟩ := Nat.exists_eq_succ_of_ne_zero (Nat.ne_of_gt hfuel)
    rw [List.append_nil]
    rfl
  | cons c cs ih =>
    obtain ⟨fuel, rfl⟩ := Nat.exists_eq_succ_of_ne_zero (Nat.ne_of_gt (Nat.zero_lt_of_lt hfuel))
    rw [List.foldr_cons, readString_escape, ih _ (Nat.lt_of_succ_lt_succ hfuel),
      List.reverse_cons, List.append_assoc, List.singleton_append]

/-- A string is read back after its opening quote. -/
theorem readString_writeString (s : String) {fuel : ℕ} (hfuel : s.toList.length < fuel)
    (rest : List Char) :
    ∃ cs, writeString s rest = '"' :: cs ∧ readString fuel (some []) cs = some (some s, rest) := by
  refine ⟨_, rfl, ?_⟩
  rw [readString_chars _ _ hfuel, List.reverse_nil, List.nil_append, String.ofList_toList]

/-- A written string is longer than the string, apart from what follows it. -/
lemma length_writeString (s : String) (rest : List Char) :
    s.toList.length + rest.length + 2 ≤ (writeString s rest).length := by
  have hescape (c : Char) : 1 ≤ (escape c).length := by
    rcases escape_cases c with ⟨h, -⟩ | ⟨cs, h, -⟩
    · rw [h]
      rfl
    · rw [h, List.length_cons]
      omega
  have hchars (cs : List Char) : cs.length + rest.length + 1
      ≤ (cs.foldr (fun c out => escape c ++ out) ('"' :: rest)).length := by
    induction cs with
    | nil => simp
    | cons c cs ih =>
      have hc := hescape c
      rw [List.foldr_cons, List.length_append, List.length_cons]
      omega
  have hall := hchars s.toList
  rw [writeString, List.length_cons]
  omega

end Roundoff.Json
