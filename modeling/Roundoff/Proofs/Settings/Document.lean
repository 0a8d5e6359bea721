/-
# Settings and their documents

The document of settings is read back as the settings, if they are valid, and otherwise as the fault
that the check reports.  Lines that hold a default may be left out, as long as one line is left, and
lines may be added whose names are not settings: the section is read as if these were not there.
The document itself is not read if it has a key besides the version and the section.
-/
import Mathlib
import Roundoff.Proofs.Json.Tokens
import Roundoff.Proofs.Yaml.Nodes
import Roundoff.Settings.Document

namespace Roundoff

namespace Yaml

/-! ## Words as data -/

lemma hexValue?_of_isDigit {c : Char} (hc : c.isDigit = true) :
    Json.hexValue? c = some (c.toNat - 48) ∧ c.toNat - 48 < 10 := by
  have hbounds : '0' ≤ c ∧ c ≤ '9' := by
    rw [Char.isDigit, Bool.and_eq_true, decide_eq_true_eq, decide_eq_true_eq] at hc
    exact hc
  have hle : c.toNat ≤ 57 := UInt32.le_iff_toNat_le.1 hbounds.2
  exact ⟨if_pos hbounds, by omega⟩

lemma foldlM_digits {ds : List Char} (hds : ∀ c ∈ ds, c.isDigit = true) (n : ℕ) :
    ds.foldlM (fun n c => (Json.hexValue? c).bind fun d =>
        if d < 10 then some (10 * n + d) else none) n
      = some (ds.foldl (fun n c => 10 * n + (c.toNat - 48)) n) := by
  induction ds generalizing n with
  | nil => rfl
  | cons c ds ih =>
    obtain ⟨hc, hds⟩ := List.forall_mem_cons.1 hds
    obtain ⟨hvalue, hlt⟩ := hexValue?_of_isDigit hc
    rw [List.foldlM_cons, hvalue, Option.bind_some, if_pos hlt]
    exact ih hds _

/-- There is neither a sign nor the mark of another base. -/
lemma natural?_cons {c : Char} (hplus : c ≠ '+') (hzero : c ≠ '0') (ds : List Char) :
    natural? (c :: ds) = digits? 10 (c :: ds) := by
  rw [natural?, List.head?_cons, if_neg fun heq => hplus (Option.some_inj.1 heq)]
  split
  · next heq => exact absurd (List.cons.inj heq).1 hzero
  · next heq => exact absurd (List.cons.inj heq).1 hzero
  · next heq => exact absurd (List.cons.inj heq).1 hzero
  · next heq => exact absurd (List.cons.inj heq).1 hzero
  · rfl

/-- Decimal digits stand for the number that is written with them. -/
lemma natural?_toDigits (n : ℕ) : natural? (Nat.toDigits 10 n) = some n := by
  have hdigits : digits? 10 (Nat.toDigits 10 n) = some n := by
    rw [digits?, if_neg (by rw [List.isEmpty_iff]; exact Json.toDigits_ne_nil n),
      foldlM_digits fun _ => Json.isDigit_of_mem_toDigits]
    exact congrArg some (Json.digitsValue_toDigits n)
  rcases eq_or_ne n 0 with rfl | hn
  · rfl
  · obtain ⟨c, ds, hcons⟩ := List.exists_cons_of_ne_nil (Json.toDigits_ne_nil n)
    have hplus : c ≠ '+' := by
      rintro rfl
      have hdigit : '+'.isDigit = true :=
        Json.isDigit_of_mem_toDigits (n := n) (hcons ▸ List.mem_cons_self)
      exact absurd hdigit (by decide)
    have hzero : c ≠ '0' := by
      rintro rfl
      exact Json.head?_toDigits_ne hn (hcons ▸ List.head?_cons)
    rw [hcons, natural?_cons hplus hzero, ← hcons, hdigits]

lemma isWord_toString (x : UInt32) : IsWord (toString x).toList := by
  have htext : (toString x).toList = Nat.toDigits 10 x.toNat := Json.toList_toString x.toNat
  rw [htext]
  refine ⟨Json.toDigits_ne_nil _, fun c hc => ?_⟩
  rw [isWordChar, Char.isAlphanum, Json.isDigit_of_mem_toDigits hc, Bool.or_true, Bool.true_or]

/-- Whether a text is a word can be computed. -/
lemma isWord_of_all {text : String}
    (h : (!text.toList.isEmpty && text.toList.all isWordChar) = true) : IsWord text.toList := by
  obtain ⟨hne, hall⟩ := Bool.and_eq_true_iff.1 h
  refine ⟨fun hnil => ?_, List.all_eq_true.1 hall⟩
  rw [hnil] at hne
  cases hne

namespace Document

open Yaml.Reading

lemma word?_wordNode (d : Document) (x : UInt32) : d.word? (wordNode (toString x)) = some x := by
  have htext : (toString x).toList = Nat.toDigits 10 x.toNat := Json.toList_toString x.toNat
  change Option.bind (natural? (toString x).toList) _ = _
  rw [htext, natural?_toDigits, Option.bind_some, if_pos ⟨rfl, x.toNat_lt_size⟩]
  exact congrArg some UInt32.ofNat_toNat

lemma bool?_wordNode (d : Document) (b : Bool) :
    d.bool? (wordNode (Settings.boolText b)) = some b := by
  cases b <;> rfl

lemma record?_lines (d : Document) (ls : List (String × String)) :
    d.record? (.mapping none (ls.map lineNodes)) = some (ls.map fun l => (l.1, wordNode l.2)) := by
  change (ls.map lineNodes).mapM _ = _
  induction ls with
  | nil => rfl
  | cons l ls ih =>
    rw [List.map_cons, List.mapM_cons, ih]
    rfl

lemma exists_of_mapM {α β : Type} {f : α → Option β} {xs : List α} {ys : List β} {x : α}
    (h : xs.mapM f = some ys) (hx : x ∈ xs) : ∃ y ∈ ys, f x = some y := by
  induction xs generalizing ys with
  | nil => exact absurd hx List.not_mem_nil
  | cons x' xs ih =>
    rw [List.mapM_cons] at h
    obtain ⟨y', hy', h⟩ := Option.bind_eq_some_iff.1 h
    obtain ⟨ys', hys', h⟩ := Option.bind_eq_some_iff.1 h
    obtain rfl : y' :: ys' = ys := Option.some_inj.1 h
    rcases List.mem_cons.1 hx with rfl | hx
    · exact ⟨y', List.mem_cons_self, hy'⟩
    · obtain ⟨y, hy, hfx⟩ := ih hys' hx
      exact ⟨y, List.mem_cons_of_mem y' hy, hfx⟩

/-- The key of each pair is a text, and names a field. -/
lemma exists_field {d : Document} {n key value : Node} {tag : Option Octets}
    {pairs : List (Node × Node)} {fields : List (String × Node)}
    (hn : d.resolve? n = some (.mapping tag pairs)) (hfields : d.record? n = some fields)
    (hmem : (key, value) ∈ pairs) : ∃ name, d.text? key = some name ∧ (name, value) ∈ fields := by
  rw [record?, hn] at hfields
  obtain ⟨_, hfield, hpair⟩ := exists_of_mapM hfields hmem
  obtain ⟨name, hname, rfl⟩ := Option.map_eq_some_iff.1 hpair
  exact ⟨name, hname, hfield⟩

end Document

end Yaml

namespace Settings

open Yaml Yaml.Reading

variable {s : Settings} {l : String × String} {ls ls' : List (String × String)}

/-! ## Lines -/

/-- The names of the settings. -/
def names : List String := ({} : Settings).lines.map Prod.fst

/-- Each setting is written in one line. -/
lemma filter_lines (hl : l ∈ s.lines) : (s.lines.filter fun l' => l'.1 == l.1) = [l] := by
  simp only [lines, List.mem_cons, List.not_mem_nil, or_false] at hl
  rcases hl with rfl | rfl | rfl | rfl | rfl | rfl | rfl
  all_goals rfl

lemma isWord_name : ∀ name ∈ names, IsWord name.toList ∧ name.toList.length ≤ 1024 := by
  have hall : names.all (fun name => !name.toList.isEmpty && name.toList.all isWordChar) = true :=
    rfl
  have hlength : names.all (fun name => decide (name.toList.length ≤ 1024)) = true := rfl
  intro name hname
  exact ⟨isWord_of_all (List.all_eq_true.1 hall name hname),
    of_decide_eq_true (List.all_eq_true.1 hlength name hname)⟩

lemma isWord_value (hl : l ∈ s.lines) : IsWord l.2.toList := by
  have hbool (b : Bool) : IsWord (boolText b).toList := by
    cases b
    all_goals exact isWord_of_all rfl
  have hmode (mode : ReportMode) : IsWord mode.name.toList := by
    cases mode
    all_goals exact isWord_of_all rfl
  simp only [lines, List.mem_cons, List.not_mem_nil, or_false] at hl
  rcases hl with rfl | rfl | rfl | rfl | rfl | rfl | rfl
  · exact isWord_toString _
  · exact hbool _
  · exact isWord_toString _
  · exact isWord_toString _
  · exact hbool _
  · exact hmode _
  · exact hbool _

lemma mem_names (hl : l ∈ s.lines) : l.1 ∈ names := by
  have hmem : l.1 ∈ s.lines.map Prod.fst := List.mem_map_of_mem hl
  exact hmem

lemma isLine_of_mem_lines (hl : l ∈ s.lines) : IsLine l :=
  have hname := isWord_name l.1 (mem_names hl)
  ⟨hname.1, hname.2, isWord_value hl⟩

/-- The lines give each setting its value once, or leave it out where the value is the default.
Lines with other names do not matter. -/
structure Gives (ls : List (String × String)) (s : Settings) : Prop where
  /-- Names and values are words. -/
  isLine : ∀ l ∈ ls, IsLine l
  /-- A setting that is left out has its default. -/
  given_or_default : ∀ l ∈ s.lines, (ls.filter fun l' => l'.1 == l.1) = [l]
    ∨ (ls.filter fun l' => l'.1 == l.1) = [] ∧ l ∈ ({} : Settings).lines

/-- Lines of the document are left out that hold a default. -/
lemma gives_of_sublist (hls : ls.Sublist s.lines)
    (hdrop : ∀ l ∈ s.lines, l ∉ ls → l ∈ ({} : Settings).lines) : Gives ls s where
  isLine l hl := isLine_of_mem_lines (hls.subset hl)
  given_or_default l hl := by
    have hsub : (ls.filter fun l' => l'.1 == l.1).Sublist [l] :=
      filter_lines hl ▸ hls.filter fun l' => l'.1 == l.1
    rcases List.sublist_singleton.1 hsub with hnone | hone
    · refine .inr ⟨hnone, hdrop l hl fun hmem => ?_⟩
      exact List.filter_eq_nil_iff.1 hnone l hmem (beq_self_eq_true l.1)
    · exact .inl hone

/-- A line is added whose name is not a setting. -/
lemma Gives.add_other (h : Gives (ls ++ ls') s) (hl : IsLine l) (hname : l.1 ∉ names) :
    Gives (ls ++ l :: ls') s where
  isLine l' hl' := by
    rcases List.mem_append.1 hl' with hl' | hl'
    · exact h.isLine l' (List.mem_append_left _ hl')
    · rcases List.mem_cons.1 hl' with rfl | hl'
      · exact hl
      · exact h.isLine l' (List.mem_append_right _ hl')
  given_or_default l' hl' := by
    have hne : (l.1 == l'.1) = false := by
      rw [beq_eq_false_iff_ne]
      intro heq
      exact hname (heq ▸ mem_names hl')
    have hfilter : ((ls ++ l :: ls').filter fun l'' => l''.1 == l'.1)
        = (ls ++ ls').filter fun l'' => l''.1 == l'.1 := by
      rw [List.filter_append, List.filter_append, List.filter_cons_of_neg (by simpa using hne)]
    rw [hfilter]
    exact h.given_or_default l' hl'

/-! ## Sections -/

/-- A field of a section is read from lines that give it. -/
lemma Gives.field? {α : Type} (h : Gives ls s) {name : String} {text : α → String}
    {read : Yaml.Node → Option α} (hread : ∀ x, read (wordNode (text x)) = some x)
    (get : Settings → α) (hmem : ∀ s : Settings, (name, text (get s)) ∈ s.lines) :
    Yaml.field? (ls.map fun l => (l.1, wordNode l.2)) name read (some (get {})) = some (get s) := by
  have hfilter : ((ls.map fun l => (l.1, wordNode l.2)).filter fun f => f.1 == name)
      = (ls.filter fun l => l.1 == name).map fun l => (l.1, wordNode l.2) := by
    rw [List.filter_map]
    rfl
  rcases h.given_or_default _ (hmem s) with hone | ⟨hnone, hdefault⟩
  · rw [Yaml.field?, hfilter, hone]
    exact hread (get s)
  · have htext : text (get {}) = text (get s) := by
      have hleft := filter_lines (hmem {})
      have hright := filter_lines hdefault
      exact congrArg Prod.snd (List.singleton_inj.1 (hleft.symm.trans hright))
    rw [Yaml.field?, hfilter, hnone]
    change some (get {}) = some (get s)
    rw [← hread (get {}), htext, hread]

lemma Gives.ofSection? (h : Gives ls s) (d : Yaml.Document) :
    ofSection? d (.mapping none (ls.map lineNodes)) = some s := by
  have hmode (mode : ReportMode) : ((d.choice? (wordNode mode.name)).bind fun name =>
      ReportMode.all.find? fun m => m.name == name) = some mode := by
    cases mode
    all_goals rfl
  rw [Settings.ofSection?, d.record?_lines]
  simp only [Option.bind_eq_bind, Option.bind_some]
  rw [h.field? d.word?_wordNode defaultUnrollCount fun s => by simp [lines]]
  rw [h.field? d.bool?_wordNode noLoopUnroll fun s => by simp [lines]]
  rw [h.field? d.word?_wordNode cmpErrorThreshold fun s => by simp [lines]]
  rw [h.field? d.word?_wordNode defaultMaxRecursion fun s => by simp [lines]]
  rw [h.field? d.bool?_wordNode propagateOnlyFlagged fun s => by simp [lines]]
  rw [h.field? hmode reportMode fun s => by simp [lines]]
  rw [h.field? d.bool?_wordNode lipschitzLoops fun s => by simp [lines]]
  rfl

/-! ## Documents -/

lemma toList_document (ls : List (String × String)) :
    (document ls).toList
      = lineText ("version", "1") ("errorprop".toList ++ ':' :: '\n' :: linesText 2 ls) := by
  have hlines : (String.join (ls.map fun l => "  " ++ l.1 ++ ": " ++ l.2 ++ "\n")).toList
      = linesText 2 ls := by
    rw [String.toList_join]
    induction ls with
    | nil => rfl
    | cons l ls ih =>
      rw [List.map_cons, List.flatMap_cons, ih]
      simp only [String.toList_append, List.append_assoc]
      rfl
  rw [document, String.toList_append, hlines]
  rfl

lemma Gives.ofDocument? (h : Gives ls s) :
    ofDocument? ⟨.mapping none [lineNodes ("version", "1"),
      (wordNode "errorprop", .mapping none (ls.map lineNodes))], ∅⟩
        = some (documentVersion, s) := by
  let sectionNode : Yaml.Node := .mapping none (ls.map lineNodes)
  let d : Yaml.Document :=
    ⟨.mapping none [lineNodes ("version", "1"), (wordNode "errorprop", sectionNode)], ∅⟩
  have hrecord : d.record? d.root
      = some [("version", wordNode "1"), ("errorprop", sectionNode)] := rfl
  have hversion : d.word? (wordNode "1") = some documentVersion := d.word?_wordNode 1
  have hsection : Settings.ofSection? d sectionNode = some s := h.ofSection? d
  change Settings.ofDocument? d = _
  rw [Settings.ofDocument?, hrecord]
  change Option.bind (d.word? (wordNode "1")) (fun version =>
    Option.bind (Settings.ofSection? d sectionNode) fun settings => some (version, settings)) = _
  rw [hversion, hsection]
  rfl

/-- **Reading settings**: lines that give settings are read as these settings, or as their fault. -/
theorem Gives.read_document (h : Gives ls s) (hne : ls ≠ []) :
    read (document ls) = s.validate.map fun _ => s := by
  obtain ⟨l, ls, rfl⟩ := List.exists_cons_of_ne_nil hne
  have hversion : IsLine ("version", "1") := ⟨isWord_of_all rfl, by decide, isWord_of_all rfl⟩
  have htokens := tokens?_section hversion (isWord_of_all rfl) (by decide) h.isLine
    (toList_document (l :: ls))
  have hdocument : (Yaml.Document.read? (document (l :: ls))).bind Settings.ofDocument?
      = some (documentVersion, s) := by
    rw [Yaml.Document.read?, htokens, Option.bind_some, ofTokens?_section]
    exact h.ofDocument?
  rw [read, hdocument, validate]
  dsimp only
  rw [if_neg (not_not_intro rfl)]
  cases s.fault?
  · rfl
  · rfl

/-- **Round trip**: the document of settings is read as these settings, or as the fault of the
settings.  So is each document in which lines of the section are left out that hold the default, as
long as one line is left. -/
theorem read_write (s : Settings) :
    read s.write = s.validate.map (fun _ => s)
      ∧ ∀ ls : List (String × String), ls.Sublist s.lines → ls ≠ [] →
          (∀ l ∈ s.lines, l ∉ ls → l ∈ ({} : Settings).lines) →
          read (document ls) = s.validate.map fun _ => s := by
  refine ⟨?_, fun ls hls hne hdrop => (gives_of_sublist hls hdrop).read_document hne⟩
  have hall : Gives s.lines s :=
    gives_of_sublist (List.Sublist.refl s.lines) fun l hl hnot => absurd hl hnot
  exact hall.read_document (List.cons_ne_nil _ _)

/-- All other settings have their defaults; a threshold above the greatest one is reported. -/
theorem read_write_threshold :
    read (document [("cmp_error_threshold", "7")]) = .ok { cmpErrorThreshold := 7 }
      ∧ read (document [("cmp_error_threshold", "101")])
        = .error (.outOfRange "cmp_error_threshold" 101 0 100 "The threshold is a percentage") :=
  ⟨(read_write { cmpErrorThreshold := 7 }).2 [("cmp_error_threshold", "7")] (by decide)
      (List.cons_ne_nil _ _) (by decide),
    (read_write { cmpErrorThreshold := 101 }).2 [("cmp_error_threshold", "101")] (by decide)
      (List.cons_ne_nil _ _) (by decide)⟩

/-! ## Other names -/

/-- **Keys of the document**: there is no key besides the version and the section, whatever it
stands for. -/
theorem read_of_mem_other {text : String} {d : Yaml.Document} {tag : Option Octets}
    {pairs : List (Yaml.Node × Yaml.Node)} {key value : Yaml.Node}
    (hd : Yaml.Document.read? text = some d)
    (hroot : d.resolve? d.root = some (.mapping tag pairs)) (hmem : (key, value) ∈ pairs)
    (hversion : d.text? key ≠ some "version") (hsection : d.text? key ≠ some "errorprop") :
    read text = .error .syntaxError := by
  have hnone : Settings.ofDocument? d = none := by
    rw [Settings.ofDocument?]
    cases hrecord : d.record? d.root with
    | none => rfl
    | some fields =>
      obtain ⟨name, hname, hfield⟩ := Yaml.Document.exists_field hroot hrecord hmem
      rw [hname] at hversion hsection
      change (if fields.all (fun f => f.1 == "version" || f.1 == "errorprop")
        = true then _ else none)
        = none
      refine if_neg fun hall => ?_
      have hkey := List.all_eq_true.1 hall _ hfield
      rcases Bool.or_eq_true_iff.1 hkey with heq | heq
      · exact hversion (congrArg some (eq_of_beq heq))
      · exact hsection (congrArg some (eq_of_beq heq))
  rw [read, hd, Option.bind_some, hnone]

/-- **Names in the section**: it is read as if fields whose names are not settings were not there. -/
theorem ofSection?_filter {d : Yaml.Document} {n n' : Yaml.Node}
    {fields : List (String × Yaml.Node)}
    (hn : d.record? n = some fields)
    (hn' : d.record? n' = some (fields.filter fun f => names.contains f.1)) :
    Settings.ofSection? d n' = Settings.ofSection? d n := by
  have hfield {α : Type} {name : String} (hname : names.contains name = true)
      (read : Yaml.Node → Option α) (default : Option α) :
      Yaml.field? (fields.filter fun f => names.contains f.1) name read default
        = Yaml.field? fields name read default := by
    have hfilter : ((fields.filter fun f => names.contains f.1).filter fun f => f.1 == name)
        = fields.filter fun f => f.1 == name := by
      rw [List.filter_filter]
      refine List.filter_congr fun f _ => ?_
      by_cases hf : f.1 == name
      · rw [hf, eq_of_beq hf, hname]
        rfl
      · rw [Bool.not_eq_true] at hf
        rw [hf, Bool.false_and]
    rw [Yaml.field?, hfilter]
    rfl
  rw [Settings.ofSection?, Settings.ofSection?, hn, hn']
  simp only [Option.bind_eq_bind, Option.bind_some]
  iterate 7 rw [hfield rfl]

/-- Lines whose names are not settings are passed over. -/
theorem read_document_other (h : Gives (ls ++ ls') s) (hl : IsLine l) (hname : l.1 ∉ names) :
    read (document (ls ++ l :: ls')) = s.validate.map fun _ => s :=
  (h.add_other hl hname).read_document (by simp)

/-- So a misspelt setting keeps its default. -/
theorem read_misspelt :
    read "version: 1\nerrorprop:\n  default_unrol_count: 4\n" = .ok {} := by
  have hnone : Gives ([] ++ []) {} := ⟨nofun, fun l hl => .inr ⟨rfl, hl⟩⟩
  have hline : IsLine ("default_unrol_count", "4") :=
    ⟨isWord_of_all rfl, by decide, isWord_of_all rfl⟩
  have htext : document ([] ++ ("default_unrol_count", "4") :: [])
      = "version: 1\nerrorprop:\n  default_unrol_count: 4\n" := by decide
  rw [← htext, read_document_other hnone hline (by decide)]
  rfl

end Settings

end Roundoff
