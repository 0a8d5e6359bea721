/-
# Pointer walks that are never cut short

Five walks of the analysis make a bounded number of turns: to the element that a pointer points to,
to the origin of a pointer, to the record of an address, to the formal parameter through which a
store writes, and back over memory states to one that may have written what a load reads.

Each of them is compared here with the walk that makes the same turns without a bound.  On the way
back from a pointer no instruction comes twice unless the pointer is computed in a circle, so each
bound suffices for all the instructions of a function.  In a circle the walk without a bound would
never end, and the one with a bound finds nothing.  Memory states are written over earlier ones, so
that there is no circle among them.

The main result is `Function.walksAreWhole`.
-/
import Mathlib
import Roundoff.Transfer.Memory
import Roundoff.Proofs.Analysis.Resolution
import Roundoff.Proofs.Memory.Blocks
import Roundoff.Proofs.Memory.Chase

namespace Roundoff

variable {R : Type} {m : Module R} {f : Function R} {v : Value R} {n : ℕ} {id : InstId}
  {passes : Instruction R → Option (Value R)}

/-- The pointer from which an address computation or a conversion starts. -/
def Instruction.converted? (i : Instruction R) : Option (Value R) :=
  match i.op with
  | .element base _ => some base
  | .cast _ operand => some operand
  | _ => none

/-! ## Chains of definitions -/

namespace Function

variable {σ α : Type} {turn : σ → α ⊕ σ} {value : σ → Value R} {s : σ}

/-- The result of a walk that makes one turn for each instruction and one more, without a circle. -/
lemma ends_getD_run? (ht : Chase.Tracks turn value (f.behind? passes))
    (h : ¬ Chase.IsCircular (f.behind? passes) (value s)) (hn : f.insts.size < n) (a : α) :
    Chase.Ends turn s ((Chase.run? turn n s).getD a) := by
  obtain ⟨b, hb⟩ := ht.exists_run? (fun _ _ => mem_results_of_behind?) h
    (f.card_results_le.trans_lt hn)
  rw [hb, Option.getD_some]
  exact Chase.ends_iff_exists_run?.2 ⟨n, hb⟩

/-- A walk in a circle finds nothing. -/
lemma getD_run?_of_isCircular (ht : Chase.Tracks turn value (f.behind? passes))
    (h : Chase.IsCircular (f.behind? passes) (value s)) (a : α) :
    (Chase.run? turn n s).getD a = a ∧ ∀ b, ¬ Chase.Ends turn s b := by
  rw [ht.run?_eq_none h, Option.getD_none]
  exact ⟨rfl, fun _ => ht.not_ends h⟩

end Function

/-! ## The origin of a pointer -/

namespace Origin

variable {groups : List (List (Option Int64))}

/-- One turn of the walk to the origin of a pointer, given the indices of the address computations
passed so far. -/
def turn (f : Function R) :
    Value R × List (List (Option Int64)) → Origin ⊕ Value R × List (List (Option Int64))
  | (.global g, groups) => .inl ⟨.global g, joinGroups true groups⟩
  | (.arg index, groups) => .inl ⟨.arg index, joinGroups true groups⟩
  | (.inst id, groups) =>
    match (f.inst? id).map Instruction.op with
    | some (.alloca _) => .inl ⟨.alloca id, joinGroups true groups⟩
    | some (.element base indices) => .inr (base, indices.map index :: groups)
    | some (.cast _ operand) => .inr (operand, groups)
    | _ => .inl ⟨.unknown, joinGroups true groups⟩
  | (_, groups) => .inl ⟨.unknown, joinGroups true groups⟩

lemma trace_eq_run? (n : ℕ) (groups : List (List (Option Int64))) (v : Value R) :
    trace f n groups v = (Chase.run? (turn f) n (v, groups)).getD unknown := by
  induction n generalizing groups v with
  | zero => rfl
  | succ n ih =>
    cases v with
    | inst id =>
      cases hi : f.inst? id with
      | none => simp only [trace, Chase.run?, turn, hi, Option.map_none, Option.getD_some]
      | some i =>
        cases hop : i.op <;>
          simp only [trace, Chase.run?, turn, hi, hop, Option.map_some, Option.getD_some, ih]
    | _ => rfl

lemma tracks_turn : Chase.Tracks (turn f) Prod.fst (f.behind? Instruction.converted?) := by
  rintro ⟨v, groups⟩
  cases v with
  | inst id =>
    cases hi : f.inst? id with
    | none => simp [turn, hi]
    | some i => cases hop : i.op <;> simp [turn, hi, hop, Instruction.converted?]
  | _ => rfl

end Origin

/-! ## The formal parameter behind a pointer -/

namespace Function

/-- One turn of the walk to the formal parameter that a pointer is derived from. -/
def formalTurn (f : Function R) : Value R → Option UInt32 ⊕ Value R
  | .arg n => .inl (some n)
  | .inst id =>
    match (f.inst? id).map Instruction.op with
    | some (.element base _) => .inr base
    | some (.cast _ operand) => .inr operand
    | _ => .inl none
  | _ => .inl none

lemma traceFormal?_eq_run? (n : ℕ) (v : Value R) :
    f.traceFormal? n v = (Chase.run? f.formalTurn n v).getD none := by
  induction n generalizing v with
  | zero => rfl
  | succ n ih =>
    cases v with
    | inst id =>
      cases hi : f.inst? id with
      | none =>
        simp only [traceFormal?, Chase.run?, formalTurn, hi, Option.map_none, Option.getD_some]
      | some i =>
        cases hop : i.op <;>
          simp only [traceFormal?, Chase.run?, formalTurn, hi, hop, Option.map_some,
            Option.getD_some, ih]
    | _ => rfl

lemma tracks_formalTurn :
    Chase.Tracks f.formalTurn (fun v => v) (f.behind? Instruction.converted?) := by
  intro v
  cases v with
  | inst id =>
    cases hi : f.inst? id with
    | none => simp [formalTurn, hi]
    | some i => cases hop : i.op <;> simp [formalTurn, hi, hop, Instruction.converted?]
  | _ => rfl

/-! ## The record of an address -/

variable {records : Records R} {e : Estimate R}

lemma ends_addressRecord? {load : InstId}
    (h : ¬ Chase.IsCircular (fun v => (f.recordTurn records v).getRight?) (.inst load)) :
    Chase.Ends (f.recordTurn records) (.inst load) (f.addressRecord? records load) := by
  obtain ⟨a, ha⟩ := tracks_recordTurn.exists_run?
    (fun _ _ hu => mem_results_of_behind? (behind?_of_recordTurn hu))
    h (Nat.lt_succ_of_le f.card_results_le)
  rw [addressRecord?_eq_run?, ha, Option.getD_some]
  exact Chase.ends_iff_exists_run?.2 ⟨_, ha⟩

/-- In a circle, only a record ends the walk. -/
lemma ne_none_of_ends {r : Option (Estimate R)} (h : Chase.Ends (f.recordTurn records) v r)
    (hv : Chase.IsCircular (f.behind? Instruction.pointer?) v) : r ≠ none := by
  induction h with
  | @stop v r h =>
    obtain ⟨pointer, hpointer⟩ := hv.exists_next
    obtain ⟨_, hnext⟩ := (hv.tail hpointer).exists_next
    obtain ⟨i, hi, -⟩ := Option.bind_eq_some_iff.1 hnext
    rw [recordTurn, hpointer] at h
    cases hrecord : (Key.of? f.id pointer).bind records with
    | some e =>
      simp only [hrecord, Sum.inl.injEq] at h
      exact h ▸ Option.some_ne_none e
    | none => simp [hrecord, hi] at h
  | goOn h _ ih => exact ih (hv.tail (recordTurn_eq_inr_iff.1 h).1)

/-- In a circle the walk finds a record, or there is none on the way. -/
lemma addressRecord?_of_isCircular {load : InstId}
    (h : Chase.IsCircular (f.behind? Instruction.pointer?) (.inst load)) :
    (∃ e, f.addressRecord? records load = some e ∧
        Chase.Ends (f.recordTurn records) (.inst load) (some e)) ∨
      f.addressRecord? records load = none ∧
        ∀ r, ¬ Chase.Ends (f.recordTurn records) (.inst load) r := by
  by_cases hrecord : Chase.IsCircular (fun v => (f.recordTurn records v).getRight?) (.inst load)
  · refine Or.inr ⟨?_, fun r => tracks_recordTurn.not_ends hrecord⟩
    rw [addressRecord?_eq_run?, tracks_recordTurn.run?_eq_none hrecord, Option.getD_none]
  · have hends := ends_addressRecord? hrecord
    obtain ⟨e, he⟩ := Option.ne_none_iff_exists'.1 (ne_none_of_ends hends h)
    exact Or.inl ⟨e, he, he ▸ hends⟩

end Function

/-! ## The state that a load reads -/

namespace Memory

variable {mem : Memory} {load : InstId} {s before : StateId}

/-- One turn of the walk back from a memory state: a write that provably misses the address of the
load is passed, and anything else stops the walk. -/
def missTurn (mem : Memory) (load : InstId) (s : StateId) : StateId ⊕ StateId :=
  match mem.origins.get? load, mem.state? s with
  | some address, some (.written inst before) =>
    if mem.misses inst address then .inr before else .inl s
  | _, _ => .inl s

lemma missTurn_of_stopsAt {address : Origin} (horigin : mem.origins.get? load = some address)
    (hs : mem.StopsAt address s) : mem.missTurn load s = .inl s := by
  rw [missTurn, horigin]
  cases hstate : mem.state? s with
  | none => rfl
  | some x =>
    cases x with
    | written i before => simp [hs i before hstate]
    | _ => rfl

lemma missTurn_of_misses {address : Origin} {inst : InstId}
    (horigin : mem.origins.get? load = some address)
    (hs : mem.state? s = some (.written inst before)) (hi : mem.misses inst address = true) :
    mem.missTurn load s = .inr before := by
  simp only [missTurn, horigin, hs, hi, if_true]

/-- Where a turn stops, the state itself is what is found. -/
lemma missTurn_or_clobber (hmem : mem.WellFormed) (load : InstId) (s : StateId) :
    mem.missTurn load s = .inl (mem.clobber load s) ∨
      ∃ before < s, mem.missTurn load s = .inr before ∧
        mem.clobber load s = mem.clobber load before := by
  cases horigin : mem.origins.get? load with
  | none => exact Or.inl (by rw [missTurn, clobber, horigin])
  | some address =>
    rcases mem.stopsAt_or_misses address s with hstop | ⟨i, before, hs, hi⟩
    · exact Or.inl (by rw [missTurn_of_stopsAt horigin hstop, clobber_of_stopsAt horigin hstop])
    · exact Or.inr ⟨before, hmem.before_lt hs, missTurn_of_misses horigin hs hi,
        clobber_of_misses horigin hmem hs hi⟩

/-- The walk back stops after at most one turn for each state. -/
lemma run?_missTurn (hmem : mem.WellFormed) (hs : s < n) :
    Chase.run? (mem.missTurn load) n s = some (mem.clobber load s) := by
  induction n generalizing s with
  | zero => exact absurd hs (Nat.not_lt_zero s)
  | succ n ih =>
    rcases missTurn_or_clobber hmem load s with hstop | ⟨before, hlt, hgoes, heq⟩
    · exact Chase.run?_of_inl hstop n
    · rw [Chase.run?_of_inr hgoes, heq]
      exact ih (hlt.trans_le (Nat.le_of_lt_succ hs))

/-- The states of a function suffice for the walk, whatever number it starts from. -/
lemma run?_missTurn_of (m : Module R) (f : Function R) (load : InstId) (s : StateId) :
    Chase.run? ((Memory.of m f).missTurn load) (Memory.of m f).states.size s
      = some ((Memory.of m f).clobber load s) := by
  rcases lt_or_ge s (Memory.of m f).states.size with hs | hs
  · exact run?_missTurn wellFormed_of hs
  · obtain ⟨n, hn⟩ := Nat.exists_eq_succ_of_ne_zero
      (Nat.ne_zero_of_lt (lt_size_of_state? (state?_of_zero (m := m) (f := f))))
    rcases missTurn_or_clobber (wellFormed_of (m := m) (f := f)) load s with
      hstop | ⟨before, _, hgoes, _⟩
    · rw [hn]
      exact Chase.run?_of_inl hstop n
    · have hnone : (Memory.of m f).state? s = none := Array.getElem?_eq_none hs
      simp [missTurn, hnone] at hgoes

end Memory

/-! ## All walks -/

/-- The bounds of the walks over pointers and memory states of a function show nowhere. -/
structure Function.WalksAreWhole (m : Module R) (f : Function R) : Prop where
  /-- A path is what the walk without a bound ends with. -/
  resolve : ∀ (o : Objects R) v, ¬ Chase.IsCircular (f.behind? Instruction.pointer?) v →
    Chase.Ends (o.turn m f) (v, []) (o.resolve? m f v)
  /-- A pointer that is computed and loaded in a circle leads nowhere. -/
  resolve_circular : ∀ (o : Objects R) v, Chase.IsCircular (f.behind? Instruction.pointer?) v →
    o.resolve? m f v = none ∧ ∀ r, ¬ Chase.Ends (o.turn m f) (v, []) r
  /-- An origin is what the walk without a bound ends with. -/
  origin : ∀ v, ¬ Chase.IsCircular (f.behind? Instruction.converted?) v →
    Chase.Ends (Origin.turn f) (v, []) (Origin.of f v)
  /-- A pointer that is computed and converted in a circle is of unknown origin. -/
  origin_circular : ∀ v, Chase.IsCircular (f.behind? Instruction.converted?) v →
    Origin.of f v = .unknown ∧ ∀ r, ¬ Chase.Ends (Origin.turn f) (v, []) r
  /-- The record of an address is what the walk without a bound ends with. -/
  record : ∀ records load, ¬ Chase.IsCircular (f.behind? Instruction.pointer?) (.inst load) →
    Chase.Ends (f.recordTurn records) (.inst load) (f.addressRecord? records load)
  /-- In a circle of addresses a record is found first, or there is none. -/
  record_circular : ∀ records load, Chase.IsCircular (f.behind? Instruction.pointer?) (.inst load) →
    (∃ e, f.addressRecord? records load = some e ∧
        Chase.Ends (f.recordTurn records) (.inst load) (some e)) ∨
      f.addressRecord? records load = none ∧
        ∀ r, ¬ Chase.Ends (f.recordTurn records) (.inst load) r
  /-- A formal parameter is what the walk without a bound ends with. -/
  formal : ∀ v, ¬ Chase.IsCircular (f.behind? Instruction.converted?) v →
    Chase.Ends f.formalTurn v (f.formalOf? v)
  /-- A pointer that is computed and converted in a circle is derived from no formal parameter. -/
  formal_circular : ∀ v, Chase.IsCircular (f.behind? Instruction.converted?) v →
    f.formalOf? v = none ∧ ∀ r, ¬ Chase.Ends f.formalTurn v r
  /-- The walk back over memory states stops by itself, after at most one turn for each state. -/
  clobber : ∀ load s, Chase.run? ((Memory.of m f).missTurn load) (Memory.of m f).states.size s
    = some ((Memory.of m f).clobber load s)

/-- **Walks are never cut short**, whatever the instructions of the function are and however they
refer to each other. -/
theorem Function.walksAreWhole (m : Module R) (f : Function R) : f.WalksAreWhole m where
  resolve o v h := by
    rw [Objects.resolve?, Objects.walk?_eq_run?]
    exact ends_getD_run? Objects.tracks_turn h (by omega) none
  resolve_circular o v h := by
    rw [Objects.resolve?, Objects.walk?_eq_run?]
    exact getD_run?_of_isCircular Objects.tracks_turn h none
  origin v h := by
    rw [Origin.of, Origin.trace_eq_run?]
    exact ends_getD_run? Origin.tracks_turn h (Nat.lt_succ_self _) .unknown
  origin_circular v h := by
    rw [Origin.of, Origin.trace_eq_run?]
    exact getD_run?_of_isCircular Origin.tracks_turn h .unknown
  record records load h := ends_addressRecord? fun hrecord =>
    h (hrecord.mono fun _ _ hu => behind?_of_recordTurn hu)
  record_circular records load h := addressRecord?_of_isCircular h
  formal v h := by
    rw [formalOf?, traceFormal?_eq_run?]
    exact ends_getD_run? tracks_formalTurn h (Nat.lt_succ_self _) none
  formal_circular v h := by
    rw [formalOf?, traceFormal?_eq_run?]
    exact getD_run?_of_isCircular tracks_formalTurn h none
  clobber := Memory.run?_missTurn_of m f

/-! ### All instructions in one chain -/

namespace LongChain

/-- An instruction of the functions below. -/
def instruction (id : InstId) (op : Operation ℝ) : Instruction ℝ :=
  ⟨id, ⟨0⟩, "", .pointer (.float 64), op, none, none⟩

/-- A function that computes a pointer from the given one with all its instructions. -/
def function (pointer : Value ℝ) : Function ℝ where
  id := ⟨0⟩
  name := "f"
  params := #[⟨"p", .pointer (.float 64), none⟩]
  retTy := .void
  blocks := #[⟨⟨0⟩, "entry", [⟨0⟩, ⟨1⟩, ⟨2⟩], none, none⟩]
  insts := #[instruction ⟨0⟩ (.element pointer [.constInt 1]),
    instruction ⟨1⟩ (.cast .bitCast (.inst ⟨0⟩)),
    instruction ⟨2⟩ (.element (.inst ⟨1⟩) [.constInt 2])]
  maxRecursion := none
  entryPoint := false

/-- The last turn of the walk is the one that finds the parameter. -/
example : (function (.arg 0)).formalOf? (.inst ⟨2⟩) = some 0 ∧
    (function (.arg 0)).traceFormal? 3 (.inst ⟨2⟩) = none := by decide +kernel

/-- The first pointer is computed from the last one. -/
example : Origin.of (function (.inst ⟨2⟩)) (.inst ⟨2⟩) = .unknown := by decide +kernel

end LongChain

end Roundoff
