/-
# Walking back over memory states

Going back from a state, a load passes the stores that miss its address and branches where a state
joins others, until it comes to a write that does not miss the address or to memory as the function
found it.  The relation `Memory.Reads` says so one state at a time.  The states that a load comes
upon are exactly those to which this relation leads: a state is written over one that was made
before it, so the walk over misses ends in as many steps as there are states, and so does the search
over joins.
-/
import Mathlib
import Roundoff.Memory.States
import Roundoff.Proofs.Flow.Search

namespace Roundoff

namespace Memory

variable {mem : Memory} {address : Origin} {load : InstId} {s t : StateId} {w : Option InstId}

/-- The states refer to states that exist, and a state is written over one that was made before
it. -/
structure WellFormed (mem : Memory) : Prop where
  before_lt : ∀ {s i before}, mem.state? s = some (.written i before) → before < s
  incoming_lt : ∀ {s b ts}, mem.state? s = some (.joined b ts) → ∀ t ∈ ts, t < mem.states.size

/-- `mem.Reads address s w`: going back from the state `s`, a load of the address may come upon the
write `w`, or, if there is none, upon memory as the function found it. -/
inductive Reads (mem : Memory) (address : Origin) : StateId → Option InstId → Prop
  /-- Memory is as the function found it. -/
  | initial {s : StateId} (hs : mem.state? s = some .initial) : Reads mem address s none
  /-- The write may have written the address. -/
  | hit {s before : StateId} {i : InstId} (hs : mem.state? s = some (.written i before))
      (hi : mem.misses i address = false) : Reads mem address s (some i)
  /-- The write misses the address. -/
  | skip {s before : StateId} {i : InstId} {w : Option InstId}
      (hs : mem.state? s = some (.written i before)) (hi : mem.misses i address = true)
      (hw : Reads mem address before w) : Reads mem address s w
  /-- Control may have come from any of several blocks. -/
  | join {s t : StateId} {b : BlockId} {ts : List StateId} {w : Option InstId}
      (hs : mem.state? s = some (.joined b ts)) (ht : t ∈ ts) (hw : Reads mem address t w) :
      Reads mem address s w

/-- The write that a state stands for; a join stands for none. -/
def write? (mem : Memory) (s : StateId) : Option (Option InstId) :=
  match mem.state? s with
  | some .initial => some none
  | some (.written i _) => some (some i)
  | _ => none

lemma state?_of_write?_none (h : mem.write? s = some none) : mem.state? s = some .initial := by
  rw [write?] at h
  cases hs : mem.state? s with
  | none => simp [hs] at h
  | some x => cases x <;> simp_all

lemma exists_state?_of_write?_some {i : InstId} (h : mem.write? s = some (some i)) :
    ∃ before, mem.state? s = some (.written i before) := by
  rw [write?] at h
  cases hs : mem.state? s with
  | none => simp [hs] at h
  | some x => cases x <;> simp_all

/-- Behind memory as the function found it there is nothing. -/
lemma Reads.eq_none_of_initial (h : mem.Reads address s w) (hs : mem.state? s = some .initial) :
    w = none := by
  cases h with
  | initial => rfl
  | hit hs' | skip hs' | join hs' => simp [hs] at hs'

lemma lt_size_of_state? {x : MemoryState} (hs : mem.state? s = some x) : s < mem.states.size :=
  (Array.getElem?_eq_some_iff.1 hs).1

/-! ## Passing stores that miss -/

/-- A walk over misses stops at the state. -/
def StopsAt (mem : Memory) (address : Origin) (s : StateId) : Prop :=
  ∀ i before, mem.state? s = some (.written i before) → mem.misses i address = false

lemma skipMisses_of_stopsAt (hs : mem.StopsAt address s) (steps : ℕ) :
    mem.skipMisses address steps s = s := by
  cases steps with
  | zero => rfl
  | succ steps =>
    rw [skipMisses]
    split
    · next i before hstate => rw [if_neg (by simp [hs i before hstate])]
    · rfl

lemma skipMisses_of_misses {i : InstId} {before : StateId}
    (hs : mem.state? s = some (.written i before)) (hi : mem.misses i address = true) (steps : ℕ) :
    mem.skipMisses address (steps + 1) s = mem.skipMisses address steps before := by
  rw [skipMisses, hs]
  exact if_pos hi

/-- A state stops the walk, or it was written by a store that misses. -/
lemma stopsAt_or_misses (mem : Memory) (address : Origin) (s : StateId) :
    mem.StopsAt address s ∨ ∃ i before, mem.state? s = some (.written i before) ∧
      mem.misses i address = true := by
  by_cases hs : mem.StopsAt address s
  · exact Or.inl hs
  · simp only [StopsAt, not_forall, Bool.not_eq_false] at hs
    obtain ⟨i, before, hstate, hi⟩ := hs
    exact Or.inr ⟨i, before, hstate, hi⟩

namespace WellFormed

variable (hmem : mem.WellFormed)

include hmem

/-- More steps than there are states before the given one make no difference. -/
lemma skipMisses_eq {steps steps' : ℕ} (hs : s < steps) (hs' : s < steps') :
    mem.skipMisses address steps s = mem.skipMisses address steps' s := by
  induction steps generalizing s steps' with
  | zero => exact absurd hs (Nat.not_lt_zero s)
  | succ steps ih =>
    obtain ⟨steps', rfl⟩ := Nat.exists_eq_succ_of_ne_zero (Nat.ne_zero_of_lt hs')
    rcases mem.stopsAt_or_misses address s with hstop | ⟨i, before, hstate, hi⟩
    · rw [skipMisses_of_stopsAt hstop, skipMisses_of_stopsAt hstop]
    · have hlt := hmem.before_lt hstate
      rw [skipMisses_of_misses hstate hi, skipMisses_of_misses hstate hi]
      exact ih (hlt.trans_le (Nat.le_of_lt_succ hs)) (hlt.trans_le (Nat.le_of_lt_succ hs'))

/-- With enough steps the walk ends where it has to stop. -/
lemma stopsAt_skipMisses {steps : ℕ} (hs : s < steps) :
    mem.StopsAt address (mem.skipMisses address steps s) := by
  induction steps generalizing s with
  | zero => exact absurd hs (Nat.not_lt_zero s)
  | succ steps ih =>
    rcases mem.stopsAt_or_misses address s with hstop | ⟨i, before, hstate, hi⟩
    · rwa [skipMisses_of_stopsAt hstop]
    · have hlt := hmem.before_lt hstate
      rw [skipMisses_of_misses hstate hi]
      exact ih (hlt.trans_le (Nat.le_of_lt_succ hs))

lemma skipMisses_le (steps : ℕ) : mem.skipMisses address steps s ≤ s := by
  induction steps generalizing s with
  | zero => exact le_rfl
  | succ steps ih =>
    rcases mem.stopsAt_or_misses address s with hstop | ⟨i, before, hstate, hi⟩
    · rw [skipMisses_of_stopsAt hstop]
    · rw [skipMisses_of_misses hstate hi]
      exact ih.trans (hmem.before_lt hstate).le

end WellFormed

/-- Passing stores that miss does not change what is read. -/
lemma Reads.of_skipMisses {steps : ℕ} (h : mem.Reads address (mem.skipMisses address steps s) w) :
    mem.Reads address s w := by
  induction steps generalizing s with
  | zero => exact h
  | succ steps ih =>
    rcases mem.stopsAt_or_misses address s with hstop | ⟨i, before, hstate, hi⟩
    · rwa [skipMisses_of_stopsAt hstop] at h
    · rw [skipMisses_of_misses hstate hi] at h
      exact .skip hstate hi (ih h)

/-! ## Searching over joins -/

section Search

variable (horigin : mem.origins.get? load = some address)

include horigin

lemma clobber_eq (s : StateId) : mem.clobber load s = mem.skipMisses address mem.states.size s := by
  rw [clobber, horigin]

lemma clobber_of_stopsAt (hs : mem.StopsAt address s) : mem.clobber load s = s := by
  rw [clobber_eq horigin, skipMisses_of_stopsAt hs]

lemma clobber_of_misses (hmem : mem.WellFormed) {i : InstId} {before : StateId}
    (hs : mem.state? s = some (.written i before)) (hi : mem.misses i address = true) :
    mem.clobber load s = mem.clobber load before := by
  have hlt := hmem.before_lt hs
  have hsize := lt_size_of_state? hs
  obtain ⟨n, hn⟩ := Nat.exists_eq_succ_of_ne_zero (Nat.ne_zero_of_lt hsize)
  rw [hn] at hsize
  rw [clobber_eq horigin, clobber_eq horigin, hn, skipMisses_of_misses hs hi]
  have hle : before < n := hlt.trans_le (Nat.le_of_lt_succ hsize)
  exact hmem.skipMisses_eq hle (hle.trans n.lt_succ_self)

omit horigin in
lemma mem_nextStates_iff :
    t ∈ mem.nextStates load s ↔
      ∃ b ts, mem.state? s = some (.joined b ts) ∧ ∃ u ∈ ts, mem.clobber load u = t := by
  rw [nextStates]
  split
  · next b ts hs => simp [hs]
  · next hs =>
    simp only [List.not_mem_nil, false_iff, not_exists, not_and]
    exact fun b ts hs' => absurd hs' (hs b ts)

/-- The search comes upon every write that may be read. -/
lemma Reads.exists_reached (hmem : mem.WellFormed) (h : mem.Reads address s w) :
    ∃ t, Relation.ReflTransGen (fun a b => b ∈ mem.nextStates load a) (mem.clobber load s) t ∧
      mem.write? t = some w := by
  induction h with
  | @initial s hs =>
    have hstop : mem.StopsAt address s := fun i before hs' => by simp [hs] at hs'
    rw [clobber_of_stopsAt horigin hstop]
    exact ⟨s, .refl, by rw [write?, hs]⟩
  | @hit s before i hs hi =>
    have hstop : mem.StopsAt address s := by
      intro j before' hs'
      obtain ⟨rfl, -⟩ : i = j ∧ before = before' := by simpa using hs.symm.trans hs'
      exact hi
    rw [clobber_of_stopsAt horigin hstop]
    exact ⟨s, .refl, by rw [write?, hs]⟩
  | skip hs hi _ ih => rwa [clobber_of_misses horigin hmem hs hi]
  | @join s t b ts w hs ht _ ih =>
    have hstop : mem.StopsAt address s := fun i before hs' => by simp [hs] at hs'
    obtain ⟨u, hpath, hu⟩ := ih
    rw [clobber_of_stopsAt horigin hstop]
    exact ⟨u, hpath.head (mem_nextStates_iff.2 ⟨b, ts, hs, t, ht, rfl⟩), hu⟩

lemma stopsAt_clobber (hmem : mem.WellFormed) (hs : s < mem.states.size) :
    mem.StopsAt address (mem.clobber load s) := by
  rw [clobber_eq horigin]
  exact hmem.stopsAt_skipMisses hs

/-- What the search comes upon may be read. -/
lemma Reads.of_reached (hmem : mem.WellFormed)
    (hpath : Relation.ReflTransGen (fun a b => b ∈ mem.nextStates load a) s t)
    (ht : mem.write? t = some w) (hstop : mem.StopsAt address s) : mem.Reads address s w := by
  induction hpath using Relation.ReflTransGen.head_induction_on with
  | refl =>
    rw [write?] at ht
    split at ht
    · next hs =>
      cases ht
      exact .initial hs
    · next i before hs =>
      cases ht
      exact .hit hs (hstop i before hs)
    · cases ht
  | head hedge _ ih =>
    obtain ⟨b, ts, hs, u, hu, rfl⟩ := mem_nextStates_iff.1 hedge
    have hreads := ih (stopsAt_clobber horigin hmem (hmem.incoming_lt hs u hu))
    rw [clobber_eq horigin] at hreads
    exact .join hs hu hreads.of_skipMisses

lemma clobber_lt (hmem : mem.WellFormed) (hs : s < mem.states.size) :
    mem.clobber load s < mem.states.size := by
  rw [clobber_eq horigin]
  exact (hmem.skipMisses_le _).trans_lt hs

omit horigin in
/-- The search goes on from states that exist. -/
lemma lt_size_of_mem_nextStates (hmem : mem.WellFormed) (ht : t ∈ mem.nextStates load s) :
    t < mem.states.size := by
  obtain ⟨b, ts, hs, u, hu, rfl⟩ := mem_nextStates_iff.1 ht
  have hlt := hmem.incoming_lt hs u hu
  rw [clobber]
  split
  · exact hlt
  · exact (hmem.skipMisses_le _).trans_lt hlt

/-- The states that a load comes upon are those that the search reaches. -/
lemma mem_statesOf_iff (hmem : mem.WellFormed) (hload : mem.loads.get? load = some s)
    (hs : s < mem.states.size) :
    t ∈ mem.statesOf load ↔
      Relation.ReflTransGen (fun a b => b ∈ mem.nextStates load a) (mem.clobber load s) t := by
  have hclosed : ∀ x ∈ Finset.range mem.states.size, ∀ y ∈ mem.nextStates load x,
      y ∈ Finset.range mem.states.size :=
    fun x _ y hy => Finset.mem_range.2 (lt_size_of_mem_nextStates hmem hy)
  have hcard : (Finset.range mem.states.size \ (Search.avoiding []).seen.toFinset).card
      ≤ mem.states.size := by
    simp [Search.avoiding]
  obtain ⟨found, hfound⟩ := (Search.finds_rules _).exists_visit hclosed
    (Finset.mem_range.2 (clobber_lt horigin hmem hs)) hcard
  rw [statesOf, hload]
  dsimp only
  rw [List.mem_reverse, hfound.mem_seen, Search.avoiding, or_iff_left List.not_mem_nil,
    hfound.mem_found_iff]

/-- **The walk finds what may be read.**  A load that reads the state `s` comes upon exactly the
writes that it may read, going back from `s`. -/
theorem exists_mem_statesOf_iff (hmem : mem.WellFormed) (hload : mem.loads.get? load = some s)
    (hs : s < mem.states.size) :
    (∃ t ∈ mem.statesOf load, mem.write? t = some w) ↔ mem.Reads address s w := by
  simp only [mem_statesOf_iff horigin hmem hload hs]
  constructor
  · rintro ⟨t, hpath, ht⟩
    have hreads := Reads.of_reached horigin hmem hpath ht (stopsAt_clobber horigin hmem hs)
    rw [clobber_eq horigin] at hreads
    exact hreads.of_skipMisses
  · exact Reads.exists_reached horigin hmem

end Search

end Memory

end Roundoff
