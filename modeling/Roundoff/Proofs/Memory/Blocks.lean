/-
# How the memory states follow the instructions

Memory states are made block by block in reverse postorder.  Within a block every instruction that
may write makes a state over the one before it, so the states lead from the start of the block to
its end.  A block starts from memory as the function found it, from the end of the only block that
it may follow, or from a state that joins the ends of several.  States are only ever added, and
the state at the end of a block is recorded when the block is done, which is before any block that
starts from it.

The main results are `Memory.startsFrom_firstState`, `Memory.leads_of` and `Memory.exists_loads_of`:
how blocks start, that the states lead through every block, and that a load reads the state to which
the instructions before it lead.
-/
import Mathlib
import Roundoff.Proofs.Flow.Paths
import Roundoff.Proofs.Memory.Instructions

namespace Roundoff

namespace Memory

variable {R : Type} {m : Module R} {f : Function R} {s t : StateId} {i : Instruction R}
  {id : InstId}

/-! ## One block -/

section Blocks

variable {g : FlowGraph} {order joins bs rest : List BlockId} {p : Progress} {b : BlockId}

/-- The state in which a block starts. -/
def startState (g : FlowGraph) (order joins : List BlockId) (atEnd : Table BlockId StateId)
    (b : BlockId) : StateId :=
  match joins.findIdx? (· == b) with
  | some n => n + 1
  | none => ((reachablePredecessors g order b).head?.bind atEnd.get?).getD 0

/-- What following memory through a block comes to. -/
abbrev throughBlock (m : Module R) (f : Function R) (g : FlowGraph) (order joins : List BlockId)
    (p : Progress) (b : BlockId) : Memory × StateId :=
  (f.blockInsts b).foldl (step m f) (p.memory, startState g order joins p.atEnd b)

lemma stepBlock_eq :
    stepBlock m f g order joins p b = ⟨(throughBlock m f g order joins p b).1,
      p.atEnd.insert b (throughBlock m f g order joins p b).2⟩ := rfl

/-- The states made so far are in order. -/
structure Progress.Sound (f : Function R) (joins : List BlockId) (p : Progress) : Prop where
  /-- The states refer to each other as they should. -/
  wellFormed : p.memory.WellFormed
  /-- Only origins of addresses are known. -/
  originsOf : f.InstsInPlace → p.memory.OriginsOf f
  /-- There are states for all joins. -/
  joins_lt : joins.length < p.memory.states.size
  /-- The states at the ends of blocks exist. -/
  atEnd_lt : ∀ b s, p.atEnd.get? b = some s → s < p.memory.states.size

namespace Progress.Sound

lemma startState_lt (hp : p.Sound f joins) (b : BlockId) :
    startState g order joins p.atEnd b < p.memory.states.size := by
  rw [startState]
  split
  · next n hn =>
    have hlt := (List.findIdx?_eq_some_iff_getElem.1 hn).1
    exact (Nat.succ_le_of_lt hlt).trans_lt hp.joins_lt
  · cases hend : (reachablePredecessors g order b).head?.bind p.atEnd.get? with
    | none => exact (Nat.zero_le _).trans_lt hp.joins_lt
    | some s =>
      obtain ⟨q, -, hq⟩ := Option.bind_eq_some_iff.1 hend
      exact hp.atEnd_lt q s hq

lemma follows (hp : p.Sound f joins) (b : BlockId) :
    Follows m f p.memory (startState g order joins p.atEnd b) (f.blockInsts b)
      (throughBlock m f g order joins p b) :=
  follows_foldl hp.wellFormed (hp.startState_lt b) _

lemma stepBlock (hp : p.Sound f joins) (b : BlockId) :
    (stepBlock m f g order joins p b).Sound f joins := by
  have h : Follows m f p.memory (startState g order joins p.atEnd b) (f.blockInsts b)
      (throughBlock m f g order joins p b) := hp.follows b
  refine ⟨h.wellFormed,
    fun hf => h.originsOf (fun _ hi => hf.inst?_of_mem_blockInsts hi) (hp.originsOf hf),
    hp.joins_lt.trans_le h.extends_memory.size_le, fun c s hs => ?_⟩
  rw [stepBlock_eq, Table.get?_insert] at hs
  split at hs
  · cases hs
    exact h.lt_size
  · exact (hp.atEnd_lt c s hs).trans_le h.extends_memory.size_le

lemma foldl (hp : p.Sound f joins) (bs : List BlockId) :
    (bs.foldl (Memory.stepBlock m f g order joins) p).Sound f joins ∧
      p.memory.Extends (bs.foldl (Memory.stepBlock m f g order joins) p).memory := by
  induction bs generalizing p with
  | nil => exact ⟨hp, .refl _⟩
  | cons b bs ih =>
    have hstep : (Memory.stepBlock m f g order joins p b).Sound f joins := hp.stepBlock b
    obtain ⟨hsound, hextends⟩ := ih hstep
    exact ⟨hsound, (hp.follows b).extends_memory.trans hextends⟩

end Progress.Sound

/-- The state at the end of a block is recorded once. -/
lemma atEnd_foldl_of_notMem (hb : b ∉ bs) :
    (bs.foldl (stepBlock m f g order joins) p).atEnd.get? b = p.atEnd.get? b := by
  induction bs generalizing p with
  | nil => rfl
  | cons c bs ih =>
    rw [List.mem_cons, not_or] at hb
    rw [List.foldl_cons, ih hb.2, stepBlock_eq, Table.get?_insert, if_neg (Ne.symm hb.1)]

/-- The state that a load reads is recorded where the load stands. -/
lemma loads_foldl_stepBlock_of_notMem
    (hid : ∀ b ∈ bs, id ∉ (f.blockInsts b).map Instruction.id) :
    (bs.foldl (stepBlock m f g order joins) p).memory.loads.get? id = p.memory.loads.get? id := by
  induction bs generalizing p with
  | nil => rfl
  | cons b bs ih =>
    rw [List.foldl_cons, ih fun c hc => hid c (List.mem_cons_of_mem _ hc), stepBlock_eq]
    exact loads_foldl_of_notMem _ (hid b List.mem_cons_self)

end Blocks

/-! ## All blocks -/

section Flow

/-- The blocks in the order in which memory is followed through them. -/
abbrev order (f : Function R) : List BlockId := (FlowGraph.of f).reversePostorder

/-- The blocks that start from a join. -/
abbrev joins (f : Function R) : List BlockId := (order f).filter (isJoin (FlowGraph.of f) (order f))

/-- What is known after some blocks. -/
def following (m : Module R) (f : Function R) (bs : List BlockId) : Progress :=
  bs.foldl (stepBlock m f (FlowGraph.of f) (order f) (joins f))
    ⟨⟨(.initial :: (joins f).map fun b => .joined b []).toArray, ∅, ∅⟩, ∅⟩

/-- The state at the end of a block. -/
def lastState (m : Module R) (f : Function R) (b : BlockId) : StateId :=
  ((following m f (order f)).atEnd.get? b).getD 0

/-- The state at the start of a block. -/
def firstState (m : Module R) (f : Function R) (b : BlockId) : StateId :=
  startState (FlowGraph.of f) (order f) (joins f) (following m f (order f)).atEnd b

variable {b p : BlockId} {bs rest : List BlockId}

lemma mem_reachablePredecessors_iff :
    p ∈ reachablePredecessors (FlowGraph.of f) (order f) b ↔
      b ∈ (FlowGraph.of f).targetsOf p ∧ p ∈ order f := by
  rw [reachablePredecessors, List.mem_filter, FlowGraph.mem_predecessors_iff,
    List.contains_iff_mem]

/-! ### The states before joins are filled in -/

lemma state?_following_nil (s : StateId) :
    (following m f []).memory.state? s
      = (MemoryState.initial :: (joins f).map fun b => .joined b [])[s]? := by
  rw [state?, following, List.foldl_nil, List.getElem?_toArray]

lemma sound_following_nil (m : Module R) (f : Function R) :
    (following m f []).Sound f (joins f) where
  wellFormed := by
    constructor
    · intro s i before hs
      rw [state?_following_nil] at hs
      cases s with
      | zero => cases hs
      | succ n => simp at hs
    · intro s b ts hs
      rw [state?_following_nil] at hs
      cases s with
      | zero => cases hs
      | succ n =>
        simp only [List.getElem?_cons_succ, List.getElem?_map, Option.map_eq_some_iff] at hs
        obtain ⟨c, -, hc⟩ := hs
        cases hc
        simp
  originsOf := by
    intro hf id o ho
    cases ho
  joins_lt := by simp [following]
  atEnd_lt b s hs := by cases hs

lemma sound_following (bs : List BlockId) : (following m f bs).Sound f (joins f) :=
  ((sound_following_nil m f).foldl bs).1

lemma extends_following_nil (bs : List BlockId) :
    (following m f []).memory.Extends (following m f bs).memory :=
  ((sound_following_nil m f).foldl bs).2

/-- A block in the order parts it into the blocks that are done before and those that are done
after. -/
lemma following_of_split (hsplit : order f = bs ++ b :: rest) :
    following m f (order f) = rest.foldl (stepBlock m f (FlowGraph.of f) (order f) (joins f))
      (stepBlock m f (FlowGraph.of f) (order f) (joins f) (following m f bs) b) := by
  rw [following, following, hsplit, List.foldl_append, List.foldl_cons]

lemma notMem_of_split (hsplit : order f = bs ++ b :: rest) :
    b ∉ rest ∧ ∀ c ∈ bs, c ∉ b :: rest := by
  have hnodup : (bs ++ b :: rest).Nodup := hsplit ▸ FlowGraph.nodup_reversePostorder f
  obtain ⟨-, hrest, hdisjoint⟩ := List.nodup_append.1 hnodup
  exact ⟨(List.nodup_cons.1 hrest).1, fun c hc hc' => hdisjoint c hc c hc' rfl⟩

/-- The state at the end of a block is the one to which memory has been followed. -/
lemma atEnd_following_of_split (hsplit : order f = bs ++ b :: rest) :
    (following m f (order f)).atEnd.get? b
      = some (throughBlock m f (FlowGraph.of f) (order f) (joins f) (following m f bs) b).2 := by
  rw [following_of_split hsplit, atEnd_foldl_of_notMem (notMem_of_split hsplit).1, stepBlock_eq,
    Table.get?_insert, if_pos rfl]

lemma atEnd_following_eq (hb : b ∈ order f) :
    (following m f (order f)).atEnd.get? b = some (lastState m f b) := by
  obtain ⟨bs, rest, hsplit⟩ := List.append_of_mem hb
  rw [lastState, atEnd_following_of_split hsplit, Option.getD_some]

/-- A block that is done has its state recorded for the blocks after it. -/
lemma atEnd_following_of_mem (hsplit : order f = bs ++ b :: rest) (hp : p ∈ bs) :
    (following m f bs).atEnd.get? p = some (lastState m f p) := by
  have hmem : p ∈ order f := hsplit ▸ List.mem_append_left _ hp
  have hlater : (following m f (order f)).atEnd.get? p = (following m f bs).atEnd.get? p := by
    have hfold : following m f (order f) = (b :: rest).foldl
        (stepBlock m f (FlowGraph.of f) (order f) (joins f)) (following m f bs) := by
      rw [following, following, hsplit, List.foldl_append]
    rw [hfold, atEnd_foldl_of_notMem ((notMem_of_split hsplit).2 p hp)]
  rw [← hlater, atEnd_following_eq hmem]

/-! ### How blocks start -/

/-- A block that starts from no join is the entry, and nothing leads to it, or it follows exactly
one block, which is done before it. -/
lemma predecessors_of_notMem_joins (hb : b ∈ order f) (hjoin : b ∉ joins f) :
    (reachablePredecessors (FlowGraph.of f) (order f) b = [] ∧ (FlowGraph.of f).StartsAt b) ∨
      ∃ p, reachablePredecessors (FlowGraph.of f) (order f) b = [p] ∧ [p, b].Sublist (order f) ∧
        ¬ (FlowGraph.of f).StartsAt b := by
  have hnot : isJoin (FlowGraph.of f) (order f) b = false := by
    simpa [joins, hb] using hjoin
  simp only [isJoin, Bool.or_eq_false_iff, decide_eq_false_iff_not, not_le,
    Bool.and_eq_false_iff] at hnot
  obtain ⟨hlength, hentry⟩ := hnot
  rcases FlowGraph.parent_of_mem_reversePostorder f hb with he | ⟨p, hp, hbefore⟩
  · refine Or.inl ⟨?_, he⟩
    rcases hentry with hne | hnil
    · simp [he] at hne
    · simpa using hnil
  · have hmem : p ∈ reachablePredecessors (FlowGraph.of f) (order f) b :=
      mem_reachablePredecessors_iff.2 ⟨hp, hbefore.subset List.mem_cons_self⟩
    obtain ⟨q, hq⟩ := List.length_eq_one_iff.1
      (le_antisymm (Nat.le_of_lt_succ hlength) (List.length_pos_of_mem hmem))
    rw [hq, List.mem_singleton] at hmem
    refine Or.inr ⟨p, hmem ▸ hq, hbefore, fun he => ?_⟩
    simp [he, hq] at hentry

lemma exists_findIdx?_joins (hjoin : b ∈ joins f) :
    ∃ n, (joins f).findIdx? (· == b) = some n ∧ (joins f)[n]? = some b := by
  have hsome : ((joins f).findIdx? (· == b)).isSome := by
    rw [List.findIdx?_isSome]
    exact List.any_eq_true.2 ⟨b, hjoin, beq_self_eq_true b⟩
  obtain ⟨n, hn⟩ := Option.isSome_iff_exists.1 hsome
  obtain ⟨hlt, heq, -⟩ := List.findIdx?_eq_some_iff_getElem.1 hn
  exact ⟨n, hn, by rw [List.getElem?_eq_getElem hlt, eq_of_beq heq]⟩

lemma findIdx?_joins (hjoin : b ∉ joins f) : (joins f).findIdx? (· == b) = none := by
  rw [List.findIdx?_eq_none_iff]
  intro c hc
  exact beq_false_of_ne fun heq => hjoin (heq ▸ hc)

/-- A node that comes before another one in a list without duplicates is listed before it. -/
lemma mem_of_sublist (hsplit : order f = bs ++ b :: rest) (hbefore : [p, b].Sublist (order f)) :
    p ∈ bs := by
  obtain ⟨hrest, hbs⟩ := notMem_of_split hsplit
  rw [hsplit, List.sublist_append_iff] at hbefore
  obtain ⟨l₁, l₂, heq, hl₁, hl₂⟩ := hbefore
  match l₁, heq with
  | [], heq =>
    obtain rfl : [p, b] = l₂ := heq
    exact absurd (List.singleton_sublist.1 hl₂.tail) hrest
  | q :: l₁, heq =>
    obtain rfl := (List.cons.inj heq).1
    exact hl₁.subset List.mem_cons_self

/-- When a block is reached, the state in which it starts is known. -/
lemma startState_following (hsplit : order f = bs ++ b :: rest) :
    startState (FlowGraph.of f) (order f) (joins f) (following m f bs).atEnd b
      = firstState m f b := by
  have hb : b ∈ order f := hsplit ▸ List.mem_append_right _ List.mem_cons_self
  rw [firstState, startState, startState]
  by_cases hjoin : b ∈ joins f
  · obtain ⟨n, hn, -⟩ := exists_findIdx?_joins hjoin
    rw [hn]
  · rw [findIdx?_joins hjoin]
    rcases predecessors_of_notMem_joins hb hjoin with ⟨hnil, -⟩ | ⟨p, hp, hbefore, -⟩
    · rw [hnil]
      rfl
    · have hmem := mem_of_sublist hsplit hbefore
      rw [hp, List.head?_cons, Option.bind_some, Option.bind_some,
        atEnd_following_of_mem hsplit hmem,
        atEnd_following_eq (hbefore.subset List.mem_cons_self)]

/-! ### The memory states of a function -/

/-- What becomes of a state when the joins are filled in. -/
def fill (m : Module R) (f : Function R) : MemoryState → MemoryState
  | .joined b _ =>
    .joined b (joinedStates (FlowGraph.of f) (order f) (following m f (order f)).atEnd b)
  | s => s

lemma state?_of (s : StateId) :
    (Memory.of m f).state? s = ((following m f (order f)).memory.state? s).map (fill m f) := by
  have hfill : (Memory.of m f).states = (following m f (order f)).memory.states.map (fill m f) := by
    refine congrArg (fun g => Array.map g _) (funext fun x => ?_)
    cases x <;> rfl
  rw [state?, hfill, Array.getElem?_map, state?]

lemma size_of : (Memory.of m f).states.size = (following m f (order f)).memory.states.size := by
  rw [Memory.of, Array.size_map]
  rfl

/-- The states that a join joins. -/
lemma mem_joinedStates_iff :
    t ∈ joinedStates (FlowGraph.of f) (order f) (following m f (order f)).atEnd b ↔
      ((FlowGraph.of f).StartsAt b ∧ t = 0) ∨
        ∃ p ∈ order f, b ∈ (FlowGraph.of f).targetsOf p ∧ t = lastState m f p := by
  rw [joinedStates, List.mem_append, List.mem_filterMap]
  refine or_congr ?_ ?_
  · split <;> simp_all [FlowGraph.StartsAt]
  · constructor
    · rintro ⟨p, hp, ht⟩
      obtain ⟨htarget, hmem⟩ := mem_reachablePredecessors_iff.1 hp
      rw [atEnd_following_eq hmem, Option.some_inj] at ht
      exact ⟨p, hmem, htarget, ht.symm⟩
    · rintro ⟨p, hmem, htarget, rfl⟩
      exact ⟨p, mem_reachablePredecessors_iff.2 ⟨htarget, hmem⟩, atEnd_following_eq hmem⟩

lemma state?_of_eq_written {before : StateId} :
    (Memory.of m f).state? s = some (.written id before) ↔
      (following m f (order f)).memory.state? s = some (.written id before) := by
  rw [state?_of]
  cases (following m f (order f)).memory.state? s with
  | none => simp
  | some x => cases x <;> simp [fill]

lemma state?_of_zero : (Memory.of m f).state? 0 = some .initial := by
  rw [state?_of, (extends_following_nil (order f)).state (state?_following_nil 0)]
  rfl

lemma wellFormed_of : (Memory.of m f).WellFormed := by
  have hsound := sound_following (m := m) (f := f) (order f)
  constructor
  · intro s i before hs
    exact hsound.wellFormed.before_lt (state?_of_eq_written.1 hs)
  · intro s b ts hs t ht
    rw [state?_of, Option.map_eq_some_iff] at hs
    obtain ⟨x, -, hx⟩ := hs
    rw [size_of]
    cases x with
    | initial => cases hx
    | written i before => cases hx
    | joined c us =>
      cases hx
      rcases mem_joinedStates_iff.1 ht with ⟨-, rfl⟩ | ⟨p, hp, -, rfl⟩
      · exact (Nat.zero_le _).trans_lt hsound.joins_lt
      · exact hsound.atEnd_lt p _ (atEnd_following_eq hp)

/-- The known origins are those of the addresses of loads and stores. -/
lemma originsOf_of (hf : f.InstsInPlace) : (Memory.of m f).OriginsOf f :=
  (sound_following (m := m) (order f)).originsOf hf

/-- How a block starts: from memory as the function found it, from the end of the only block before
it, or from a join. -/
inductive StartsFrom (m : Module R) (f : Function R) (b : BlockId) : StateId → Prop
  | entry (hb : (FlowGraph.of f).StartsAt b)
      (hnone : ∀ p ∈ order f, b ∉ (FlowGraph.of f).targetsOf p) : StartsFrom m f b 0
  | single {p : BlockId} (hne : ¬ (FlowGraph.of f).StartsAt b)
      (hp : b ∈ (FlowGraph.of f).targetsOf p) (hbefore : [p, b].Sublist (order f))
      (hunique : ∀ q ∈ order f, b ∈ (FlowGraph.of f).targetsOf q → q = p) :
      StartsFrom m f b (lastState m f p)
  | join {s : StateId} {ts : List StateId} (hs : (Memory.of m f).state? s = some (.joined b ts))
      (hts : ∀ t, t ∈ ts ↔ ((FlowGraph.of f).StartsAt b ∧ t = 0) ∨
        ∃ p ∈ order f, b ∈ (FlowGraph.of f).targetsOf p ∧ t = lastState m f p) :
      StartsFrom m f b s

lemma startsFrom_firstState (hb : b ∈ order f) :
    StartsFrom m f b (firstState m f b) := by
  rw [firstState, startState]
  by_cases hjoin : b ∈ joins f
  · obtain ⟨n, hn, hget⟩ := exists_findIdx?_joins hjoin
    have hnil : (following m f []).memory.state? (n + 1) = some (.joined b []) := by
      rw [state?_following_nil, List.getElem?_cons_succ, List.getElem?_map, hget, Option.map_some]
    rw [hn]
    refine .join ?_ fun t => mem_joinedStates_iff (m := m)
    rw [state?_of, (extends_following_nil (order f)).state hnil]
    rfl
  · rw [findIdx?_joins hjoin]
    rcases predecessors_of_notMem_joins hb hjoin with ⟨hnil, he⟩ | ⟨p, hp, hbefore, hne⟩
    · rw [hnil]
      refine .entry he fun p hp htarget => ?_
      have hmem := mem_reachablePredecessors_iff.2 ⟨htarget, hp⟩
      rw [hnil] at hmem
      cases hmem
    · have hmem : p ∈ reachablePredecessors (FlowGraph.of f) (order f) b := hp ▸ List.mem_cons_self
      rw [hp, List.head?_cons, Option.bind_some,
        atEnd_following_eq (hbefore.subset List.mem_cons_self), Option.getD_some]
      refine .single hne (mem_reachablePredecessors_iff.1 hmem).1 hbefore fun q hq htarget => ?_
      have hq := mem_reachablePredecessors_iff.2 ⟨htarget, hq⟩
      rwa [hp, List.mem_singleton] at hq

/-! ### What blocks lead to -/

lemma follows_throughBlock (bs : List BlockId) (b : BlockId) :
    Follows m f (following m f bs).memory
      (startState (FlowGraph.of f) (order f) (joins f) (following m f bs).atEnd b) (f.blockInsts b)
      (throughBlock m f (FlowGraph.of f) (order f) (joins f) (following m f bs) b) :=
  (sound_following bs).follows b

/-- What has been done up to the end of a block is kept. -/
lemma extends_throughBlock (hsplit : order f = bs ++ b :: rest) :
    (throughBlock m f (FlowGraph.of f) (order f) (joins f) (following m f bs) b).1.Extends
      (following m f (order f)).memory := by
  rw [following_of_split hsplit]
  exact (((sound_following bs).stepBlock b).foldl rest).2

/-- The states lead through every block. -/
lemma leads_of (hb : b ∈ order f) :
    (Memory.of m f).Leads m (firstState m f b) (f.blockInsts b) (lastState m f b) := by
  obtain ⟨bs, rest, hsplit⟩ := List.append_of_mem hb
  have hlast := atEnd_following_of_split (m := m) hsplit
  rw [atEnd_following_eq hb, Option.some_inj] at hlast
  rw [hlast, ← startState_following hsplit]
  exact (follows_throughBlock bs b).leads.mono fun hs =>
    state?_of_eq_written.2 ((extends_throughBlock hsplit).state hs)

/-- The origins of all addresses are known. -/
lemma origins_of (hf : f.InstsInPlace) (hb : b ∈ order f) (hi : i ∈ f.blockInsts b) :
    (Memory.of m f).origins.get? i.id = i.address?.map (Origin.of f) := by
  obtain ⟨bs, rest, hsplit⟩ := List.append_of_mem hb
  have hinst := hf.inst?_of_mem_blockInsts hi
  cases ho : (Memory.of m f).origins.get? i.id with
  | some o =>
    obtain ⟨j, ptr, hj, haddress, rfl⟩ := originsOf_of (m := m) hf i.id o ho
    obtain rfl := Option.some.inj (hinst.symm.trans hj)
    rw [haddress, Option.map_some]
  | none =>
    cases haddress : i.address? with
    | none => rfl
    | some ptr =>
      -- the origin has been recorded in the block of the instruction
      have hsome : i.address?.isSome := by rw [haddress, Option.isSome_some]
      have hknown := (follows_throughBlock (m := m) bs b).origin i hi hsome
      have hkept : ((Memory.of m f).origins.get? i.id).isSome :=
        (extends_throughBlock hsplit).origin hknown
      rw [ho] at hkept
      cases hkept

/-- A load reads the state to which the instructions before it lead. -/
lemma exists_loads_of (hf : f.InstsInPlace) (honce : f.ListedOnce) (hb : b ∈ order f)
    {before after : List (Instruction R)} {ptr : Value R}
    (hblock : f.blockInsts b = before ++ i :: after) (hop : i.op = .load ptr) :
    ∃ s, (Memory.of m f).loads.get? i.id = some s ∧ s < (Memory.of m f).states.size ∧
      (Memory.of m f).Leads m (firstState m f b) before s := by
  obtain ⟨bs, rest, hsplit⟩ := List.append_of_mem hb
  let start := startState (FlowGraph.of f) (order f) (joins f) (following m f bs).atEnd b
  let r := before.foldl (step m f) ((following m f bs).memory, start)
  have hsound := sound_following (m := m) (f := f) bs
  have hbefore : Follows m f (following m f bs).memory start before r :=
    follows_foldl hsound.wellFormed (hsound.startState_lt b) before
  have hrest : Follows m f r.1 r.2 (i :: after) ((i :: after).foldl (step m f) r) :=
    follows_foldl hbefore.wellFormed hbefore.lt_size _
  have hthrough : throughBlock m f (FlowGraph.of f) (order f) (joins f) (following m f bs) b
      = (i :: after).foldl (step m f) r := by
    rw [throughBlock, hblock, List.foldl_append]
  have hextends : r.1.Extends (following m f (order f)).memory :=
    hrest.extends_memory.trans (hthrough ▸ extends_throughBlock hsplit)
  have hnodup := honce.nodup_ids hf b
  rw [hblock, List.map_append, List.map_cons] at hnodup
  have hafter : i.id ∉ after.map Instruction.id :=
    (List.nodup_cons.1 (List.nodup_append.1 hnodup).2.1).1
  have hlater : ∀ c ∈ rest, i.id ∉ (f.blockInsts c).map Instruction.id := by
    intro c hc
    have hne : b ≠ c := fun heq => (notMem_of_split hsplit).1 (heq ▸ hc)
    refine honce.notMem_ids hf hne (List.mem_map_of_mem ?_)
    rw [hblock]
    exact List.mem_append_right _ List.mem_cons_self
  have hload : (Memory.of m f).loads.get? i.id = some r.2 := by
    change (following m f (order f)).memory.loads.get? i.id = some r.2
    rw [following_of_split hsplit, loads_foldl_stepBlock_of_notMem hlater, stepBlock_eq, hthrough,
      List.foldl_cons, loads_foldl_of_notMem _ hafter, loads_step r hop, Table.get?_insert,
      if_pos rfl]
  refine ⟨r.2, hload, ?_, ?_⟩
  · rw [size_of]
    exact hbefore.lt_size.trans_le hextends.size_le
  · rw [← startState_following hsplit]
    exact hbefore.leads.mono fun hs => state?_of_eq_written.2 (hextends.state hs)

end Flow

end Memory

end Roundoff
