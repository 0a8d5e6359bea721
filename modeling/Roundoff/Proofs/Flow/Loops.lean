/-
# Natural loops and their nesting

The header of a natural loop dominates all blocks of the loop, and every block before a block of the
loop other than the header belongs to the loop as well.  So control enters a loop through its header
only, and two loops that share a reachable block are equal, or one of them lies inside the other one
and has fewer blocks.

Loops are numbered from large to small.  The innermost loop of a block and the loop around a loop
are therefore the last ones in question, and going outwards from the innermost loop of a block comes
upon all loops that contain it.
-/
import Mathlib
import Roundoff.Proofs.Flow.Order

namespace Roundoff

variable {R : Type} {f : Function R} {g : FlowGraph} {b d h p t u v : BlockId}
  {bs : List BlockId} {k l l' : Loop}

/-! ## The blocks of a loop -/

lemma Loop.contains_iff : l.contains b = true ↔ b ∈ l.blocks := List.contains_iff_mem

lemma Loop.isInside_iff : k.isInside l = true ↔ k.blocks ⊆ l.blocks ∧ k.header ≠ l.header := by
  simp only [Loop.isInside, Bool.and_eq_true, List.all_eq_true, Loop.contains_iff,
    decide_eq_true_eq]
  rfl

lemma Loop.mem_insertSorted {ls : List Loop} : l ∈ k.insertSorted ls ↔ l = k ∨ l ∈ ls := by
  induction ls with
  | nil => simp [Loop.insertSorted]
  | cons l' ls ih =>
    rw [Loop.insertSorted]
    split
    · simp
    · simp only [List.mem_cons, ih]
      tauto

namespace FlowGraph

lemma mem_blocks_of_mem_predecessors (hp : p ∈ g.predecessors b) : p ∈ g.blocks :=
  (List.mem_filter.1 hp).1

lemma mem_latches_iff : p ∈ g.latches h ↔ h ∈ g.targetsOf p ∧ p ∈ g.dominatedBy h := by
  rw [latches, List.mem_filter, mem_predecessors_iff, List.contains_iff_mem]

/-- The search back from the latches finds the blocks of the loop other than its header. -/
lemma exists_finds_loopBlocks (g : FlowGraph) (h : BlockId) :
    ∃ found s, Search.Finds g.predecessors (.avoiding [h]) (g.latches h) found s ∧
      ∀ b, b ∈ g.loopBlocks h (g.latches h) ↔ b ∈ g.blocks ∧ (b = h ∨ b ∈ found) := by
  have hcard (s : Search BlockId) : (g.blocks.toFinset \ s.seen.toFinset).card ≤ g.size := by
    refine (Finset.card_le_card Finset.sdiff_subset).trans ((List.toFinset_card_le _).trans ?_)
    rw [blocks, List.length_map, List.length_range]
  have hpred : ∀ x, ∀ p ∈ g.predecessors x, p ∈ g.blocks.toFinset := fun x p hp =>
    List.mem_toFinset.2 (mem_blocks_of_mem_predecessors hp)
  obtain ⟨found, hfound⟩ : ∃ found, Search.Finds g.predecessors (.avoiding [h]) (g.latches h) found
      ((g.latches h).foldl (Search.visit g.predecessors g.size) (.avoiding [h])) := by
    have rules := Search.finds_rules g.predecessors
    refine rules.exists_foldl (U := g.blocks.toFinset) (fun s r hr _ => ?_) _ (fun r hr => ?_)
      (hcard _)
    · exact rules.exists_visit (fun x _ => hpred x) hr (hcard s)
    · exact hpred h r (List.mem_filter.1 hr).1
  refine ⟨found, _, hfound, fun b => ?_⟩
  rw [loopBlocks, List.mem_filter, List.contains_iff_mem, hfound.mem_seen, Search.avoiding,
    List.mem_singleton, or_comm]

lemma mem_naturalLoops_iff :
    l ∈ g.naturalLoops ↔ ∃ h ∈ g.blocks, g.latches h ≠ [] ∧ l = g.loopOf h (g.latches h) := by
  have hfold (ls : List Loop) : l ∈ ls.foldr Loop.insertSorted [] ↔ l ∈ ls := by
    induction ls with
    | nil => rfl
    | cons k ls ih => rw [List.foldr_cons, Loop.mem_insertSorted, ih, List.mem_cons]
  rw [naturalLoops, hfold, List.mem_filterMap]
  refine exists_congr fun h => and_congr_right fun _ => ?_
  cases hlatches : g.latches h with
  | nil => simp
  | cons p ps => simp [eq_comm]

/-- What makes up a natural loop. -/
structure IsNatural (g : FlowGraph) (l : Loop) : Prop where
  /-- The header determines the loop. -/
  eq_loopOf : l = g.loopOf l.header (g.latches l.header)
  /-- The blocks are listed in the order of the graph. -/
  blocks_eq : l.blocks = g.blocks.filter l.contains
  /-- The header is one of the blocks. -/
  header_mem : l.header ∈ l.blocks
  /-- Control enters the loop through its header only. -/
  closed : ∀ b ∈ l.blocks, b ≠ l.header → ∀ p, b ∈ g.targetsOf p → p ∈ l.blocks
  /-- From every block of the loop control can pass to the header through blocks of the loop: what
  is true of the blocks in front of the header, and of a block if it is true of one that may follow
  it in the loop, is true of all blocks of the loop but the header. -/
  backward : ∀ P : BlockId → Prop,
    (∀ p ∈ l.blocks, p ≠ l.header → l.header ∈ g.targetsOf p → g.Dominates l.header p → P p) →
    (∀ p ∈ l.blocks, p ≠ l.header → ∀ b ∈ l.blocks, b ≠ l.header → b ∈ g.targetsOf p → P b → P p) →
    ∀ b ∈ l.blocks, b ≠ l.header → P b

/-- A header is reachable. -/
lemma exists_path_of_mem_latches (hp : p ∈ (FlowGraph.of f).latches h) :
    ∃ bs, (FlowGraph.of f).Path h bs := by
  obtain ⟨-, hdom⟩ := mem_latches_iff.1 hp
  obtain ⟨ps, hps⟩ := (mem_reversePostorder_iff f).1 (List.mem_filter.1 hdom).1
  exact ((dominates_of_mem_dominatedBy hdom).reaches hps).1

lemma isNatural_of_mem (hl : l ∈ (FlowGraph.of f).naturalLoops) : (FlowGraph.of f).IsNatural l := by
  obtain ⟨h, hh, -, rfl⟩ := mem_naturalLoops_iff.1 hl
  obtain ⟨found, s, hfound, hblocks⟩ := exists_finds_loopBlocks (FlowGraph.of f) h
  have hnot : h ∉ found := fun hmem => hfound.not_seen h hmem List.mem_cons_self
  have hgraph : ∀ b ∈ found, b ∈ (FlowGraph.of f).blocks := by
    intro b hb
    rcases hfound.parent b hb with hroot | ⟨w, hw, -⟩
    · exact mem_blocks_of_mem_targetsOf (mem_latches_iff.1 hroot).1
    · exact mem_blocks_of_mem_predecessors hw
  have hmem : ∀ b, b ∈ (FlowGraph.of f).loopBlocks h ((FlowGraph.of f).latches h) ↔
      b = h ∨ b ∈ found := by
    intro b
    rw [hblocks, and_iff_right_iff_imp]
    rintro (rfl | hb)
    · exact hh
    · exact hgraph b hb
  refine ⟨rfl, List.filter_congr fun b hb => ?_, (hmem h).2 (.inl rfl), fun b hb hne p hp => ?_,
    fun P hlatch hstep b hb hne => ?_⟩
  · rw [Bool.eq_iff_iff, Loop.contains_iff]
    exact (and_iff_right hb).symm.trans List.mem_filter.symm
  · have hb := ((hmem b).1 hb).resolve_left hne
    have hseen := (hfound.mem_seen p).1 (hfound.closed b hb p (mem_predecessors_iff.2 hp))
    exact (hmem p).2 (hseen.symm.imp List.mem_singleton.1 id)
  · have hb := ((hmem b).1 hb).resolve_left hne
    have hne : ∀ x ∈ found, x ≠ h := fun x hx hxh => hnot (hxh ▸ hx)
    refine hfound.induction (P := P) (fun r hr hrfound => ?_) (fun w hw x hx hxfound _ hPw => ?_) hb
    · obtain ⟨htarget, hdom⟩ := mem_latches_iff.1 hr
      exact hlatch r ((hmem r).2 (.inr hrfound)) (hne r hrfound) htarget
        (dominates_of_mem_dominatedBy hdom)
    · exact hstep x ((hmem x).2 (.inr hxfound)) (hne x hxfound) w ((hmem w).2 (.inr hw)) (hne w hw)
        (mem_predecessors_iff.1 hx) hPw

namespace IsNatural

/-- **The header of a loop dominates its blocks.** -/
lemma dominates (hl : g.IsNatural l) (hb : b ∈ l.blocks) : g.Dominates l.header b := by
  by_cases hne : b = l.header
  · rw [hne]
    exact fun bs _ => .inr rfl
  · refine hl.backward _ (fun p _ _ _ hdom => hdom) (fun p _ hp b _ hb htarget hdom => ?_) b hb hne
    exact hdom.of_target htarget (Ne.symm hb)

/-- Loops with one header are one loop. -/
lemma eq_of_header_eq (hk : g.IsNatural k) (hl : g.IsNatural l) (h : k.header = l.header) :
    k = l := by
  rw [hk.eq_loopOf, hl.eq_loopOf, h]

lemma header_mem_or (hk : g.IsNatural k) (hl : g.IsNatural l) (hpath : g.Path b bs)
    (hbk : b ∈ k.blocks) (hbl : b ∈ l.blocks) : l.header ∈ k.blocks ∨ k.header ∈ l.blocks := by
  -- going back on a path, one of the two headers turns up first
  induction hpath with
  | entry he =>
    have hheader := (hk.dominates hbk).eq_of_startsAt he
    exact .inr (hheader ▸ hbl)
  | @step p b bs hpath hb ih =>
    by_cases hne : b = k.header
    · exact .inr (hne ▸ hbl)
    · by_cases hne' : b = l.header
      · exact .inl (hne' ▸ hbk)
      · exact ih (hk.closed b hbk hne p hb) (hl.closed b hbl hne' p hb)

end IsNatural

end FlowGraph

/-! ## Nesting -/

section Nesting

variable (hk : k ∈ (FlowGraph.of f).naturalLoops) (hl : l ∈ (FlowGraph.of f).naturalLoops)

include hl in
lemma header_mem_order : l.header ∈ (Flow.of f).order := by
  obtain ⟨h, -, hlatches, rfl⟩ := FlowGraph.mem_naturalLoops_iff.1 hl
  obtain ⟨p, hp⟩ := List.exists_mem_of_ne_nil _ hlatches
  exact Flow.mem_order_iff.2 (FlowGraph.exists_path_of_mem_latches hp)

include hk hl

/-- A loop does not contain the header of a loop around it. -/
lemma header_notMem_of_mem (hmem : k.header ∈ l.blocks) (hne : k.header ≠ l.header) :
    l.header ∉ k.blocks := by
  intro hcontra
  exact hne (Flow.eq_of_dominates (header_mem_order hl)
    ((FlowGraph.isNatural_of_mem hk).dominates hcontra)
    ((FlowGraph.isNatural_of_mem hl).dominates hmem))

/-- A loop whose header belongs to another loop lies inside it. -/
lemma isInside_of_header_mem (hmem : k.header ∈ l.blocks) (hne : k.header ≠ l.header) :
    k.isInside l = true := by
  have hk' := FlowGraph.isNatural_of_mem hk
  have hl' := FlowGraph.isNatural_of_mem hl
  have hout : ∀ b ∈ k.blocks, b ≠ l.header := by
    rintro b hb rfl
    exact header_notMem_of_mem hk hl hmem hne hb
  refine Loop.isInside_iff.2 ⟨fun b hb => ?_, hne⟩
  by_cases hheader : b = k.header
  · exact hheader ▸ hmem
  · refine hk'.backward _ (fun p _ _ hp _ => ?_) (fun p _ _ b hb _ hp hbl => ?_) b hb hheader
    · exact hl'.closed _ hmem hne p hp
    · exact hl'.closed b hbl (hout b hb) p hp

/-- **Loops that share a reachable block are nested.** -/
theorem isInside_trichotomy (hb : b ∈ (Flow.of f).order) (hbk : k.contains b = true)
    (hbl : l.contains b = true) : k = l ∨ k.isInside l = true ∨ l.isInside k = true := by
  have hk' := FlowGraph.isNatural_of_mem hk
  have hl' := FlowGraph.isNatural_of_mem hl
  by_cases hne : k.header = l.header
  · exact .inl (hk'.eq_of_header_eq hl' hne)
  · obtain ⟨bs, hbs⟩ := Flow.mem_order_iff.1 hb
    rcases hk'.header_mem_or hl' hbs (Loop.contains_iff.1 hbk) (Loop.contains_iff.1 hbl) with h | h
    · exact .inr (.inr (isInside_of_header_mem hl hk h (Ne.symm hne)))
    · exact .inr (.inl (isInside_of_header_mem hk hl h hne))

/-- A loop inside another one has fewer blocks. -/
lemma length_lt_of_isInside (hin : k.isInside l = true) : k.blocks.length < l.blocks.length := by
  obtain ⟨hsub, hne⟩ := Loop.isInside_iff.1 hin
  have hk' := FlowGraph.isNatural_of_mem hk
  have hl' := FlowGraph.isNatural_of_mem hl
  have hout := header_notMem_of_mem hk hl (hsub hk'.header_mem) hne
  -- the blocks of both loops are listed in the order of the graph
  have hfilter : k.blocks = l.blocks.filter k.contains := by
    conv_lhs => rw [hk'.blocks_eq]
    rw [hl'.blocks_eq, List.filter_filter]
    refine List.filter_congr fun b _ => ?_
    cases hb : k.contains b with
    | false => rfl
    | true => simp [Loop.contains_iff.2 (hsub (Loop.contains_iff.1 hb))]
  rw [hfilter]
  exact List.length_filter_lt_length_iff_exists.2
    ⟨l.header, hl'.header_mem, by rw [Loop.contains_iff]; exact hout⟩

lemma isInside_trans (hin : k.isInside l = true) (hl' : l' ∈ (FlowGraph.of f).naturalLoops)
    (hin' : l.isInside l' = true) : k.isInside l' = true := by
  refine Loop.isInside_iff.2 ⟨fun b hb => ?_, fun heq => ?_⟩
  · exact (Loop.isInside_iff.1 hin').1 ((Loop.isInside_iff.1 hin).1 hb)
  · have hlt := length_lt_of_isInside hk hl hin
    have hlt' := length_lt_of_isInside hl hl' hin'
    obtain rfl := (FlowGraph.isNatural_of_mem hk).eq_of_header_eq
      (FlowGraph.isNatural_of_mem hl') heq
    omega

end Nesting

/-! ## Numbers of loops -/

lemma Loop.pairwise_insertSorted (k : Loop) {ls : List Loop}
    (hls : ls.Pairwise fun k l => l.blocks.length ≤ k.blocks.length) :
    (k.insertSorted ls).Pairwise fun k l => l.blocks.length ≤ k.blocks.length := by
  induction ls with
  | nil => simp [Loop.insertSorted]
  | cons l ls ih =>
    have hl := List.pairwise_cons.1 hls
    rw [Loop.insertSorted]
    split
    · next hprec =>
      have hlen : l.blocks.length ≤ k.blocks.length := by
        rw [Loop.precedes] at hprec
        simp at hprec
        omega
      refine List.pairwise_cons.2 ⟨fun l' hl' => ?_, hls⟩
      rcases List.mem_cons.1 hl' with rfl | hl'
      · exact hlen
      · exact (hl.1 l' hl').trans hlen
    · next hprec =>
      have hlen : k.blocks.length ≤ l.blocks.length := by
        rw [Loop.precedes] at hprec
        simp at hprec
        omega
      refine List.pairwise_cons.2 ⟨fun l' hl' => ?_, ih hl.2⟩
      rcases Loop.mem_insertSorted.1 hl' with rfl | hl'
      · exact hlen
      · exact hl.1 l' hl'

/-- Loops are listed from large to small. -/
lemma FlowGraph.pairwise_naturalLoops (g : FlowGraph) :
    g.naturalLoops.Pairwise fun k l => l.blocks.length ≤ k.blocks.length := by
  rw [naturalLoops]
  generalize g.blocks.filterMap _ = ls
  induction ls with
  | nil => exact .nil
  | cons k ls ih => exact k.pairwise_insertSorted ih

lemma find?_reverse_range_eq_some {n m : ℕ} {P : ℕ → Bool} :
    (List.range n).reverse.find? P = some m ↔ m < n ∧ P m = true ∧ ∀ k < n, P k = true → k ≤ m := by
  induction n with
  | zero => simp
  | succ n ih =>
    rw [List.range_succ, List.reverse_append, List.reverse_singleton, List.singleton_append,
      List.find?_cons]
    cases hn : P n with
    | true =>
      simp only [Option.some.injEq]
      constructor
      · rintro rfl
        exact ⟨by omega, hn, fun k hk _ => by omega⟩
      · rintro ⟨hlt, -, hle⟩
        have := hle n (by omega) hn
        omega
    | false =>
      simp only [ih]
      constructor
      · rintro ⟨hlt, hm, hle⟩
        refine ⟨by omega, hm, fun k hk hPk => ?_⟩
        rcases Nat.lt_succ_iff_lt_or_eq.1 hk with hk | rfl
        · exact hle k hk hPk
        · simp [hn] at hPk
      · rintro ⟨hlt, hm, hle⟩
        refine ⟨?_, hm, fun k hk hPk => hle k (by omega) hPk⟩
        rcases Nat.lt_succ_iff_lt_or_eq.1 hlt with hlt | rfl
        · exact hlt
        · simp [hn] at hm

namespace LoopForest

/-- The last loop of the forest with a property has the number `id`. -/
structure IsLast (t : LoopForest) (P : Loop → Prop) (id : ℕ) : Prop where
  /-- There is a loop with the property. -/
  exists_get? : ∃ l, t.get? id = some l ∧ P l
  /-- The loops with the property have no larger numbers. -/
  le : ∀ (id' : ℕ) l, t.get? id' = some l → P l → id' ≤ id

variable {id id' c s : ℕ} {scope : Option ℕ}

lemma IsLast.unique {t : LoopForest} {P : Loop → Prop} (h : t.IsLast P id) (h' : t.IsLast P id') :
    id = id' := by
  obtain ⟨l, hl, hP⟩ := h.exists_get?
  obtain ⟨l', hl', hP'⟩ := h'.exists_get?
  exact le_antisymm (h'.le id l hl hP) (h.le id' l' hl' hP')

lemma get?_of (g : FlowGraph) (id : ℕ) : (LoopForest.of g).get? id = g.naturalLoops[id]? := by
  rw [get?, LoopForest.of, List.getElem?_toArray]

lemma mem_of_get? (h : (LoopForest.of g).get? id = some l) : l ∈ g.naturalLoops := by
  rw [get?_of] at h
  exact List.mem_of_getElem? h

lemma exists_get?_of_mem (h : l ∈ g.naturalLoops) : ∃ id, (LoopForest.of g).get? id = some l := by
  obtain ⟨n, hn⟩ := List.getElem?_of_mem h
  exact ⟨n, by rw [get?_of, hn]⟩

lemma lt_size_of_get? {t : LoopForest} (h : t.get? id = some l) : id < t.loops.size :=
  (Array.getElem?_eq_some_iff.1 h).1

/-- The innermost loop of a block is the last one that contains it. -/
lemma innermost?_eq_some_iff {t : LoopForest} :
    t.innermost? b = some id ↔ t.IsLast (·.contains b = true) id := by
  rw [innermost?, ids, find?_reverse_range_eq_some]
  constructor
  · rintro ⟨-, hany, hle⟩
    refine ⟨by simpa [Option.any_eq_true] using hany, fun id' l hl hb => ?_⟩
    exact hle id' (lt_size_of_get? hl) (by simpa [hl] using hb)
  · rintro ⟨⟨l, hl, hb⟩, hle⟩
    refine ⟨lt_size_of_get? hl, by simpa [hl] using hb, fun id' _ hany => ?_⟩
    obtain ⟨l', hl', hb'⟩ := (Option.any_eq_true _ _).1 hany
    exact hle id' l' hl' hb'

/-- The number of a loop is larger than those of the loops around it. -/
lemma lt_of_isInside (hk : (LoopForest.of (FlowGraph.of f)).get? id = some k)
    (hl : (LoopForest.of (FlowGraph.of f)).get? id' = some l) (hin : k.isInside l = true) :
    id' < id := by
  have hlt := length_lt_of_isInside (mem_of_get? hk) (mem_of_get? hl) hin
  rw [get?_of] at hk hl
  by_contra hle
  rcases (not_lt.1 hle).lt_or_eq with hlt' | rfl
  · obtain ⟨hid, rfl⟩ := List.getElem?_eq_some_iff.1 hk
    obtain ⟨hid', rfl⟩ := List.getElem?_eq_some_iff.1 hl
    have := List.pairwise_iff_getElem.1 (FlowGraph.of f).pairwise_naturalLoops _ _ hid hid' hlt'
    omega
  · obtain rfl := Option.some.inj (hk.symm.trans hl)
    omega

/-- The loop around a loop is the last one that has it inside. -/
lemma parent?_eq_some_iff (hk : (LoopForest.of (FlowGraph.of f)).get? id = some k) :
    (LoopForest.of (FlowGraph.of f)).parent? id = some s ↔
      (LoopForest.of (FlowGraph.of f)).IsLast (k.isInside · = true) s := by
  have hparent : (LoopForest.of (FlowGraph.of f)).parent? id
      = (List.range id).reverse.find? fun p =>
        ((LoopForest.of (FlowGraph.of f)).get? p).any k.isInside := by
    have hk' := hk
    rw [get?_of] at hk'
    rw [parent?, LoopForest.of, Array.getElem?_mapIdx, List.getElem?_toArray, hk', Option.map_some,
      Option.join_some, enclosing?]
    congr
    funext p
    rw [get?]
    cases (FlowGraph.of f).naturalLoops.toArray[p]? <;> rfl
  rw [hparent, find?_reverse_range_eq_some]
  constructor
  · rintro ⟨-, hany, hle⟩
    refine ⟨by simpa [Option.any_eq_true] using hany, fun id' l hl hin => ?_⟩
    exact hle id' (lt_of_isInside hk hl hin) (by simpa [hl] using hin)
  · rintro ⟨⟨l, hl, hin⟩, hle⟩
    refine ⟨lt_of_isInside hk hl hin, by simpa [hl] using hin, fun id' _ hany => ?_⟩
    obtain ⟨l', hl', hin'⟩ := (Option.any_eq_true _ _).1 hany
    exact hle id' l' hl' hin'

lemma exists_isLast {t : LoopForest} {P : Loop → Prop} (hl : t.get? id = some l) (hP : P l) :
    ∃ s, t.IsLast P s := by
  classical
  cases hfind : t.ids.reverse.find? fun id => (t.get? id).any fun l => decide (P l) with
  | none =>
    have hmem : id ∈ t.ids.reverse :=
      List.mem_reverse.2 (List.mem_range.2 (lt_size_of_get? hl))
    have := List.find?_eq_none.1 hfind id hmem
    simp [hl, hP] at this
  | some s =>
    obtain ⟨-, hany, hle⟩ := find?_reverse_range_eq_some.1 hfind
    refine ⟨s, by simpa [Option.any_eq_true] using hany, fun id' l' hl' hP' => ?_⟩
    exact hle id' (lt_size_of_get? hl') (by simpa [hl'] using hP')

/-! ## Going outwards -/

/-- The loop `k`, which contains the block `b`, is numbered `id`; of several equal loops the last
one counts. -/
structure IsAround (g : FlowGraph) (b : BlockId) (id : ℕ) (k : Loop) : Prop where
  /-- The number is that of the loop. -/
  isLast : (LoopForest.of g).IsLast (· = k) id
  /-- The loop contains the block. -/
  contains : k.contains b = true

lemma IsAround.get? (h : IsAround g b id k) : (LoopForest.of g).get? id = some k := by
  obtain ⟨l, hl, rfl⟩ := h.isLast.exists_get?
  exact hl

lemma IsAround.mem (h : IsAround g b id k) : k ∈ g.naturalLoops := mem_of_get? h.get?

lemma isAround_of_isLast {P : Loop → Prop} (h : (LoopForest.of g).IsLast P id)
    (hP : ∀ l, P l → l.contains b = true) : ∃ k, IsAround g b id k ∧ P k := by
  obtain ⟨k, hk, hPk⟩ := h.exists_get?
  exact ⟨k, ⟨⟨⟨k, hk, rfl⟩, fun id' l hl hlk => h.le id' l hl (hlk ▸ hPk)⟩, hP k hPk⟩, hPk⟩

lemma contains_of_isInside (hin : k.isInside l = true) (hb : k.contains b = true) :
    l.contains b = true :=
  Loop.contains_iff.2 ((Loop.isInside_iff.1 hin).1 (Loop.contains_iff.1 hb))

lemma IsAround.parent (h : IsAround (FlowGraph.of f) b id k)
    (hp : (LoopForest.of (FlowGraph.of f)).parent? id = some s) :
    ∃ l, IsAround (FlowGraph.of f) b s l ∧ k.isInside l = true :=
  isAround_of_isLast ((parent?_eq_some_iff h.get?).1 hp) fun _ hin =>
    contains_of_isInside hin h.contains

/-- Going outwards from a loop around a block comes upon loops around the block. -/
lemma IsAround.of_mem_chain {depth : ℕ} (h : IsAround (FlowGraph.of f) b id k)
    (hc : c ∈ (LoopForest.of (FlowGraph.of f)).chain depth id) :
    ∃ l, IsAround (FlowGraph.of f) b c l := by
  induction depth generalizing id k with
  | zero => cases hc
  | succ depth ih =>
    rw [chain] at hc
    rcases List.mem_cons.1 hc with rfl | hc
    · exact ⟨k, h⟩
    · split at hc
      · next s hs =>
        obtain ⟨l, hl, -⟩ := h.parent hs
        exact ih hl hc
      · cases hc

/-- A scope: the whole function, or a loop with its number. -/
inductive IsScope (g : FlowGraph) : Option ℕ → Option Loop → Prop
  /-- The whole function. -/
  | whole : IsScope g none none
  /-- A loop. -/
  | loop {s : ℕ} {l : Loop} (h : (LoopForest.of g).IsLast (· = l) s) : IsScope g (some s) (some l)

variable {scopeLoop : Option Loop}

/-- Going outwards from a loop inside a scope comes upon a loop directly inside it. -/
lemma IsAround.exists_mem_chain (hb : b ∈ (Flow.of f).order) {depth : ℕ}
    (hscope : IsScope (FlowGraph.of f) scope scopeLoop)
    (hbs : scopeLoop.all (·.contains b) = true) (h : IsAround (FlowGraph.of f) b id k)
    (hin : scopeLoop.all k.isInside = true) (hdepth : id < depth) :
    ∃ c ∈ (LoopForest.of (FlowGraph.of f)).chain depth id,
      (LoopForest.of (FlowGraph.of f)).parent? c = scope := by
  induction depth generalizing id k with
  | zero => omega
  | succ depth ih =>
    rw [chain]
    by_cases hparent : (LoopForest.of (FlowGraph.of f)).parent? id = scope
    · exact ⟨id, List.mem_cons_self, hparent⟩
    · cases hp : (LoopForest.of (FlowGraph.of f)).parent? id with
      | none =>
        -- a loop without a parent lies inside no loop
        cases hscope with
        | whole => exact absurd hp hparent
        | loop hlast =>
          have hs : IsAround (FlowGraph.of f) b _ _ := ⟨hlast, by simpa using hbs⟩
          obtain ⟨p, hlast⟩ := exists_isLast (P := (k.isInside · = true)) hs.get?
            (by simpa using hin)
          exact nomatch hp.symm.trans ((parent?_eq_some_iff h.get?).2 hlast)
      | some p =>
        have hlast := (parent?_eq_some_iff h.get?).1 hp
        obtain ⟨kp, hkp, hin'⟩ := h.parent hp
        have hpin : scopeLoop.all kp.isInside = true := by
          cases hscope with
          | whole => rfl
          | @loop s l hlast' =>
            have hs : IsAround (FlowGraph.of f) b s l := ⟨hlast', by simpa using hbs⟩
            have hle := hlast.le s l hs.get? (by simpa using hin)
            rcases isInside_trichotomy hkp.mem hs.mem hb hkp.contains hs.contains with
              rfl | hin | hin
            · have hle' := hs.isLast.le p kp hkp.get? rfl
              exact absurd (hp.trans (congrArg some (le_antisymm hle' hle))) hparent
            · simpa using hin
            · have hlt := lt_of_isInside hs.get? hkp.get? hin
              omega
        have hlt := lt_of_isInside h.get? hkp.get? hin'
        obtain ⟨c, hc, hscope⟩ := ih hkp hpin (by omega)
        exact ⟨c, List.mem_cons_of_mem _ hc, hscope⟩

/-- The loop `k`, numbered `c`, is the largest loop inside a scope that contains the block `b`. -/
structure IsChild (g : FlowGraph) (scope : Option Loop) (b : BlockId) (c : ℕ) (k : Loop) :
    Prop extends IsAround g b c k where
  /-- The loop lies inside the scope. -/
  within : scope.all k.isInside = true
  /-- The other loops inside the scope that contain the block lie inside the loop. -/
  largest : ∀ k' ∈ g.naturalLoops, k'.contains b = true → scope.all k'.isInside = true →
    k' = k ∨ k'.isInside k = true

lemma IsChild.unique {k' : Loop} {c' : ℕ} (h : IsChild (FlowGraph.of f) scopeLoop b c k)
    (h' : IsChild (FlowGraph.of f) scopeLoop b c' k') : c = c' ∧ k = k' := by
  have hk : k = k' := by
    rcases h'.largest k h.mem h.contains h.within with heq | hin
    · exact heq
    · rcases h.largest k' h'.mem h'.contains h'.within with heq | hin'
      · exact heq.symm
      · have hlt := lt_of_isInside h.get? h'.get? hin
        have hlt' := lt_of_isInside h'.get? h.get? hin'
        omega
  subst hk
  exact ⟨h.isLast.unique h'.isLast, rfl⟩

lemma parent?_of_childContaining? {t : LoopForest} (hc : t.childContaining? scope b = some c) :
    t.parent? c = scope := by
  obtain ⟨_, -, hfind⟩ := Option.bind_eq_some_iff.1 hc
  simpa using List.find?_some hfind

lemma isChild_of_childContaining? (hb : b ∈ (Flow.of f).order)
    (hscope : IsScope (FlowGraph.of f) scope scopeLoop) (hbs : scopeLoop.all (·.contains b) = true)
    (hc : (LoopForest.of (FlowGraph.of f)).childContaining? scope b = some c) :
    ∃ k, IsChild (FlowGraph.of f) scopeLoop b c k := by
  obtain ⟨id, hid, hfind⟩ := Option.bind_eq_some_iff.1 hc
  obtain ⟨k₀, hk₀, -⟩ := isAround_of_isLast (innermost?_eq_some_iff.1 hid) fun _ h => h
  obtain ⟨k, hk⟩ := hk₀.of_mem_chain (List.mem_of_find?_eq_some hfind)
  have hparent := parent?_of_childContaining? hc
  refine ⟨k, hk, ?_, fun k' hk' hb' hin' => ?_⟩
  · cases hscope with
    | whole => rfl
    | loop hlast =>
      have hs : IsAround (FlowGraph.of f) b _ _ := ⟨hlast, by simpa using hbs⟩
      obtain ⟨l, hl, hin⟩ := ((parent?_eq_some_iff hk.get?).1 hparent).exists_get?
      obtain rfl := Option.some.inj (hl.symm.trans hs.get?)
      simpa using hin
  · rcases isInside_trichotomy hk' hk.mem hb hb' hk.contains with heq | hin | hin
    · exact .inl heq
    · exact .inr hin
    · -- the loop around `k` would lie inside the scope
      exfalso
      obtain ⟨n, hn⟩ := exists_get?_of_mem hk'
      cases hscope with
      | whole =>
        obtain ⟨p, hlast⟩ := exists_isLast (P := (k.isInside · = true)) hn hin
        exact nomatch hparent.symm.trans ((parent?_eq_some_iff hk.get?).2 hlast)
      | loop hlast =>
        have hs : IsAround (FlowGraph.of f) b _ _ := ⟨hlast, by simpa using hbs⟩
        have hle := ((parent?_eq_some_iff hk.get?).1 hparent).le n k' hn hin
        have hlt := lt_of_isInside hn hs.get? (by simpa using hin')
        omega

lemma exists_childContaining? (hb : b ∈ (Flow.of f).order)
    (hscope : IsScope (FlowGraph.of f) scope scopeLoop) (hbs : scopeLoop.all (·.contains b) = true)
    (hk : k ∈ (FlowGraph.of f).naturalLoops)
    (hbk : k.contains b = true) (hin : scopeLoop.all k.isInside = true) :
    ∃ c, (LoopForest.of (FlowGraph.of f)).childContaining? scope b = some c := by
  obtain ⟨n, hn⟩ := exists_get?_of_mem hk
  obtain ⟨id, hlast⟩ := exists_isLast (P := (·.contains b = true)) hn hbk
  obtain ⟨k₀, hk₀, -⟩ := isAround_of_isLast hlast fun _ h => h
  have hin₀ : scopeLoop.all k₀.isInside = true := by
    cases hscope with
    | whole => rfl
    | loop hlast' =>
      have hs : IsAround (FlowGraph.of f) b _ _ := ⟨hlast', by simpa using hbs⟩
      have hle := hlast.le n k hn hbk
      rcases isInside_trichotomy hk₀.mem hk hb hk₀.contains hbk with rfl | hin₀ | hin₀
      · exact hin
      · exact isInside_trans hk₀.mem hk hin₀ hs.mem hin
      · have hlt := lt_of_isInside hn hk₀.get? hin₀
        omega
  obtain ⟨c, hc, hparent⟩ := hk₀.exists_mem_chain hb hscope hbs hin₀ (lt_size_of_get? hk₀.get?)
  rw [childContaining?, innermost?_eq_some_iff.2 hlast, Option.bind_some]
  exact Option.isSome_iff_exists.1 (List.find?_isSome.2 ⟨c, hc, by simpa using hparent⟩)

/-- **The child of a scope that contains a block** is the largest loop inside the scope around the
block; there is none if no loop inside the scope contains the block. -/
theorem childContaining?_eq_some_iff (hb : b ∈ (Flow.of f).order)
    (hscope : IsScope (FlowGraph.of f) scope scopeLoop)
    (hbs : scopeLoop.all (·.contains b) = true) :
    (LoopForest.of (FlowGraph.of f)).childContaining? scope b = some c ↔
      ∃ k, IsChild (FlowGraph.of f) scopeLoop b c k := by
  refine ⟨isChild_of_childContaining? hb hscope hbs, ?_⟩
  rintro ⟨k, hk⟩
  obtain ⟨c', hc'⟩ := exists_childContaining? hb hscope hbs hk.mem hk.contains hk.within
  obtain ⟨k', hk'⟩ := isChild_of_childContaining? hb hscope hbs hc'
  rw [hc', (hk'.unique hk).1]

end LoopForest

end Roundoff
