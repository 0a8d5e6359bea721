/-
# The forest of natural loops

A back edge leads to a block that dominates its source.  The loops that are found are the natural
loops of the back edges, one for each header: the blocks that the search from the entry bypasses are
exactly those not dominated, and the search back from the latches finds exactly the blocks that lead
to a latch without passing through the header.

The reachable blocks of two loops are disjoint or strictly nested.  So the loops around a loop form
a chain, and those around a block do as well, and what is looked up by numbers is what is smallest
with respect to inclusion: the last of the loops in question has the fewest blocks.
-/
import Mathlib
import Roundoff.Proofs.Flow.Loops

namespace Roundoff

variable {R : Type} {f : Function R} {g : FlowGraph} {b d h p : BlockId} {k l l' : Loop}

/-! ## Back edges -/

namespace FlowGraph

/-- A path leads to the block. -/
abbrev Reachable (g : FlowGraph) (b : BlockId) : Prop := ∃ bs, g.Path b bs

/-- An edge from a reachable block to a block that dominates it. -/
structure IsBackEdge (g : FlowGraph) (p h : BlockId) : Prop where
  /-- There is an edge. -/
  target : h ∈ g.targetsOf p
  /-- Its source is reachable. -/
  reachable : g.Reachable p
  /-- Its target dominates its source. -/
  dominates : g.Dominates h p

/-- Control can pass from one block to another one along edges that do not lead to `h`. -/
abbrev LeadsAround (g : FlowGraph) (h : BlockId) : BlockId → BlockId → Prop :=
  Search.Leads fun a => (g.targetsOf a).filter (· ≠ h)

/-- A block that the search from the entry finds without passing through `d` is not dominated by
`d`. -/
lemma exists_path_of_mem_searchFromEntry
    (hb : b ∈ (FlowGraph.of f).searchFromEntry (FlowGraph.of f).targetsOf [d]) :
    ∃ bs, (FlowGraph.of f).Path b bs ∧ d ∉ bs ∧ d ≠ b := by
  cases he : FlowGraph.entry? (FlowGraph.of f) with
  | none => simp [searchFromEntry, he] at hb
  | some e =>
    obtain ⟨s, hs⟩ := exists_searchFromEntry (Search.finds_rules (FlowGraph.of f).targetsOf)
      (fun _ _ => mem_blocks_of_mem_targetsOf_of) [d] he
    have hne : ∀ x ∈ (FlowGraph.of f).searchFromEntry (FlowGraph.of f).targetsOf [d], d ≠ x := by
      rintro x hx rfl
      exact hs.not_seen d hx List.mem_cons_self
    -- the edges along which a block is found make up a path that leaves `d` out
    refine hs.induction (P := fun x => ∃ bs, (FlowGraph.of f).Path x bs ∧ d ∉ bs ∧ d ≠ x)
      (fun r hr hrfound => ?_) (fun w hw x hx hxfound _ hP => ?_) hb
    · obtain rfl := List.mem_singleton.1 hr
      exact ⟨[], .entry he, List.not_mem_nil, hne r hrfound⟩
    · obtain ⟨bs, hbs, hd, hdw⟩ := hP
      exact ⟨bs ++ [w], hbs.step hx, by simp [hd, hdw], hne x hxfound⟩

/-- **The dominated blocks are found correctly.** -/
theorem mem_dominatedBy_iff : b ∈ (FlowGraph.of f).dominatedBy d ↔
    (FlowGraph.of f).Reachable b ∧ (FlowGraph.of f).Dominates d b := by
  constructor
  · intro hb
    exact ⟨(mem_reversePostorder_iff f).1 (List.mem_filter.1 hb).1, dominates_of_mem_dominatedBy hb⟩
  · rintro ⟨hb, hdom⟩
    rw [dominatedBy, List.mem_filter]
    refine ⟨(mem_reversePostorder_iff f).2 hb, ?_⟩
    by_contra hbypass
    obtain ⟨bs, hbs, hd, hdb⟩ := exists_path_of_mem_searchFromEntry (f := f) (d := d) (b := b)
      (by simpa using hbypass)
    exact (hdom bs hbs).elim hd hdb

lemma mem_latches_iff_isBackEdge :
    p ∈ (FlowGraph.of f).latches h ↔ (FlowGraph.of f).IsBackEdge p h := by
  rw [mem_latches_iff, mem_dominatedBy_iff]
  exact ⟨fun hp => ⟨hp.1, hp.2.1, hp.2.2⟩, fun hp => ⟨hp.target, hp.reachable, hp.dominates⟩⟩

/-- There is a loop for every header of a back edge. -/
lemma exists_header_eq_iff : (∃ l ∈ (FlowGraph.of f).naturalLoops, l.header = h) ↔
    ∃ p, (FlowGraph.of f).IsBackEdge p h := by
  constructor
  · rintro ⟨l, hl, rfl⟩
    obtain ⟨h, -, hne, rfl⟩ := mem_naturalLoops_iff.1 hl
    obtain ⟨p, hp⟩ := List.exists_mem_of_ne_nil _ hne
    exact ⟨p, mem_latches_iff_isBackEdge.1 hp⟩
  · rintro ⟨p, hp⟩
    have hmem := mem_latches_iff_isBackEdge.2 hp
    refine ⟨_, mem_naturalLoops_iff.2 ⟨h, ?_, List.ne_nil_of_mem hmem, rfl⟩, rfl⟩
    exact mem_blocks_of_mem_targetsOf_of hp.target

/-- The source of a back edge belongs to the loop. -/
lemma IsBackEdge.mem_blocks (hp : (FlowGraph.of f).IsBackEdge p l.header)
    (hl : l ∈ (FlowGraph.of f).naturalLoops) : p ∈ l.blocks := by
  obtain ⟨h, -, -, rfl⟩ := mem_naturalLoops_iff.1 hl
  obtain ⟨found, s, hfound, hblocks⟩ := exists_finds_loopBlocks (FlowGraph.of f) h
  have hseen := hfound.roots_seen p (mem_latches_iff_isBackEdge.2 hp)
  refine (hblocks p).2 ⟨mem_blocks_of_mem_targetsOf hp.target, ?_⟩
  exact ((hfound.mem_seen p).1 hseen).symm.imp List.mem_singleton.1 id

/-- **The blocks of a loop** are its header and the blocks that lead to a latch without passing
through the header. -/
theorem mem_blocks_iff_leadsAround (hl : l ∈ (FlowGraph.of f).naturalLoops) :
    b ∈ l.blocks ↔ b = l.header ∨ b ≠ l.header ∧
      ∃ p, (FlowGraph.of f).IsBackEdge p l.header ∧ (FlowGraph.of f).LeadsAround l.header b p := by
  have hnat := isNatural_of_mem hl
  constructor
  · intro hb
    refine or_iff_not_imp_left.2 fun hne => ⟨hne, ?_⟩
    obtain ⟨h, -, -, rfl⟩ := mem_naturalLoops_iff.1 hl
    obtain ⟨found, s, hfound, hblocks⟩ := exists_finds_loopBlocks (FlowGraph.of f) h
    have hmem := (((hblocks b).1 hb).2).resolve_left hne
    refine hfound.induction (P := fun x => ∃ p, (FlowGraph.of f).IsBackEdge p h ∧
      (FlowGraph.of f).LeadsAround h x p) (fun r hr _ => ?_) (fun w hw x hx _ _ hP => ?_) hmem
    · exact ⟨r, mem_latches_iff_isBackEdge.1 hr, .refl⟩
    · obtain ⟨p, hp, hlead⟩ := hP
      have hwh : w ≠ h := fun heq => hfound.not_seen w hw (heq ▸ List.mem_cons_self)
      refine ⟨p, hp, hlead.head ?_⟩
      simpa using ⟨mem_predecessors_iff.1 hx, hwh⟩
  · rintro (rfl | ⟨hne, p, hp, hlead⟩)
    · exact hnat.header_mem
    · -- control enters the loop through its header only, so going back from the latch stays inside
      have hback : ∀ x, (FlowGraph.of f).LeadsAround l.header x p → p ≠ l.header →
          x ∈ l.blocks := by
        intro x hx hpne
        induction hx using Relation.ReflTransGen.head_induction_on with
        | refl => exact hp.mem_blocks hl
        | head hedge _ ih =>
          have hedge := List.mem_filter.1 hedge
          exact hnat.closed _ ih (by simpa using hedge.2) _ hedge.1
      refine hback b hlead fun hph => ?_
      rcases hlead.cases_tail with heq | ⟨x, -, hx⟩
      · exact hne (heq.symm.trans hph)
      · simp [hph] at hx

/-! ## The reachable blocks of loops -/

/-- The block numbers of a graph are distinct if there are enough of them. -/
lemma nodup_blocks (hsize : g.size ≤ UInt32.size) : g.blocks.Nodup := by
  refine List.nodup_range.map_on fun m hm n hn heq => ?_
  have hm := (List.mem_range.1 hm).trans_le hsize
  have hn := (List.mem_range.1 hn).trans_le hsize
  have hval := congrArg UInt32.toNat (congrArg BlockId.val heq)
  rwa [UInt32.toNat_ofNat_of_lt' hm, UInt32.toNat_ofNat_of_lt' hn] at hval

end FlowGraph

lemma Loop.insertSorted_perm (k : Loop) (ls : List Loop) : (k.insertSorted ls).Perm (k :: ls) := by
  induction ls with
  | nil => rfl
  | cons l ls ih =>
    rw [Loop.insertSorted]
    split
    · rfl
    · exact (ih.cons l).trans (.swap k l ls)

lemma Loop.foldr_insertSorted_perm (ls : List Loop) : (ls.foldr Loop.insertSorted []).Perm ls := by
  induction ls with
  | nil => rfl
  | cons k ls ih => exact (k.insertSorted_perm _).trans (ih.cons k)

/-- No loop is listed twice. -/
lemma FlowGraph.nodup_naturalLoops (hsize : g.size ≤ UInt32.size) : g.naturalLoops.Nodup := by
  rw [naturalLoops, (Loop.foldr_insertSorted_perm _).nodup_iff]
  refine (nodup_blocks hsize).filterMap fun h h' l hl hl' => ?_
  -- the header of a loop determines the block from which the loop is made
  have hheader : l.header = h := by
    split at hl
    · cases hl
    · exact congrArg Loop.header (Option.some.inj hl).symm
  have hheader' : l.header = h' := by
    split at hl'
    · cases hl'
    · exact congrArg Loop.header (Option.some.inj hl').symm
  exact hheader.symm.trans hheader'

/-- A loop is listed at most as often as its header. -/
lemma FlowGraph.count_naturalLoops_le : g.naturalLoops.count l ≤ g.blocks.count l.header := by
  rw [naturalLoops, (Loop.foldr_insertSorted_perm _).count_eq, List.count, List.countP_filterMap]
  refine List.countP_mono_left fun h _ hl => ?_
  split at hl
  · cases hl
  · exact beq_iff_eq.2 (congrArg Loop.header (eq_of_beq hl))

/-- The reachable blocks of a loop. -/
def Loop.body (l : Loop) (g : FlowGraph) : Set BlockId := {b | b ∈ l.blocks ∧ g.Reachable b}

section Nested

variable (hk : k ∈ (FlowGraph.of f).naturalLoops) (hl : l ∈ (FlowGraph.of f).naturalLoops)

include hk in
lemma header_mem_body : k.header ∈ k.body (FlowGraph.of f) :=
  ⟨(FlowGraph.isNatural_of_mem hk).header_mem, Flow.mem_order_iff.1 (header_mem_order hk)⟩

include hk hl

/-- A loop lies inside another one if its reachable blocks do, and then some reachable block of the
other one is left. -/
theorem isInside_iff_body_ssubset :
    k.isInside l = true ↔ k.body (FlowGraph.of f) ⊂ l.body (FlowGraph.of f) := by
  constructor
  · intro hin
    obtain ⟨hsub, hne⟩ := Loop.isInside_iff.1 hin
    have hout := header_notMem_of_mem hk hl (hsub (FlowGraph.isNatural_of_mem hk).header_mem) hne
    refine ⟨fun b hb => ⟨hsub hb.1, hb.2⟩, fun hsub' => ?_⟩
    exact hout (hsub' (header_mem_body hl)).1
  · intro hin
    refine isInside_of_header_mem hk hl (hin.1 (header_mem_body hk)).1 fun heq => ?_
    obtain rfl := (FlowGraph.isNatural_of_mem hk).eq_of_header_eq
      (FlowGraph.isNatural_of_mem hl) heq
    exact hin.2 subset_rfl

/-- The same is true of all blocks, whether they are reachable or not. -/
lemma isInside_iff_blocks_ssubset :
    k.isInside l = true ↔ k.blocks.toFinset ⊂ l.blocks.toFinset := by
  constructor
  · intro hin
    obtain ⟨hsub, hne⟩ := Loop.isInside_iff.1 hin
    have hout := header_notMem_of_mem hk hl (hsub (FlowGraph.isNatural_of_mem hk).header_mem) hne
    refine (Finset.ssubset_iff_of_subset fun b hb => ?_).2 ⟨l.header, ?_, ?_⟩
    · exact List.mem_toFinset.2 (hsub (List.mem_toFinset.1 hb))
    · exact List.mem_toFinset.2 (FlowGraph.isNatural_of_mem hl).header_mem
    · exact fun hmem => hout (List.mem_toFinset.1 hmem)
  · intro hin
    have hmem := hin.1 (List.mem_toFinset.2 (FlowGraph.isNatural_of_mem hk).header_mem)
    refine isInside_of_header_mem hk hl (List.mem_toFinset.1 hmem) fun heq => ?_
    obtain rfl := (FlowGraph.isNatural_of_mem hk).eq_of_header_eq
      (FlowGraph.isNatural_of_mem hl) heq
    exact hin.2 subset_rfl

/-- The reachable blocks of two loops are disjoint or strictly nested. -/
lemma disjoint_or_ssubset (hne : k ≠ l) :
    Disjoint (k.body (FlowGraph.of f)) (l.body (FlowGraph.of f)) ∨
      k.body (FlowGraph.of f) ⊂ l.body (FlowGraph.of f) ∨
      l.body (FlowGraph.of f) ⊂ k.body (FlowGraph.of f) := by
  refine or_iff_not_imp_left.2 fun hmeet => ?_
  obtain ⟨b, hbk, hbl⟩ := Set.not_disjoint_iff.1 hmeet
  have hb : b ∈ (Flow.of f).order := Flow.mem_order_iff.2 hbk.2
  rw [← isInside_iff_body_ssubset hk hl, ← isInside_iff_body_ssubset hl hk]
  exact (isInside_trichotomy hk hl hb (Loop.contains_iff.2 hbk.1)
    (Loop.contains_iff.2 hbl.1)).resolve_left hne

/-- A loop contains the header of another one if the other one is the loop or lies inside it. -/
lemma header_mem_blocks_iff : k.header ∈ l.blocks ↔ k = l ∨ k.isInside l = true := by
  constructor
  · intro hmem
    refine or_iff_not_imp_left.2 fun hne => isInside_of_header_mem hk hl hmem fun heq => hne ?_
    exact (FlowGraph.isNatural_of_mem hk).eq_of_header_eq (FlowGraph.isNatural_of_mem hl) heq
  · rintro (rfl | hin)
    · exact (FlowGraph.isNatural_of_mem hk).header_mem
    · exact (Loop.isInside_iff.1 hin).1 (FlowGraph.isNatural_of_mem hk).header_mem

end Nested

/-! ## The forest -/

namespace LoopForest

variable {t : LoopForest} {id c s : ℕ} {P : Loop → Prop} {o : Option LoopId}

/-- The loop `l` is the smallest one of a forest with a property: it lies in all of them. -/
structure IsSmallest (t : LoopForest) (P : Loop → Prop) (l : Loop) : Prop where
  /-- The loop is one of the forest. -/
  mem : l ∈ t.loops
  /-- The loop has the property. -/
  prop : P l
  /-- The loops with the property contain the blocks of the loop. -/
  subset : ∀ k ∈ t.loops, P k → l.blocks ⊆ k.blocks

/-- The loops form a forest on the reachable blocks of a flow graph, and the numbers that are kept
of them say how they are nested. -/
structure IsForest (t : LoopForest) (g : FlowGraph) : Prop where
  /-- There is a loop for every block to which a back edge leads. -/
  header_iff : ∀ h, (∃ l ∈ t.loops, l.header = h) ↔ ∃ p, g.IsBackEdge p h
  /-- A loop consists of its header and of the blocks that lead to the source of a back edge to the
  header without passing through the header. -/
  blocks_iff : ∀ l ∈ t.loops, ∀ b, b ∈ l.blocks ↔ b = l.header ∨
    b ≠ l.header ∧ ∃ p, g.IsBackEdge p l.header ∧ g.LeadsAround l.header b p
  /-- No loop is listed twice, if the numbers of the blocks are distinct. -/
  nodup : g.size ≤ UInt32.size → t.loops.toList.Nodup
  /-- Distinct loops have distinct headers. -/
  header_ne : ∀ k ∈ t.loops, ∀ l ∈ t.loops, k ≠ l → k.header ≠ l.header
  /-- The reachable blocks of two loops are disjoint or strictly nested. -/
  disjoint_or_ssubset : ∀ k ∈ t.loops, ∀ l ∈ t.loops, k ≠ l →
    Disjoint (k.body g) (l.body g) ∨ k.body g ⊂ l.body g ∨ l.body g ⊂ k.body g
  /-- A loop lies strictly in another one with its reachable blocks if it does with all blocks. -/
  body_ssubset_iff : ∀ k ∈ t.loops, ∀ l ∈ t.loops,
    (k.body g ⊂ l.body g ↔ k.blocks.toFinset ⊂ l.blocks.toFinset)
  /-- The parent of a loop is the smallest loop that strictly contains it. -/
  parent_iff : ∀ i k, t.get? i = some k → ∀ l,
    (t.parent? i).bind t.get? = some l ↔ t.IsSmallest (fun l => k.body g ⊂ l.body g) l
  /-- A loop has no parent if no loop strictly contains it. -/
  parent_none_iff : ∀ i k, t.get? i = some k →
    (t.parent? i = none ↔ ∀ l ∈ t.loops, ¬ k.body g ⊂ l.body g)
  /-- The children of a loop are the loops of which it is the parent. -/
  mem_children_iff : ∀ i j, j ∈ t.children i ↔ t.parent? j = some i
  /-- The depth of a loop is the number of loops that contain its header. -/
  depth_eq : ∀ i k, t.get? i = some k →
    t.depth i = (t.loops.toList.toFinset.filter fun l => k.header ∈ l.blocks).card
  /-- The innermost loop of a reachable block is the smallest loop that contains it. -/
  innermost_iff : ∀ b, g.Reachable b → ∀ l,
    (t.innermost? b).bind t.get? = some l ↔ t.IsSmallest (b ∈ ·.blocks) l
  /-- A block has no innermost loop if no loop contains it. -/
  innermost_none_iff : ∀ b, t.innermost? b = none ↔ ∀ l ∈ t.loops, b ∉ l.blocks

lemma mem_loops_of : l ∈ (LoopForest.of g).loops ↔ l ∈ g.naturalLoops := List.mem_toArray

/-- Loops with the same blocks are one loop. -/
lemma eq_of_subset (hk : k ∈ (FlowGraph.of f).naturalLoops) (hl : l ∈ (FlowGraph.of f).naturalLoops)
    (hsub : k.blocks ⊆ l.blocks) (hsub' : l.blocks ⊆ k.blocks) : k = l := by
  by_contra hne
  have hheader := hsub (FlowGraph.isNatural_of_mem hk).header_mem
  have hin := ((header_mem_blocks_iff hk hl).1 hheader).resolve_left hne
  have hssub := (isInside_iff_blocks_ssubset hk hl).1 hin
  exact hssub.2 fun b hb => List.mem_toFinset.2 (hsub' (List.mem_toFinset.1 hb))

/-! ### What is looked up -/

section Lookup

variable (hP : ∀ l, P l → b ∈ l.blocks) (hb : (FlowGraph.of f).Reachable b)

include hP hb

/-- The last one of the loops with a property is the smallest, if they share a reachable block. -/
lemma IsLast.isSmallest (h : (LoopForest.of (FlowGraph.of f)).IsLast P id)
    (hl : (LoopForest.of (FlowGraph.of f)).get? id = some l) :
    (LoopForest.of (FlowGraph.of f)).IsSmallest P l := by
  obtain ⟨l, hl', hPl⟩ := h.exists_get?
  obtain rfl := Option.some.inj (hl'.symm.trans hl)
  refine ⟨mem_loops_of.2 (mem_of_get? hl), hPl, fun k hk hPk => ?_⟩
  -- loops that share a block are nested, and the inner one of them has the larger number
  have hk := mem_loops_of.1 hk
  obtain ⟨n, hn⟩ := exists_get?_of_mem hk
  rcases isInside_trichotomy hk (mem_of_get? hl) (Flow.mem_order_iff.2 hb)
    (Loop.contains_iff.2 (hP k hPk)) (Loop.contains_iff.2 (hP l hPl)) with rfl | hin | hin
  · exact List.Subset.refl _
  · have hlt := lt_of_isInside hn hl hin
    have hle := h.le n k hn hPk
    omega
  · exact (Loop.isInside_iff.1 hin).1

variable (ho : ∀ s, o = some s ↔ (LoopForest.of (FlowGraph.of f)).IsLast P s)

include ho

/-- Looking up the last one of the loops with a property yields the smallest one, if they share a
reachable block. -/
lemma bind_get?_eq_some_iff : o.bind (LoopForest.of (FlowGraph.of f)).get? = some l ↔
    (LoopForest.of (FlowGraph.of f)).IsSmallest P l := by
  constructor
  · intro h
    obtain ⟨s, hs, hl⟩ := Option.bind_eq_some_iff.1 h
    exact ((ho s).1 hs).isSmallest hP hb hl
  · intro h
    obtain ⟨n, hn⟩ := exists_get?_of_mem (mem_loops_of.1 h.mem)
    obtain ⟨s, hs⟩ := exists_isLast hn h.prop
    obtain ⟨k, hk, hPk⟩ := hs.exists_get?
    have hsmallest := hs.isSmallest hP hb hk
    obtain rfl : k = l := eq_of_subset (mem_of_get? hk) (mem_of_get? hn)
      (hsmallest.subset l h.mem h.prop) (h.subset k hsmallest.mem hPk)
    rw [(ho s).2 hs, Option.bind_some, hk]

end Lookup

/-- Nothing is looked up if no loop has the property. -/
lemma eq_none_iff (ho : ∀ s, o = some s ↔ (LoopForest.of g).IsLast P s) :
    o = none ↔ ∀ l ∈ (LoopForest.of g).loops, ¬ P l := by
  constructor
  · rintro rfl l hl hPl
    obtain ⟨n, hn⟩ := exists_get?_of_mem (mem_loops_of.1 hl)
    obtain ⟨s, hs⟩ := exists_isLast hn hPl
    exact nomatch (ho s).2 hs
  · intro h
    refine Option.eq_none_iff_forall_not_mem.2 fun s hs => ?_
    obtain ⟨l, hl, hPl⟩ := ((ho s).1 hs).exists_get?
    exact h l (mem_loops_of.2 (mem_of_get? hl)) hPl

lemma mem_children_iff :
    c ∈ (LoopForest.of g).children s ↔ (LoopForest.of g).parent? c = some s := by
  rw [children, List.mem_filter, beq_iff_eq, ids, List.mem_range, and_iff_right_iff_imp]
  intro h
  have hlt := (Array.getElem?_eq_some_iff.1 (Option.join_eq_some_iff.1 h)).1
  rwa [LoopForest.of, Array.size_mapIdx] at hlt

/-! ### Depth -/

/-- Going outwards from a loop comes once upon each loop that contains its header. -/
lemma exists_chain_eq {depth : ℕ} (hk : (LoopForest.of (FlowGraph.of f)).get? id = some k)
    (hdepth : id < depth) :
    ∃ ks : List Loop, ((LoopForest.of (FlowGraph.of f)).chain depth id).length = ks.length ∧
      ks.Nodup ∧ ∀ l, l ∈ ks ↔ l ∈ (FlowGraph.of f).naturalLoops ∧ k.header ∈ l.blocks := by
  induction depth generalizing id k with
  | zero => omega
  | succ depth ih =>
    have hkmem := mem_of_get? hk
    rw [chain]
    cases hp : (LoopForest.of (FlowGraph.of f)).parent? id with
    | none =>
      -- no loop has `k` inside
      have hnone := (eq_none_iff fun s => parent?_eq_some_iff hk).1 hp
      refine ⟨[k], rfl, List.nodup_singleton k, fun l => ?_⟩
      rw [List.mem_singleton]
      constructor
      · rintro rfl
        exact ⟨hkmem, (FlowGraph.isNatural_of_mem hkmem).header_mem⟩
      · rintro ⟨hl, hmem⟩
        refine (((header_mem_blocks_iff hkmem hl).1 hmem).resolve_right fun hin => ?_).symm
        exact hnone l (mem_loops_of.2 hl) hin
    | some s =>
      have hlast := (parent?_eq_some_iff hk).1 hp
      obtain ⟨o, ho, hin⟩ := hlast.exists_get?
      have ho' := mem_of_get? ho
      -- the loops further out are those around the parent
      obtain ⟨ks, hlen, hnodup, hmem⟩ := ih ho (by have := lt_of_isInside hk ho hin; omega)
      have hsmallest := hlast.isSmallest (b := k.header)
        (fun l hin => (Loop.isInside_iff.1 hin).1 (FlowGraph.isNatural_of_mem hkmem).header_mem)
        (header_mem_body hkmem).2 ho
      refine ⟨k :: ks, by simp [hlen], List.nodup_cons.2 ⟨fun hmem' => ?_, hnodup⟩, fun l => ?_⟩
      · have hne := (Loop.isInside_iff.1 hin).2
        exact header_notMem_of_mem hkmem ho' ((Loop.isInside_iff.1 hin).1
          (FlowGraph.isNatural_of_mem hkmem).header_mem) hne ((hmem k).1 hmem').2
      · rw [List.mem_cons, hmem]
        constructor
        · rintro (rfl | ⟨hl, hol⟩)
          · exact ⟨hkmem, (FlowGraph.isNatural_of_mem hkmem).header_mem⟩
          · refine ⟨hl, (header_mem_blocks_iff hkmem hl).2 (.inr ?_)⟩
            rcases (header_mem_blocks_iff ho' hl).1 hol with rfl | hol
            · exact hin
            · exact isInside_trans hkmem ho' hin hl hol
        · rintro ⟨hl, hkl⟩
          rcases (header_mem_blocks_iff hkmem hl).1 hkl with rfl | hkl
          · exact .inl rfl
          · refine .inr ⟨hl, hsmallest.subset l (mem_loops_of.2 hl) hkl ?_⟩
            exact (FlowGraph.isNatural_of_mem ho').header_mem

lemma depth_eq (hk : (LoopForest.of (FlowGraph.of f)).get? id = some k) :
    (LoopForest.of (FlowGraph.of f)).depth id
      = ((LoopForest.of (FlowGraph.of f)).loops.toList.toFinset.filter
          fun l => k.header ∈ l.blocks).card := by
  obtain ⟨ks, hlen, hnodup, hmem⟩ := exists_chain_eq hk (lt_size_of_get? hk)
  rw [depth, ancestors, hlen, ← List.toFinset_card_of_nodup hnodup]
  congr 1
  ext l
  rw [List.mem_toFinset, hmem, Finset.mem_filter, List.mem_toFinset]
  rfl

/-! ### The properties of a forest -/

lemma isLast_congr {Q : Loop → Prop} (h : ∀ l ∈ g.naturalLoops, P l ↔ Q l) :
    (LoopForest.of g).IsLast P s ↔ (LoopForest.of g).IsLast Q s := by
  constructor
  · rintro ⟨⟨l, hl, hPl⟩, hle⟩
    exact ⟨⟨l, hl, (h l (mem_of_get? hl)).1 hPl⟩, fun i k hk hQk =>
      hle i k hk ((h k (mem_of_get? hk)).2 hQk)⟩
  · rintro ⟨⟨l, hl, hQl⟩, hle⟩
    exact ⟨⟨l, hl, (h l (mem_of_get? hl)).2 hQl⟩, fun i k hk hPk =>
      hle i k hk ((h k (mem_of_get? hk)).1 hPk)⟩

/-- The parent of a loop is the last loop that strictly contains it. -/
lemma parent?_eq_some_iff_body (hk : (LoopForest.of (FlowGraph.of f)).get? id = some k) :
    (LoopForest.of (FlowGraph.of f)).parent? id = some s ↔ (LoopForest.of (FlowGraph.of f)).IsLast
      (fun l => k.body (FlowGraph.of f) ⊂ l.body (FlowGraph.of f)) s := by
  rw [parent?_eq_some_iff hk]
  exact isLast_congr fun l hl => isInside_iff_body_ssubset (mem_of_get? hk) hl

/-- **The loops of a function form a forest** on its reachable blocks: they are the natural loops of
the back edges, one for each header, any two of them are disjoint or strictly nested, and parent,
children, depth and innermost loop are what they should be. -/
theorem isForest_of (f : Function R) :
    (LoopForest.of (FlowGraph.of f)).IsForest (FlowGraph.of f) where
  header_iff h := by simpa only [mem_loops_of] using FlowGraph.exists_header_eq_iff
  blocks_iff l hl b := FlowGraph.mem_blocks_iff_leadsAround (mem_loops_of.1 hl)
  nodup := FlowGraph.nodup_naturalLoops
  header_ne k hk l hl hne heq := by
    have hk := FlowGraph.isNatural_of_mem (mem_loops_of.1 hk)
    exact hne (hk.eq_of_header_eq (FlowGraph.isNatural_of_mem (mem_loops_of.1 hl)) heq)
  disjoint_or_ssubset k hk l hl :=
    Roundoff.disjoint_or_ssubset (mem_loops_of.1 hk) (mem_loops_of.1 hl)
  body_ssubset_iff k hk l hl := by
    rw [← isInside_iff_body_ssubset (mem_loops_of.1 hk) (mem_loops_of.1 hl),
      isInside_iff_blocks_ssubset (mem_loops_of.1 hk) (mem_loops_of.1 hl)]
  parent_iff i k hk l := by
    have hheader := header_mem_body (mem_of_get? hk)
    exact bind_get?_eq_some_iff (fun l hin => (hin.1 hheader).1) hheader.2 fun s =>
      parent?_eq_some_iff_body hk
  parent_none_iff i k hk := eq_none_iff fun s => parent?_eq_some_iff_body hk
  mem_children_iff i j := mem_children_iff
  depth_eq i k hk := depth_eq hk
  innermost_iff b hb l := by
    refine bind_get?_eq_some_iff (fun _ h => h) hb fun s => ?_
    simpa only [Loop.contains_iff] using innermost?_eq_some_iff
  innermost_none_iff b := by
    refine eq_none_iff fun s => ?_
    simpa only [Loop.contains_iff] using innermost?_eq_some_iff

end LoopForest

end Roundoff
