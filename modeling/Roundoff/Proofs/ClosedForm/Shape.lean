/-
# The control flow of loops that a closed form can bound

Recognizing the shape of a loop counts: the blocks of the loop, the blocks before and after it, the
blocks from which it is left, the latches and the loops inside it.  The counts leave two flow
graphs: one block leads to itself, or the header and a second block lead to each other.

With two blocks the second one is the only latch, since a loop whose only latch is its header has no
other blocks.  So the header does not lead to itself.  Neither does the second block, which would
head a loop inside the loop.  But a path leads to the latch, and its last edge starts in the loop.
-/
import Mathlib
import Roundoff.ClosedForm.Shape
import Roundoff.Proofs.Expr.Recursion
import Roundoff.Proofs.Flow.Forest

namespace Roundoff

variable {R : Type} {f : Function R} {b h p q t : BlockId} {l : Loop} {s : LoopShape} {id : ℕ}

/-- A shape describes the edges into, out of and inside a loop. -/
structure LoopShape.Fits (s : LoopShape) (g : FlowGraph) (l : Loop) : Prop where
  /-- The shape has the header of the loop. -/
  header_eq : s.header = l.header
  /-- The blocks of the loop are the condition block and the body. -/
  mem_blocks_iff : ∀ b, b ∈ l.blocks ↔ b = s.cond ∨ b = s.body
  /-- The header is one of them. -/
  header_eq_or : s.header = s.cond ∨ s.header = s.body
  /-- The only edge into the loop leads from the preheader to the header. -/
  enters_iff : ∀ p t, t ∈ g.targetsOf p ∧ p ∉ l.blocks ∧ t ∈ l.blocks ↔
    p = s.preheader ∧ t = s.header
  /-- The only edge out of the loop leads from the condition block to the exit. -/
  leaves_iff : ∀ p t, t ∈ g.targetsOf p ∧ p ∈ l.blocks ∧ t ∉ l.blocks ↔ p = s.cond ∧ t = s.exit
  /-- Inside the loop the condition block and the body lead to each other; if they are one block, it
  leads to itself. -/
  inside_iff : ∀ p t, t ∈ g.targetsOf p ∧ p ∈ l.blocks ∧ t ∈ l.blocks ↔
    p = s.cond ∧ t = s.body ∨ p = s.body ∧ t = s.cond
  /-- The blocks of the shape are those of the loop. -/
  mem_blocks : ∀ b, b ∈ s.blocks ↔ b ∈ l.blocks
  /-- No block is listed twice. -/
  nodup_blocks : s.blocks.Nodup
  /-- The header is listed first. -/
  head?_blocks : s.blocks.head? = some s.header

/-! ## What the checks say -/

lemma single?_eq_some_iff {α : Type} {xs : List α} {x : α} : single? xs = some x ↔ xs = [x] := by
  match xs with
  | [] => simp [single?]
  | [y] => simp [single?]
  | _ :: _ :: _ => simp [single?]

/-- A loop passes the checks for the shape `s`. -/
structure Loop.HasShape (l : Loop) (s : LoopShape) : Prop where
  /-- There are at most two blocks. -/
  length_blocks_le : l.blocks.length ≤ 2
  /-- There is one block before the loop. -/
  predecessor_eq : l.predecessor = some s.preheader
  /-- There is one block after the loop. -/
  exits_eq : l.exits = [s.exit]
  /-- The condition block and the body are found. -/
  condAndBody_eq : l.condAndBody = .ok (s.cond, s.body)
  /-- The shape has the header of the loop. -/
  header_eq : s.header = l.header

lemma LoopForest.shape_eq_ok {t : LoopForest} (hs : t.shape h = .ok s) :
    ∃ id l, t.get? id = some l ∧ l.header = h ∧ t.children id = [] ∧ l.HasShape s := by
  simp only [LoopForest.shape] at hs
  split at hs
  · rename_i id hid
    split at hs
    · rename_i l hl
      have hheader : l.header = h := by simpa [hl] using List.find?_some hid
      split at hs
      · cases hs
      · rename_i hchildren
        split at hs
        · cases hs
        · rename_i hlength
          split at hs
          · rename_i preheader hpreheader
            split at hs
            · rename_i exit hexit
              obtain ⟨⟨cond, body⟩, hcond, heq⟩ := Except.bind_eq_ok_iff.1 hs
              obtain rfl := Except.ok.inj heq
              exact ⟨id, l, hl, hheader, by simpa using hchildren, not_lt.1 hlength, hpreheader,
                single?_eq_some_iff.1 hexit, hcond, rfl⟩
            · cases hs
          · cases hs
    · cases hs
  · cases hs

lemma Loop.condAndBody_eq_ok {x y : BlockId} (hxy : l.condAndBody = .ok (x, y)) :
    l.blocks.length = 1 ∧ x = l.header ∧ y = l.header ∨
      l.blocks.length ≠ 1 ∧ l.exiting = [x] ∧ ∃ latch, l.latches = [latch] ∧
        y = if latch = x then l.header else latch := by
  rw [condAndBody] at hxy
  split at hxy
  · rename_i hlength
    cases hxy
    exact .inl ⟨hlength, rfl, rfl⟩
  · rename_i hlength
    split at hxy
    · rename_i cond hcond
      split at hxy
      · rename_i latch hlatch
        cases hxy
        exact .inr ⟨hlength, single?_eq_some_iff.1 hcond, latch, single?_eq_some_iff.1 hlatch, rfl⟩
      · cases hxy
    · cases hxy

/-! ## Edges of natural loops -/

namespace FlowGraph.IsNatural

variable {g : FlowGraph} (hl : g.IsNatural l)

include hl

lemma mem_latches_iff : p ∈ l.latches ↔ p ∈ g.latches l.header := by
  rw [hl.eq_loopOf, loopOf]

lemma mem_exiting_iff : p ∈ l.exiting ↔ p ∈ l.blocks ∧ ∃ t ∈ g.targetsOf p, t ∉ l.blocks := by
  rw [hl.eq_loopOf]
  simp [loopOf, List.mem_filter]

lemma mem_exits_iff : t ∈ l.exits ↔
    t ∈ g.blocks ∧ t ∉ l.blocks ∧ ∃ p ∈ l.blocks, t ∈ g.targetsOf p := by
  rw [hl.eq_loopOf]
  simp [loopOf, List.mem_filter]

/-- The loop is entered along one edge if there is one block before it. -/
lemma enters_iff (hq : l.predecessor = some q) :
    t ∈ g.targetsOf p ∧ p ∉ l.blocks ∧ t ∈ l.blocks ↔ p = q ∧ t = l.header := by
  have hmem : ∀ x, l.header ∈ g.targetsOf x ∧ x ∉ l.blocks ↔ x = q := by
    intro x
    rw [hl.eq_loopOf, loopOf, single?_eq_some_iff] at hq
    have hx := List.mem_singleton (a := x) (b := q)
    rw [← hq, List.mem_filter, mem_predecessors_iff] at hx
    rw [← hx, hl.eq_loopOf]
    simp [loopOf]
  constructor
  · rintro ⟨hedge, hp, ht⟩
    have hheader : t = l.header := by
      by_contra hne
      exact hp (hl.closed t ht hne p hedge)
    subst hheader
    exact ⟨(hmem p).1 ⟨hedge, hp⟩, rfl⟩
  · rintro ⟨rfl, rfl⟩
    obtain ⟨hedge, hp⟩ := (hmem p).2 rfl
    exact ⟨hedge, hp, hl.header_mem⟩

/-- The loop is left along one edge if there is one block after it and only the block `q` leads out
of it. -/
lemma leaves_iff {x : BlockId} (hedges : ∀ a b, b ∈ g.targetsOf a → b ∈ g.blocks)
    (hx : l.exits = [x]) (hq : ∀ p, p ∈ l.exiting → p = q) :
    t ∈ g.targetsOf p ∧ p ∈ l.blocks ∧ t ∉ l.blocks ↔ p = q ∧ t = x := by
  have hexit : ∀ p t, t ∈ g.targetsOf p → p ∈ l.blocks → t ∉ l.blocks → p = q ∧ t = x := by
    intro p t hedge hp ht
    refine ⟨hq p (hl.mem_exiting_iff.2 ⟨hp, t, hedge, ht⟩), ?_⟩
    have hmem := hl.mem_exits_iff.2 ⟨hedges p t hedge, ht, p, hp, hedge⟩
    rwa [hx, List.mem_singleton] at hmem
  constructor
  · rintro ⟨hedge, hp, ht⟩
    exact hexit p t hedge hp ht
  · rintro ⟨rfl, rfl⟩
    obtain ⟨-, ht, a, ha, hedge⟩ := hl.mem_exits_iff.1 (hx ▸ List.mem_singleton_self t)
    obtain ⟨rfl, -⟩ := hexit a t hedge ha ht
    exact ⟨hedge, ha, ht⟩

end FlowGraph.IsNatural

/-! ## One block -/

section OneBlock

variable (hl : l ∈ (FlowGraph.of f).naturalLoops) (hblocks : l.blocks = [l.header])

include hl

/-- Every loop has a latch. -/
lemma exists_isBackEdge : ∃ p, (FlowGraph.of f).IsBackEdge p l.header :=
  FlowGraph.exists_header_eq_iff.1 ⟨l, hl, rfl⟩

include hblocks

/-- The only edge inside a loop of one block leads from the header to itself. -/
lemma inside_iff_of_blocks_eq_singleton :
    t ∈ (FlowGraph.of f).targetsOf p ∧ p ∈ l.blocks ∧ t ∈ l.blocks ↔
      p = l.header ∧ t = l.header := by
  rw [hblocks, List.mem_singleton, List.mem_singleton, and_iff_right_iff_imp]
  rintro ⟨rfl, rfl⟩
  obtain ⟨p, hp⟩ := exists_isBackEdge hl
  have hmem := hp.mem_blocks hl
  rw [hblocks, List.mem_singleton] at hmem
  exact hmem ▸ hp.target

end OneBlock

/-! ## Two blocks -/

/-- There are two blocks in a loop, the header and the block `b`, and one latch. -/
structure Loop.IsPair (l : Loop) (b : BlockId) : Prop where
  /-- The second block is not the header. -/
  ne : b ≠ l.header
  /-- The blocks. -/
  mem_blocks_iff : ∀ x, x ∈ l.blocks ↔ x = l.header ∨ x = b
  /-- The header is listed once. -/
  count_header : l.blocks.count l.header = 1
  /-- There is one latch. -/
  exists_latches_eq : ∃ q, l.latches = [q]

namespace Loop.IsPair

variable (hb : l.IsPair b) (hl : l ∈ (FlowGraph.of f).naturalLoops)

include hb

lemma mem : b ∈ l.blocks := (hb.mem_blocks_iff b).2 (.inr rfl)

include hl

/-- The second block is the only latch: it leads to a latch around the header. -/
lemma isBackEdge_iff : (FlowGraph.of f).IsBackEdge p l.header ↔ p = b := by
  obtain ⟨q, hq⟩ := hb.exists_latches_eq
  have hlatch : ∀ p, (FlowGraph.of f).IsBackEdge p l.header ↔ p = q := by
    intro p
    rw [← FlowGraph.mem_latches_iff_isBackEdge, ← (FlowGraph.isNatural_of_mem hl).mem_latches_iff,
      hq, List.mem_singleton]
  obtain ⟨-, r, hr, hlead⟩ :=
    ((FlowGraph.mem_blocks_iff_leadsAround hl).1 hb.mem).resolve_left hb.ne
  obtain rfl := (hlatch r).1 hr
  suffices r = b by rw [hlatch, this]
  refine ((hb.mem_blocks_iff r).1 (hr.mem_blocks hl)).resolve_left fun hheader => ?_
  rcases hlead.cases_tail with heq | ⟨x, -, hx⟩
  · exact hb.ne (heq.symm.trans hheader)
  · simp [hheader] at hx

/-- The header does not lead to itself. -/
lemma header_notMem_targetsOf : l.header ∉ (FlowGraph.of f).targetsOf l.header := by
  intro hedge
  have hback : (FlowGraph.of f).IsBackEdge l.header l.header := by
    refine ⟨hedge, Flow.mem_order_iff.1 (header_mem_order hl), fun bs _ => .inr rfl⟩
  exact hb.ne ((hb.isBackEdge_iff hl).1 hback).symm

/-- The loop has one number. -/
lemma get?_unique {id id' : LoopId} (hid : (LoopForest.of (FlowGraph.of f)).get? id = some l)
    (hid' : (LoopForest.of (FlowGraph.of f)).get? id' = some l) : id = id' := by
  have hcount : (FlowGraph.of f).naturalLoops.count l ≤ 1 := by
    rw [← hb.count_header, (FlowGraph.isNatural_of_mem hl).blocks_eq,
      List.count_filter (Loop.contains_iff.2 (FlowGraph.isNatural_of_mem hl).header_mem)]
    exact FlowGraph.count_naturalLoops_le
  have hlt : ∀ m n : ℕ, (FlowGraph.of f).naturalLoops[m]? = some l →
      (FlowGraph.of f).naturalLoops[n]? = some l → ¬ m < n := by
    intro m n hm hn hmn
    obtain ⟨hm, hlm⟩ := List.getElem?_eq_some_iff.1 hm
    obtain ⟨hn, hln⟩ := List.getElem?_eq_some_iff.1 hn
    have htwice := List.duplicate_iff_exists_distinct_get.2
      ⟨⟨m, hm⟩, ⟨n, hn⟩, hmn, hlm.symm, hln.symm⟩
    have htwo := List.duplicate_iff_two_le_count.1 htwice
    omega
  rw [LoopForest.get?_of] at hid hid'
  exact le_antisymm (not_lt.1 (hlt id' id hid' hid)) (not_lt.1 (hlt id id' hid hid'))

/-- The second block does not lead to itself: it would head a loop inside the loop. -/
lemma notMem_targetsOf (hid : (LoopForest.of (FlowGraph.of f)).get? id = some l)
    (hchildren : (LoopForest.of (FlowGraph.of f)).children id = []) :
    b ∉ (FlowGraph.of f).targetsOf b := by
  intro hedge
  have hback := (hb.isBackEdge_iff hl).2 rfl
  obtain ⟨k, hk, hheader⟩ := FlowGraph.exists_header_eq_iff.2
    ⟨b, (⟨hedge, hback.reachable, fun bs _ => .inr rfl⟩ : (FlowGraph.of f).IsBackEdge b b)⟩
  obtain ⟨j, hj⟩ := LoopForest.exists_get?_of_mem hk
  -- of the loops that have that loop inside, the last one is the loop of two blocks
  have hin : k.isInside l = true :=
    isInside_of_header_mem hk hl (hheader ▸ hb.mem) (hheader ▸ hb.ne)
  obtain ⟨n, hn⟩ := LoopForest.exists_isLast (P := (k.isInside · = true)) hid hin
  obtain ⟨m, hm, hkm⟩ := hn.exists_get?
  obtain ⟨hsub, hne⟩ := Loop.isInside_iff.1 hkm
  have hbm : b ∈ m.blocks := hsub (hheader ▸ (FlowGraph.isNatural_of_mem hk).header_mem)
  have hm' := LoopForest.mem_of_get? hm
  have hlast : n = id := by
    rcases isInside_trichotomy hm' hl (Flow.mem_order_iff.2 hback.reachable)
      (Loop.contains_iff.2 hbm) (Loop.contains_iff.2 hb.mem) with rfl | hml | hlm
    · exact hb.get?_unique hl hm hid
    · obtain ⟨hsub', hne'⟩ := Loop.isInside_iff.1 hml
      rcases (hb.mem_blocks_iff _).1 (hsub' (FlowGraph.isNatural_of_mem hm').header_mem) with h | h
      · exact absurd h hne'
      · exact absurd (hheader.trans h.symm) hne
    · have hlt := LoopForest.lt_of_isInside hid hm hlm
      have hle := hn.le id l hid hin
      omega
  have hmem := LoopForest.mem_children_iff.2 ((LoopForest.parent?_eq_some_iff hj).2 (hlast ▸ hn))
  rw [hchildren] at hmem
  cases hmem

/-- The header leads to the second block. -/
lemma mem_targetsOf_header (hself : b ∉ (FlowGraph.of f).targetsOf b) :
    b ∈ (FlowGraph.of f).targetsOf l.header := by
  obtain ⟨bs, hbs⟩ := ((hb.isBackEdge_iff hl).2 rfl).reachable
  have hdom := (FlowGraph.isNatural_of_mem hl).dominates hb.mem
  cases hbs with
  | entry he => exact absurd (hdom.eq_of_startsAt he).symm hb.ne
  | @step p _ _ hpath hedge =>
    have hp := (FlowGraph.isNatural_of_mem hl).closed b hb.mem hb.ne p hedge
    rcases (hb.mem_blocks_iff p).1 hp with rfl | rfl
    · exact hedge
    · exact absurd hedge hself

/-- Inside the loop the two blocks lead to each other. -/
lemma inside_iff (hself : b ∉ (FlowGraph.of f).targetsOf b) :
    t ∈ (FlowGraph.of f).targetsOf p ∧ p ∈ l.blocks ∧ t ∈ l.blocks ↔
      p = l.header ∧ t = b ∨ p = b ∧ t = l.header := by
  rw [hb.mem_blocks_iff, hb.mem_blocks_iff]
  constructor
  · rintro ⟨hedge, rfl | rfl, rfl | rfl⟩
    · exact absurd hedge (hb.header_notMem_targetsOf hl)
    · exact .inl ⟨rfl, rfl⟩
    · exact .inr ⟨rfl, rfl⟩
    · exact absurd hedge hself
  · rintro (⟨rfl, rfl⟩ | ⟨rfl, rfl⟩)
    · exact ⟨hb.mem_targetsOf_header hl hself, .inl rfl, .inr rfl⟩
    · exact ⟨((hb.isBackEdge_iff hl).2 rfl).target, .inr rfl, .inl rfl⟩

end Loop.IsPair

/-! ## The shape -/

namespace Loop.HasShape

variable (hs : l.HasShape s) (hl : l ∈ (FlowGraph.of f).naturalLoops)

include hs hl

/-- A loop of one block is the condition block and the body. -/
lemma fits_of_length_eq_one (hlength : l.blocks.length = 1) (hcond : s.cond = l.header)
    (hbody : s.body = l.header) : s.Fits (FlowGraph.of f) l := by
  have hnat := FlowGraph.isNatural_of_mem hl
  have hblocks : l.blocks = [l.header] := by
    obtain ⟨x, hx⟩ := List.length_eq_one_iff.1 hlength
    have hmem := hnat.header_mem
    rw [hx, List.mem_singleton] at hmem
    rw [hx, hmem]
  have hlist : s.blocks = [l.header] := by
    rw [LoopShape.blocks, if_pos (hcond.trans hbody.symm), hcond]
  refine ⟨hs.header_eq, fun b => ?_, .inl (hs.header_eq.trans hcond.symm), fun p t => ?_,
    fun p t => ?_, fun p t => ?_, fun b => ?_, ?_, ?_⟩
  · rw [hblocks, hcond, hbody, or_self, List.mem_singleton]
  · rw [hs.header_eq]
    exact hnat.enters_iff hs.predecessor_eq
  · rw [hcond]
    refine hnat.leaves_iff (fun _ _ => FlowGraph.mem_blocks_of_mem_targetsOf_of) hs.exits_eq ?_
    intro p hp
    have hmem := (hnat.mem_exiting_iff.1 hp).1
    rwa [hblocks, List.mem_singleton] at hmem
  · rw [hcond, hbody, or_self]
    exact inside_iff_of_blocks_eq_singleton hl hblocks
  · rw [hlist, hblocks]
  · rw [hlist]
    exact List.nodup_singleton _
  · rw [hlist, hs.header_eq, List.head?_cons]

/-- A loop of more than one block has two. -/
lemma exists_isPair (hlength : l.blocks.length ≠ 1)
    (hexiting : l.exiting = [p]) (hlatches : l.latches = [q]) : ∃ b, l.IsPair b := by
  have hnat := FlowGraph.isNatural_of_mem hl
  have hheader := hnat.header_mem
  have hfilter : ∃ outside, l.exiting = l.blocks.filter outside := by
    rw [hnat.eq_loopOf]
    exact ⟨_, rfl⟩
  obtain ⟨outside, hfilter⟩ := hfilter
  have htwo : l.blocks.length = 2 := by
    have hpos := List.length_pos_of_mem hheader
    have hle := hs.length_blocks_le
    omega
  obtain ⟨x, y, hxy⟩ := List.length_eq_two.1 htwo
  -- if one block were listed twice, the loop would be left from both or from none
  have hne : x ≠ y := by
    rintro rfl
    rw [hexiting, hxy, List.filter_cons, List.filter_cons] at hfilter
    cases hx : outside x <;> simp [hx] at hfilter
  rw [hxy, List.mem_pair] at hheader
  rcases hheader with hx | hy
  · refine ⟨y, hx ▸ hne.symm, fun b => ?_, ?_, q, hlatches⟩
    · rw [hxy, List.mem_pair, hx]
    · simp [hxy, hx, hne.symm]
  · refine ⟨x, hy ▸ hne, fun b => ?_, ?_, q, hlatches⟩
    · rw [hxy, List.mem_pair, hy, or_comm]
    · simp [hxy, hy, hne]

/-- Of two blocks either one may be the condition block. -/
lemma fits_of_isPair (hb : l.IsPair b) (hself : b ∉ (FlowGraph.of f).targetsOf b)
    (hexiting : l.exiting = [s.cond])
    (hcases : s.cond = l.header ∧ s.body = b ∨ s.cond = b ∧ s.body = l.header) :
    s.Fits (FlowGraph.of f) l := by
  have hnat := FlowGraph.isNatural_of_mem hl
  have hlist : s.blocks = [l.header, b] := by
    rcases hcases with ⟨hcond, hbody⟩ | ⟨hcond, hbody⟩
    · simp [LoopShape.blocks, hcond, hbody, hs.header_eq, hb.ne.symm]
    · simp [LoopShape.blocks, hcond, hbody, hs.header_eq, hb.ne]
  have hleaves : ∀ p, p ∈ l.exiting → p = s.cond := by
    intro p hp
    rwa [hexiting, List.mem_singleton] at hp
  refine ⟨hs.header_eq, fun x => ?_, ?_, fun p t => ?_, fun p t => ?_, fun p t => ?_, fun x => ?_,
    ?_, ?_⟩
  · rw [hb.mem_blocks_iff]
    rcases hcases with ⟨hcond, hbody⟩ | ⟨hcond, hbody⟩
    · rw [hcond, hbody]
    · rw [hcond, hbody, or_comm]
  · rw [hs.header_eq]
    exact hcases.imp (fun h => h.1.symm) fun h => h.2.symm
  · rw [hs.header_eq]
    exact hnat.enters_iff hs.predecessor_eq
  · exact hnat.leaves_iff (fun _ _ => FlowGraph.mem_blocks_of_mem_targetsOf_of) hs.exits_eq hleaves
  · rw [hb.inside_iff hl hself]
    rcases hcases with ⟨hcond, hbody⟩ | ⟨hcond, hbody⟩
    · rw [hcond, hbody]
    · rw [hcond, hbody, or_comm]
  · rw [hlist, List.mem_pair, hb.mem_blocks_iff]
  · rw [hlist]
    simpa using hb.ne.symm
  · rw [hlist, hs.header_eq, List.head?_cons]

end Loop.HasShape

/-- **A recognized shape is the control flow of the loop.**  The blocks of the loop are the
condition block and the body, one of them the header; one edge leads into the loop, one out of it,
and inside the two blocks lead to each other, or the only one to itself. -/
theorem LoopForest.shape_fits (hs : (Flow.of f).loops.shape h = .ok s) :
    ∃ l ∈ (FlowGraph.of f).naturalLoops, l.header = h ∧ s.Fits (FlowGraph.of f) l := by
  obtain ⟨id, l, hid, hheader, hchildren, hshape⟩ := shape_eq_ok hs
  have hl := mem_of_get? hid
  refine ⟨l, hl, hheader, ?_⟩
  rcases Loop.condAndBody_eq_ok hshape.condAndBody_eq with
    ⟨hlength, hcond, hbody⟩ | ⟨hlength, hexiting, latch, hlatches, hbody⟩
  · exact hshape.fits_of_length_eq_one hl hlength hcond hbody
  · obtain ⟨b, hb⟩ := hshape.exists_isPair hl hlength hexiting hlatches
    have hnat := FlowGraph.isNatural_of_mem hl
    have hlatch : latch = b := by
      refine (hb.isBackEdge_iff hl).1 (FlowGraph.mem_latches_iff_isBackEdge.1 ?_)
      exact hnat.mem_latches_iff.1 (hlatches ▸ List.mem_singleton_self latch)
    have hcond := (hnat.mem_exiting_iff.1 (hexiting ▸ List.mem_singleton_self s.cond)).1
    refine hshape.fits_of_isPair hl hb (hb.notMem_targetsOf hl hid hchildren) hexiting ?_
    rw [hbody, hlatch]
    rcases (hb.mem_blocks_iff s.cond).1 hcond with hcond | hcond
    · exact .inl ⟨hcond, if_neg fun heq => hb.ne (heq.trans hcond)⟩
    · exact .inr ⟨hcond, if_pos hcond.symm⟩

namespace TestedAtTheEnd

/-- A loop whose second block says whether there is another iteration. -/
def function : Function ℝ where
  id := ⟨0⟩
  name := "tested"
  params := #[⟨"c", .int 1, none⟩]
  retTy := .void
  blocks := #[⟨⟨0⟩, "entry", [⟨0⟩], none, none⟩, ⟨⟨1⟩, "work", [⟨1⟩], none, none⟩,
    ⟨⟨2⟩, "test", [⟨2⟩], none, none⟩, ⟨⟨3⟩, "exit", [⟨3⟩], none, none⟩]
  insts := #[⟨⟨0⟩, ⟨0⟩, "", .void, .br ⟨1⟩, none, none⟩, ⟨⟨1⟩, ⟨1⟩, "", .void, .br ⟨2⟩, none, none⟩,
    ⟨⟨2⟩, ⟨2⟩, "", .void, .condBr (.arg 0) ⟨1⟩ ⟨3⟩, none, none⟩,
    ⟨⟨3⟩, ⟨3⟩, "", .void, .ret none, none, none⟩]
  maxRecursion := none
  entryPoint := false

/-- The test is the condition block, although it comes second. -/
def shape : LoopShape := ⟨⟨1⟩, ⟨0⟩, ⟨2⟩, ⟨1⟩, ⟨3⟩⟩

/-- The shape is recognized, so it is the control flow of the loop. -/
theorem shape_fits_of_function : (Flow.of function).loops.shape ⟨1⟩ = .ok shape ∧
    ∃ l ∈ (FlowGraph.of function).naturalLoops, l.header = ⟨1⟩ ∧
      shape.Fits (FlowGraph.of function) l := by
  have hshape : (Flow.of function).loops.shape ⟨1⟩ = .ok shape := by decide +kernel
  exact ⟨hshape, LoopForest.shape_fits hshape⟩

end TestedAtTheEnd

end Roundoff
