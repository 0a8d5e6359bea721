/-
# What the order of visits says about loops

The order of visits lists the reachable blocks, each of them once, from the entry on.  It follows
the edges except where they lead back, and the header of a loop comes in front of all of the loop.

At every block the walk looks at the successors outside the innermost loop of the block before those
inside.  So when the block lets the walk into a part of its loop that cannot be entered otherwise,
the blocks to which it leaves the loop have been left already, and they come behind that part.  This
is all that can be said: a part of the loop that is entered before the block, or around it, is left
before the walk comes to the end of the loop, and comes behind what follows the loop.
-/
import Mathlib
import Roundoff.Proofs.Flow.Forest
import Roundoff.Proofs.Flow.Walk

namespace Roundoff

/-! ## Nodes that are entered late -/

namespace Walk

variable {N : Type} {next : N → List N} {S : Set N} {u x root : N} {w w' : Walk N}

/-- The nodes of the set are entered only after the node `x` has been left. -/
structure Defers (next : N → List N) (S : Set N) (x : N) (w : Walk N) : Prop
    extends IsSound next w where
  /-- When a node of the set has been seen, the node `x` has been left. -/
  entered : ∀ b ∈ S, b ∈ w.seen → x ∈ w.finished
  /-- A node of the set is left after the node `x`. -/
  left : ∀ b ∈ S, b ∈ w.finished → [b, x].Sublist w.finished

lemma defers_start (hroot : root ∉ S) : (start next root).Defers next S x where
  toIsSound := isSound_start next root
  entered _ hb hseen := absurd (List.mem_singleton.1 hseen ▸ hb) hroot
  left _ _ hleft := nomatch hleft

/-- A step does not enter a node of the set before `x` has been left, if the nodes of the set can be
entered from each other and from `u` only, if `u` looks at `x` before it looks at them, and if `x`
does not lead back to `u`. -/
theorem IsStep.defers (hS : ∀ n, ∀ t ∈ next n, t ∈ S → n ∈ S ∨ n = u)
    (hfirst : ∀ looked t rest, next u = looked ++ t :: rest → t ∈ S → x ∈ looked)
    (hback : ¬ Search.Leads next x u) (hstep : IsStep next w w') (hw : w.Defers next S x) :
    w'.Defers next S x := by
  refine ⟨hstep.isSound hw.toIsSound, ?_, ?_⟩
  · intro b hb hseen
    cases hstep with
    | rest => exact hw.entered b hb hseen
    | leave => exact List.mem_cons_of_mem _ (hw.entered b hb hseen)
    | pass => exact hw.entered b hb hseen
    | @enter s n t rest below ht =>
      rcases List.mem_cons.1 hseen with rfl | hseen
      · rcases hS n b hw.leads_next hb with hn | rfl
        · exact hw.entered n hn (hw.open_seen n List.mem_cons_self)
        · -- the node `x` has been looked at, and it is not one of those under way
          obtain ⟨looked, hnext, hlooked⟩ := hw.looked_seen n (b :: rest) List.mem_cons_self
          have hx := hlooked x (hfirst looked b rest hnext hb)
          refine (hw.left_or_open x hx).resolve_right fun hopen => hback ?_
          rcases List.mem_cons.1 hopen with rfl | hbelow
          · exact .refl
          · exact (List.pairwise_cons.1 hw.leads).1 x hbelow
      · exact hw.entered b hb hseen
  · intro b hb hleft
    cases hstep with
    | rest => exact hw.left b hb hleft
    | leave =>
      rcases List.mem_cons.1 hleft with rfl | hleft
      · have hx := hw.entered b hb (hw.open_seen b List.mem_cons_self)
        exact List.cons_sublist_cons.2 (List.singleton_sublist.2 hx)
      · exact (hw.left b hb hleft).trans (List.sublist_cons_self _ _)
    | pass => exact hw.left b hb hleft
    | enter => exact hw.left b hb hleft

end Walk

variable {R : Type} {f : Function R} {b e u x : BlockId} {l : Loop}

/-- The blocks of a loop lead to its header. -/
lemma FlowGraph.reaches_header (hl : l ∈ (FlowGraph.of f).naturalLoops) (hb : b ∈ l.blocks) :
    (FlowGraph.of f).Reaches b l.header := by
  rcases (mem_blocks_iff_leadsAround hl).1 hb with rfl | ⟨-, p, hp, hlead⟩
  · exact .refl
  · have hpath : (FlowGraph.of f).Reaches b p :=
      Relation.ReflTransGen.mono (fun _ _ h => (List.mem_filter.1 h).1) b p hlead
    exact hpath.tail hp.target

namespace Flow

/-! ## The walk through a function -/

/-- The order of visits is the order in which a search from the entry leaves the blocks. -/
lemma order_eq_finished (he : (FlowGraph.of f).StartsAt e) :
    (Flow.of f).order = (Search.visit (Flow.of f).orderedSuccessors (FlowGraph.of f).size
      (.avoiding []) e).finished := by
  change FlowGraph.searchFromEntry (FlowGraph.of f) _ [] = _
  rw [FlowGraph.searchFromEntry, he]

lemma orderedSuccessors_subset (b : BlockId) :
    ∀ t ∈ (Flow.of f).orderedSuccessors b, t ∈ (FlowGraph.of f).blocks.toFinset := fun _ ht =>
  List.mem_toFinset.2 (FlowGraph.mem_blocks_of_mem_targetsOf_of (mem_orderedSuccessors.1 ht))

lemma card_blocks_le (g : FlowGraph) : g.blocks.toFinset.card ≤ g.size := by
  refine (List.toFinset_card_le _).trans ?_
  rw [FlowGraph.blocks, List.length_map, List.length_range]

/-- **A walk leaves the blocks in the reverse of the order of visits**, and then it has come to its
end. -/
theorem run_start_order (he : (FlowGraph.of f).StartsAt e) :
    ∃ seen, (Walk.start (Flow.of f).orderedSuccessors e).run (Flow.of f).orderedSuccessors
      (Search.steps (Flow.of f).orderedSuccessors (Flow.of f).order)
        = ⟨⟨seen, (Flow.of f).order⟩, []⟩ := by
  rw [order_eq_finished he]
  exact ⟨_, Search.run_start (fun b _ => orderedSuccessors_subset b)
    (List.mem_toFinset.2 he.mem_blocks) (card_blocks_le _)⟩

/-- The entry is visited first. -/
lemma head?_order (f : Function R) :
    (Flow.of f).order.head? = FlowGraph.entry? (FlowGraph.of f) := by
  cases he : FlowGraph.entry? (FlowGraph.of f) with
  | none => rw [order_eq_nil he, List.head?_nil]
  | some e =>
    obtain ⟨found, s, -, hvisit⟩ := (Search.finds_rules (Flow.of f).orderedSuccessors).exists_enter
      (s := .avoiding []) (fun b _ => orderedSuccessors_subset b)
      (List.mem_toFinset.2 (FlowGraph.StartsAt.mem_blocks he)) List.not_mem_nil
      ((Finset.card_le_card Finset.sdiff_subset).trans (card_blocks_le _))
    rw [order_eq_finished he, hvisit, List.head?_cons]

/-! ## Headers -/

/-- The header of a loop comes in front of the other blocks of the loop. -/
lemma idxOf_header_lt (hl : l ∈ (FlowGraph.of f).naturalLoops) (hb : b ∈ l.blocks)
    (hbo : b ∈ (Flow.of f).order) (hne : b ≠ l.header) :
    (Flow.of f).order.idxOf l.header < (Flow.of f).order.idxOf b := by
  have hle := idxOf_order_le hbo ((FlowGraph.isNatural_of_mem hl).dominates hb)
  refine hle.lt_of_ne fun heq => hne ?_
  exact ((List.idxOf_inj (header_mem_order hl)).1 heq).symm

end Flow

/-- A list of blocks in the order in which control comes upon them. -/
structure FlowGraph.IsVisitOrder (g : FlowGraph) (bs : List BlockId) : Prop where
  /-- No block is listed twice. -/
  nodup : bs.Nodup
  /-- The reachable blocks are listed, and no others. -/
  mem_iff : ∀ b, b ∈ bs ↔ g.Reachable b
  /-- The entry comes first. -/
  head?_eq : bs.head? = g.entry?
  /-- An edge leads onwards, unless its target leads back to its source. -/
  edge : ∀ u ∈ bs, ∀ v ∈ g.targetsOf u, bs.idxOf u < bs.idxOf v ∨ g.Reaches v u
  /-- The header of a loop comes in front of the other reachable blocks of the loop. -/
  header : ∀ l ∈ g.naturalLoops, ∀ b ∈ l.body g, b ≠ l.header → bs.idxOf l.header < bs.idxOf b

namespace Flow

/-- **The blocks are visited in an order in which control comes upon them**, and this is the order
that a walk from the entry leaves behind when its stack is empty. -/
theorem order_isVisitOrder (f : Function R) :
    (FlowGraph.of f).IsVisitOrder (Flow.of f).order ∧
      ∀ e, (FlowGraph.of f).StartsAt e → ∃ steps, ∀ k ≥ steps,
        ((Walk.start (Flow.of f).orderedSuccessors e).run (Flow.of f).orderedSuccessors k).stack
          = [] ∧
        ((Walk.start (Flow.of f).orderedSuccessors e).run (Flow.of f).orderedSuccessors k).finished
          = (Flow.of f).order := by
  refine ⟨⟨nodup_order f, fun b => mem_order_iff, head?_order f, fun u hu v hv => ?_,
    fun l hl b hb hne => ?_⟩, fun e he => ?_⟩
  · exact or_iff_not_imp_right.2 (idxOf_order_lt hu hv)
  · exact idxOf_header_lt hl hb.1 (mem_order_iff.2 hb.2) hne
  · obtain ⟨seen, hend⟩ := run_start_order he
    refine ⟨Search.steps (Flow.of f).orderedSuccessors (Flow.of f).order, fun k hk => ?_⟩
    -- the walk has come to its end by then and stays there
    obtain ⟨d, rfl⟩ := Nat.exists_eq_add_of_le hk
    rw [Walk.run_add, hend, Walk.run_of_nil rfl]
    exact ⟨rfl, rfl⟩

/-! ## Blocks behind which a loop is left -/

lemma mem_of_innermost?
    (h : ((Flow.of f).loops.innermost? u).bind (Flow.of f).loops.get? = some l) :
    l ∈ (FlowGraph.of f).naturalLoops ∧ u ∈ l.blocks := by
  obtain ⟨id, hid, hl⟩ := Option.bind_eq_some_iff.1 h
  obtain ⟨l', hl', hu⟩ := (LoopForest.innermost?_eq_some_iff.1 hid).exists_get?
  obtain rfl := Option.some.inj (hl'.symm.trans hl)
  exact ⟨LoopForest.mem_of_get? hl, Loop.contains_iff.1 hu⟩

/-- The blocks to which a block leaves its innermost loop are looked at before those inside. -/
lemma mem_looked (h : ((Flow.of f).loops.innermost? u).bind (Flow.of f).loops.get? = some l)
    (hx : x ∈ (FlowGraph.of f).targetsOf u) (hxl : x ∉ l.blocks) {looked rest : List BlockId}
    (hnext : (Flow.of f).orderedSuccessors u = looked ++ b :: rest) (hb : b ∈ l.blocks) :
    x ∈ looked := by
  have hmem := mem_orderedSuccessors.2 hx
  simp only [orderedSuccessors, h] at hnext hmem
  generalize (Flow.of f).graph.successors u = succs at hnext hmem
  have hleaves : x ∈ succs.filter fun s => !l.contains s := by
    refine (List.mem_append.1 hmem).resolve_right fun hin => hxl ?_
    exact Loop.contains_iff.1 (List.mem_filter.1 hin).2
  have hstays : b ∉ succs.filter fun s => !l.contains s := by
    simp [Loop.contains_iff.2 hb]
  rcases List.append_eq_append_iff.1 hnext with ⟨more, hlooked, -⟩ | ⟨more, hleave, hrest⟩
  · exact hlooked ▸ List.mem_append_left _ hleaves
  · cases more with
    | nil => exact (hleave.trans (List.append_nil looked)) ▸ hleaves
    | cons c more =>
      obtain ⟨rfl, -⟩ := List.cons.inj hrest
      exact absurd (hleave ▸ List.mem_append_right _ List.mem_cons_self) hstays

/-- **What a block dominates in its innermost loop comes in front of where the block leaves the
loop**, unless control can come back from there.  In particular the whole loop comes in front of the
blocks to which its header leaves it. -/
theorem idxOf_lt_of_dominates
    (h : ((Flow.of f).loops.innermost? u).bind (Flow.of f).loops.get? = some l)
    (hx : x ∈ (FlowGraph.of f).targetsOf u) (hxl : x ∉ l.blocks)
    (hback : ¬ (FlowGraph.of f).Reaches x l.header) (hb : b ∈ l.body (FlowGraph.of f))
    (hdom : (FlowGraph.of f).Dominates u b) :
    (Flow.of f).order.idxOf b < (Flow.of f).order.idxOf x := by
  obtain ⟨hl, hu⟩ := mem_of_innermost? h
  have hnat := FlowGraph.isNatural_of_mem hl
  have hxu : ¬ (FlowGraph.of f).Reaches x u := fun hxu =>
    hback (hxu.trans (FlowGraph.reaches_header hl hu))
  have hbo : b ∈ (Flow.of f).order := mem_order_iff.2 hb.2
  by_cases hbu : b = u
  · exact hbu ▸ idxOf_order_lt (hbu ▸ hbo) hx hxu
  obtain ⟨bs, hbs⟩ := hb.2
  obtain ⟨e, he, -⟩ := hbs.reflTransGen
  let S : Set BlockId := {c | c ∈ l.blocks ∧ (FlowGraph.of f).Dominates u c ∧ c ≠ u}
  have hroot : e ∉ S := fun hS => hS.2.2 (hS.2.1.eq_of_startsAt he).symm
  -- the part of the loop that `u` dominates is entered from there only
  have hS : ∀ n, ∀ t ∈ (Flow.of f).orderedSuccessors n, t ∈ S → n ∈ S ∨ n = u := by
    rintro n t ht ⟨htl, htdom, htu⟩
    have ht := mem_orderedSuccessors.1 ht
    have hheader : t ≠ l.header := by
      rintro rfl
      have hmem : u ∈ (Flow.of f).order := mem_order_iff.2 (hdom.reaches hbs).1
      exact htu (eq_of_dominates hmem (hnat.dominates hu) htdom)
    refine or_iff_not_imp_right.2 fun hnu => ⟨hnat.closed t htl hheader n ht, ?_, hnu⟩
    exact htdom.of_target ht (Ne.symm htu)
  obtain ⟨seen, hend⟩ := run_start_order he
  have hdefers := Walk.run_induction
    (fun w w' => Walk.IsStep.defers hS
      (fun _ _ _ hnext ht => mem_looked h hx hxl hnext ht.1)
      (fun hlead => hxu (leads_orderedSuccessors_iff.1 hlead)))
    (Walk.defers_start hroot) (Search.steps (Flow.of f).orderedSuccessors (Flow.of f).order)
  rw [hend] at hdefers
  exact Search.idxOf_lt_idxOf_of_sublist (nodup_order f) (hdefers.left b ⟨hb.1, hdom, hbu⟩ hbo)

/-- Every loop comes in front of the blocks to which it is left and from which control does not come
back. -/
def LoopsComeFirst (f : Function R) : Prop :=
  ∀ l ∈ (FlowGraph.of f).naturalLoops, ∀ b ∈ l.body (FlowGraph.of f), ∀ u ∈ l.blocks,
    ∀ x ∈ (FlowGraph.of f).targetsOf u, x ∉ l.blocks → ¬ (FlowGraph.of f).Reaches x l.header →
      (Flow.of f).order.idxOf b < (Flow.of f).order.idxOf x

/-! ### A loop with two arms -/

namespace TwoArms

/-- A loop whose header branches to two arms, where the loop is left from the second one. -/
def function : Function ℝ where
  id := ⟨0⟩
  name := "arms"
  params := #[⟨"c", .int 1, none⟩]
  retTy := .void
  blocks := #[⟨⟨0⟩, "entry", [⟨0⟩], none, none⟩, ⟨⟨1⟩, "header", [⟨1⟩], none, none⟩,
    ⟨⟨2⟩, "first", [⟨2⟩], none, none⟩, ⟨⟨3⟩, "second", [⟨3⟩], none, none⟩,
    ⟨⟨4⟩, "exit", [⟨4⟩], none, none⟩]
  insts := #[⟨⟨0⟩, ⟨0⟩, "", .void, .br ⟨1⟩, none, none⟩,
    ⟨⟨1⟩, ⟨1⟩, "", .void, .condBr (.arg 0) ⟨2⟩ ⟨3⟩, none, none⟩,
    ⟨⟨2⟩, ⟨2⟩, "", .void, .br ⟨1⟩, none, none⟩,
    ⟨⟨3⟩, ⟨3⟩, "", .void, .condBr (.arg 0) ⟨4⟩ ⟨1⟩, none, none⟩,
    ⟨⟨4⟩, ⟨4⟩, "", .void, .ret none, none, none⟩]
  maxRecursion := none
  entryPoint := false

lemma order_function : (Flow.of function).order = [⟨0⟩, ⟨1⟩, ⟨3⟩, ⟨4⟩, ⟨2⟩] := by decide +kernel

/-- The first arm comes behind the block after the loop: it has been left when the walk comes to the
second one. -/
theorem not_loopsComeFirst : ¬ LoopsComeFirst function := by
  intro h
  have hend : ¬ (FlowGraph.of function).Reaches ⟨4⟩ ⟨1⟩ := by
    intro hlead
    rcases hlead.cases_head with heq | ⟨c, hc, -⟩
    · revert heq
      decide
    · have hnone : (FlowGraph.of function).targetsOf ⟨4⟩ = [] := by decide +kernel
      exact List.not_mem_nil (hnone ▸ hc)
  have hloop : ⟨⟨1⟩, [⟨1⟩, ⟨2⟩, ⟨3⟩], [⟨2⟩, ⟨3⟩], [⟨3⟩], [⟨4⟩], some ⟨0⟩⟩
      ∈ (FlowGraph.of function).naturalLoops := by decide +kernel
  have harm : (FlowGraph.of function).Reachable ⟨2⟩ :=
    mem_order_iff.1 (by rw [order_function]; decide)
  have hlt := h _ hloop ⟨2⟩ ⟨by decide, harm⟩ ⟨3⟩ (by decide) ⟨4⟩ (by decide +kernel)
    (by decide) hend
  rw [order_function] at hlt
  revert hlt
  decide

end TwoArms

end Flow

end Roundoff
