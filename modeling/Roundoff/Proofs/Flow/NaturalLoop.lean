/-
# What is found of a loop

The latches of a loop are the sources of the back edges to its header, and the blocks of the loop
are found by going back from the latches to the header.  The search takes the predecessors as they
are, so it also comes upon blocks to which no path leads, if they branch into the loop.  These
belong to the loop that is found, and what is said of it counts them: they are dominated by the
header for want of paths, they make the loop larger, and they may lead out of it.  A loop consists
of reachable blocks if and only if no such block branches into it behind the header.
-/
import Mathlib
import Roundoff.Proofs.Flow.Forest

namespace Roundoff

variable {R : Type} {f : Function R} {g : FlowGraph} {b h p : BlockId} {l : Loop}

lemma single?_eq_some_iff_forall {α : Type} {x : α} {xs : List α} (hxs : xs.Nodup) :
    single? xs = some x ↔ x ∈ xs ∧ ∀ y ∈ xs, y = x := by
  cases xs with
  | nil => simp [single?]
  | cons a xs =>
    cases xs with
    | nil => simp [single?, eq_comm]
    | cons b xs =>
      refine iff_of_false nofun fun ⟨_, hall⟩ => ?_
      have hab : a = b := (hall a (by simp)).trans (hall b (by simp)).symm
      exact (List.nodup_cons.1 hxs).1 (hab ▸ List.mem_cons_self)

namespace FlowGraph

/-- What is found of a loop. -/
structure IsFoundLoop (g : FlowGraph) (l : Loop) : Prop where
  /-- The latches are the reachable blocks before the header that the header dominates. -/
  mem_latches : ∀ p, p ∈ l.latches ↔ g.IsBackEdge p l.header
  /-- The blocks are the header and the blocks that lead to a latch without passing through it. -/
  mem_blocks : ∀ b, b ∈ l.blocks ↔ b = l.header ∨
    b ≠ l.header ∧ ∃ p ∈ l.latches, g.LeadsAround l.header b p
  /-- The header dominates the blocks. -/
  dominates : ∀ b ∈ l.blocks, g.Dominates l.header b
  /-- The exiting blocks are the blocks of the loop that may be followed by a block outside. -/
  mem_exiting : ∀ b, b ∈ l.exiting ↔ b ∈ l.blocks ∧ ∃ x ∈ g.targetsOf b, x ∉ l.blocks
  /-- The exits are the blocks outside that may follow a block of the loop. -/
  mem_exits : ∀ x, x ∈ l.exits ↔ x ∉ l.blocks ∧ ∃ b ∈ l.blocks, x ∈ g.targetsOf b
  /-- The predecessor is the only block outside before the header. -/
  predecessor_eq : g.size ≤ UInt32.size → ∀ p, l.predecessor = some p ↔
    (l.header ∈ g.targetsOf p ∧ p ∉ l.blocks) ∧
      ∀ q, l.header ∈ g.targetsOf q → q ∉ l.blocks → q = p

/-- **What is found of a loop is what makes up the natural loop of its header.** -/
theorem isFoundLoop_of_mem (hl : l ∈ (FlowGraph.of f).naturalLoops) :
    (FlowGraph.of f).IsFoundLoop l := by
  have hnat := isNatural_of_mem hl
  have hlatches : ∀ p, p ∈ l.latches ↔ (FlowGraph.of f).IsBackEdge p l.header := by
    intro p
    rw [hnat.eq_loopOf]
    exact mem_latches_iff_isBackEdge
  refine ⟨hlatches, fun b => ?_, fun b hb => hnat.dominates hb, fun b => ?_, fun x => ?_,
    fun hsize p => ?_⟩
  · simp only [hlatches]
    exact mem_blocks_iff_leadsAround hl
  · have heq : l.exiting = l.blocks.filter fun b =>
        ((FlowGraph.of f).targetsOf b).any fun x => !l.blocks.contains x := by
      rw [hnat.eq_loopOf]
      rfl
    simp [heq]
  · have heq : l.exits = (FlowGraph.of f).blocks.filter fun x => (!l.blocks.contains x) &&
        l.blocks.any fun b => ((FlowGraph.of f).targetsOf b).contains x := by
      rw [hnat.eq_loopOf]
      rfl
    simp only [heq, List.mem_filter, Bool.and_eq_true, Bool.not_eq_true', List.any_eq_true,
      List.contains_eq_mem, decide_eq_false_iff_not, decide_eq_true_eq]
    refine and_iff_right_of_imp fun ⟨_, b, _, hx⟩ => ?_
    exact mem_blocks_of_mem_targetsOf_of hx
  · have heq : l.predecessor = single? (((FlowGraph.of f).predecessors l.header).filter
        fun q => !l.blocks.contains q) := by
      rw [hnat.eq_loopOf]
      rfl
    have hnodup : ((FlowGraph.of f).predecessors l.header).Nodup := (nodup_blocks hsize).filter _
    rw [heq, single?_eq_some_iff_forall (hnodup.filter _)]
    simp [mem_predecessors_iff]

/-- The loops consist of reachable blocks. -/
def LoopsReachable (g : FlowGraph) : Prop := ∀ l ∈ g.naturalLoops, ∀ b ∈ l.blocks, g.Reachable b

/-- **A loop consists of reachable blocks if and only if no block that is not reachable branches
into it behind its header.** -/
theorem forall_reachable_iff (hl : l ∈ (FlowGraph.of f).naturalLoops) :
    (∀ b ∈ l.blocks, (FlowGraph.of f).Reachable b) ↔
      ∀ b ∈ l.blocks, b ≠ l.header → ∀ p, b ∈ (FlowGraph.of f).targetsOf p →
        (FlowGraph.of f).Reachable p := by
  have hnat := isNatural_of_mem hl
  constructor
  · intro hreach b hb hne p hp
    exact hreach p (hnat.closed b hb hne p hp)
  · intro hinto b hb
    rcases (mem_blocks_iff_leadsAround hl).1 hb with rfl | ⟨-, p, hp, hlead⟩
    · exact Flow.mem_order_iff.1 (header_mem_order hl)
    · rcases hlead.cases_head with rfl | ⟨c, hc, hlead⟩
      · exact hp.reachable
      · -- the block branches to a block of the loop that leads to the same latch
        obtain ⟨hc, hch⟩ := List.mem_filter.1 hc
        have hch : c ≠ l.header := by simpa using hch
        have hcl := (mem_blocks_iff_leadsAround hl).2 (.inr ⟨hch, p, hp, hlead⟩)
        exact hinto c hcl hch b hc

/-! ### A block that is not reachable -/

namespace DeadBlock

/-- A loop with one block behind its header, and a block that is not reachable and branches to the
header or to the block behind it. -/
def function : Function ℝ where
  id := ⟨0⟩
  name := "dead"
  params := #[⟨"c", .int 1, none⟩]
  retTy := .void
  blocks := #[⟨⟨0⟩, "entry", [⟨0⟩], none, none⟩, ⟨⟨1⟩, "header", [⟨1⟩], none, none⟩,
    ⟨⟨2⟩, "body", [⟨2⟩], none, none⟩, ⟨⟨3⟩, "exit", [⟨3⟩], none, none⟩,
    ⟨⟨4⟩, "dead", [⟨4⟩], none, none⟩]
  insts := #[⟨⟨0⟩, ⟨0⟩, "", .void, .br ⟨1⟩, none, none⟩,
    ⟨⟨1⟩, ⟨1⟩, "", .void, .condBr (.arg 0) ⟨2⟩ ⟨3⟩, none, none⟩,
    ⟨⟨2⟩, ⟨2⟩, "", .void, .br ⟨1⟩, none, none⟩,
    ⟨⟨3⟩, ⟨3⟩, "", .void, .ret none, none, none⟩,
    ⟨⟨4⟩, ⟨4⟩, "", .void, .condBr (.arg 0) ⟨1⟩ ⟨2⟩, none, none⟩]
  maxRecursion := none
  entryPoint := false

/-- The loop that is found contains the block that is not reachable, and counts it neither among the
latches nor among the blocks outside, though it branches to the header. -/
lemma mem_naturalLoops : ⟨⟨1⟩, [⟨1⟩, ⟨2⟩, ⟨4⟩], [⟨2⟩], [⟨1⟩], [⟨3⟩], some ⟨0⟩⟩
    ∈ (FlowGraph.of function).naturalLoops := by decide +kernel

/-- A loop may contain a block that is not reachable. -/
theorem not_loopsReachable : ¬ LoopsReachable (FlowGraph.of function) := by
  intro h
  have hdead := h _ mem_naturalLoops ⟨4⟩ (by decide)
  have horder : (FlowGraph.of function).reversePostorder = [⟨0⟩, ⟨1⟩, ⟨3⟩, ⟨2⟩] := by decide +kernel
  have hmem := (mem_reversePostorder_iff function).2 hdead
  rw [horder] at hmem
  revert hmem
  decide

end DeadBlock

end FlowGraph

end Roundoff
