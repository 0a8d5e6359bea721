/-
# Depths that suffice

Searches, and walks from a loop to the loops around it or inside it, are given a depth that they do
not exceed.  It is no restriction: a search goes deeper only where it enters a node that has not
been seen, the number of a loop is larger than that of the loop around it, and so walks that may go
deeper do the same.
-/
import Mathlib
import Roundoff.Proofs.Flow.Forest

namespace Roundoff

/-! ## Searches -/

namespace Search

variable {N : Type} [DecidableEq N] {next : N → List N} {U : Finset N} {s : Search N} {n : N}
  {roots : List N} {depth : ℕ}

/-- Searches from the given nodes, whatever has been seen before, go no deeper than `bound`: they do
the same if they may. -/
def EndsWithin (next : N → List N) (bound : ℕ) (nodes : Set N) : Prop :=
  ∀ (s : Search N), ∀ n ∈ nodes, ∀ depth ≥ bound, visit next depth s n = visit next bound s n

section Closed

variable (hclosed : ∀ x ∈ U, ∀ y ∈ next x, y ∈ U)

include hclosed

/-- Searches from several nodes do the same one level deeper, if those from each of them do. -/
lemma foldl_visit_succ
    (hvisit : ∀ (s : Search N), ∀ n ∈ U, (U \ s.seen.toFinset).card ≤ depth →
      visit next depth s n = visit next (depth + 1) s n)
    (hroots : ∀ r ∈ roots, r ∈ U) (hdepth : (U \ s.seen.toFinset).card ≤ depth) :
    roots.foldl (visit next depth) s = roots.foldl (visit next (depth + 1)) s := by
  induction roots generalizing s with
  | nil => rfl
  | cons r roots ih =>
    have hr := hroots r List.mem_cons_self
    obtain ⟨found, hfound⟩ := (finds_rules next).exists_visit hclosed hr hdepth
    rw [List.foldl_cons, List.foldl_cons, ← hvisit s r hr hdepth]
    exact ih (fun r hr => hroots r (List.mem_cons_of_mem _ hr)) (hfound.card_le.trans hdepth)

/-- A search that may go as deep as there are nodes left does the same one level deeper. -/
lemma visit_succ (hn : n ∈ U) (hdepth : (U \ s.seen.toFinset).card ≤ depth) :
    visit next depth s n = visit next (depth + 1) s n := by
  induction depth generalizing s n with
  | zero =>
    -- no node is left, so the root has been seen
    have hempty : U \ s.seen.toFinset = ∅ := Finset.card_eq_zero.1 (Nat.le_zero.1 hdepth)
    have hseen := List.mem_toFinset.1 (Finset.sdiff_eq_empty_iff_subset.1 hempty hn)
    rw [visit, visit, if_pos hseen]
  | succ depth ih =>
    rw [visit, visit]
    split
    · rfl
    · next hseen =>
      have hfold := foldl_visit_succ (s := { s with seen := n :: s.seen }) hclosed
        (fun s n hn hs => ih hn hs) (hclosed n hn) (card_enter_le hn hseen hdepth)
      rw [hfold]

/-- **A search need not go deeper than there are nodes.** -/
theorem endsWithin {bound : ℕ} (hbound : U.card ≤ bound) : EndsWithin next bound ↑U := by
  intro s n hn depth hdepth
  have hcard : (U \ s.seen.toFinset).card ≤ bound :=
    (Finset.card_le_card Finset.sdiff_subset).trans hbound
  induction depth, hdepth using Nat.le_induction with
  | base => rfl
  | succ depth hle ih => rw [← visit_succ hclosed hn (hcard.trans hle), ih]

end Closed

end Search

variable {R : Type} {f : Function R} {settings : Settings} {id s depth : ℕ}

/-- A search over the blocks of a function need not go deeper than there are blocks. -/
lemma FlowGraph.endsWithin {g : FlowGraph} {next : BlockId → List BlockId}
    (hnext : ∀ x, ∀ y ∈ next x, y ∈ g.blocks) :
    Search.EndsWithin next g.size {b | b ∈ g.blocks} := by
  have hcard : g.blocks.toFinset.card ≤ g.size := by
    refine (List.toFinset_card_le _).trans ?_
    rw [blocks, List.length_map, List.length_range]
  intro s n hn depth hdepth
  refine Search.endsWithin (fun x _ y hy => ?_) hcard s n (List.mem_toFinset.2 hn) depth hdepth
  exact List.mem_toFinset.2 (hnext x y hy)

/-! ## Loops -/

namespace LoopForest

/-- The loop around a loop has a smaller number. -/
lemma lt_of_parent? (h : (LoopForest.of (FlowGraph.of f)).parent? id = some s) : s < id := by
  have hid := mem_children_iff.2 h
  rw [children, List.mem_filter, ids, List.mem_range] at hid
  have hk : (LoopForest.of (FlowGraph.of f)).get? id = some _ := Array.getElem?_eq_getElem hid.1
  obtain ⟨l, hl, hin⟩ := ((parent?_eq_some_iff hk).1 h).exists_get?
  exact lt_of_isInside hk hl hin

/-- Going outwards from a loop takes no more steps than its number allows. -/
lemma chain_succ (h : id < depth) :
    (LoopForest.of (FlowGraph.of f)).chain depth id
      = (LoopForest.of (FlowGraph.of f)).chain (depth + 1) id := by
  induction depth generalizing id with
  | zero => exact absurd h (Nat.not_lt_zero id)
  | succ depth ih =>
    rw [chain, chain]
    congr 1
    split
    · next p hp =>
      exact ih ((lt_of_parent? hp).trans_le (Nat.le_of_lt_succ h))
    · rfl

/-- **Going outwards from a loop need not go further than there are loops.** -/
theorem chain_eq (h : id < (LoopForest.of (FlowGraph.of f)).loops.size)
    (hdepth : (LoopForest.of (FlowGraph.of f)).loops.size ≤ depth) :
    (LoopForest.of (FlowGraph.of f)).chain depth id
      = (LoopForest.of (FlowGraph.of f)).ancestors id := by
  induction depth, hdepth using Nat.le_induction with
  | base => rfl
  | succ depth hle ih => rw [← chain_succ (h.trans_le hle), ih]

end LoopForest

namespace Flow

/-- The steps for the blocks of a scope depend on how the loops directly inside it are expanded. -/
lemma bodyItems_congr (w : Flow) {scope : Option LoopId} {edges : PhiEdges}
    {expand expand' : LoopId → List BlockId → Schedule} {members : List BlockId}
    (h : ∀ b c, w.loops.childContaining? scope b = some c → expand c = expand' c)
    (done blocks : List BlockId) :
    w.bodyItems scope edges expand members done blocks
      = w.bodyItems scope edges expand' members done blocks := by
  induction blocks generalizing done with
  | nil => rfl
  | cons b blocks ih =>
    simp only [bodyItems, ih]
    cases hc : w.loops.childContaining? scope b with
    | none => rfl
    | some c =>
      dsimp only
      rw [h b c hc]

/-- A loop is expanded alike if the loops inside it may be expanded one level deeper. -/
lemma loopItems_succ_eq (h : (Flow.of f).loops.loops.size - id ≤ depth) :
    (Flow.of f).loopItems settings f depth id
      = (Flow.of f).loopItems settings f (depth + 1) id := by
  induction depth generalizing id with
  | zero =>
    funext members
    have hnone : (Flow.of f).loops.get? id = none := Array.getElem?_eq_none (by omega)
    simp only [loopItems, hnone]
  | succ depth ih =>
    funext members
    rw [loopItems, loopItems]
    cases hl : (Flow.of f).loops.get? id with
    | none => rfl
    | some l =>
      have hlt := LoopForest.lt_size_of_get? hl
      have hbody (edges : PhiEdges) :
          (Flow.of f).bodyItems (some id) edges ((Flow.of f).loopItems settings f depth) members []
              members
            = (Flow.of f).bodyItems (some id) edges ((Flow.of f).loopItems settings f (depth + 1))
              members [] members := by
        refine (Flow.of f).bodyItems_congr (fun b c hc => ih ?_) _ _
        -- the loops inside have larger numbers, so fewer of them remain
        have hlt : id < c := LoopForest.lt_of_parent? (LoopForest.parent?_of_childContaining? hc)
        omega
      simp only [hbody]

/-- **The expansion of loops need not go deeper than there are loops.** -/
theorem loopItems_eq (settings : Settings)
    (hdepth : (Flow.of f).loops.loops.size ≤ depth) (id : ℕ) :
    (Flow.of f).loopItems settings f depth id
      = (Flow.of f).loopItems settings f (Flow.of f).loops.loops.size id := by
  induction depth, hdepth using Nat.le_induction with
  | base => rfl
  | succ depth hle ih => rw [← loopItems_succ_eq (by omega), ih]

end Flow

end Roundoff
