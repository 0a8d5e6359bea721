/-
# The order of visits

A search leaves a node after all nodes that it enters from there.  So in the list of the nodes
found, the one left last in front, an edge leads onwards unless its target leads back to its source,
and a node comes behind all nodes that cannot be avoided on the way to it.  Both hold of the order
in which the blocks of a function are visited.

Nodes that lead to each other form a component.  An edge that goes from the nodes left by the time a
node is left to one that is left later goes to a node on the way there, and the node it goes to is
in the component of the first one.  So in the list the first node of a component comes in front of
all that the component leads to.
-/
import Mathlib
import Roundoff.Flow.Schedule
import Roundoff.Proofs.Flow.Paths

namespace Roundoff

/-! ## Edges between the nodes of a search -/

namespace Search

variable {N : Type} {next : N → List N} {n : N} {s s₁ s₂ : Search N}
  {roots roots₁ found found₁ : List N}

/-- One node leads to another one along edges. -/
abbrev Leads (next : N → List N) : N → N → Prop := Relation.ReflTransGen fun a b => b ∈ next a

/-- What a search finds, with the order in which it leaves the nodes.  The nodes that have been seen
but not left are those on the way to the roots. -/
structure FindsInOrder (next : N → List N) (s : Search N) (roots found : List N) (s₁ : Search N) :
    Prop extends Finds next s roots found s₁ where
  /-- The target of an edge leads back to its source, or it is left before the source. -/
  edge : (∀ y ∈ s.seen, y ∉ s.finished → ∀ r ∈ roots, Leads next y r) → ∀ x ∈ found, ∀ y ∈ next x,
    Leads next y x ∨ y ∈ s.finished ∨ [x, y].Sublist found

namespace FindsInOrder

lemma append (h : FindsInOrder next s roots found s₁)
    (h₁ : FindsInOrder next s₁ roots₁ found₁ s₂) :
    FindsInOrder next s (roots ++ roots₁) (found₁ ++ found) s₂ where
  toFinds := h.toFinds.append h₁.toFinds
  edge hway x hx y hy := by
    have hway₁ : ∀ y ∈ s₁.seen, y ∉ s₁.finished → ∀ r ∈ roots₁, Leads next y r := by
      intro y hseen hopen r hr
      rw [h.finished_eq, List.mem_append, not_or] at hopen
      have hold := ((h.mem_seen y).1 hseen).resolve_left hopen.1
      exact hway y hold hopen.2 r (List.mem_append_right _ hr)
    rcases List.mem_append.1 hx with hx | hx
    · rcases h₁.edge hway₁ x hx y hy with hback | hleft | hsub
      · exact .inl hback
      · rw [h.finished_eq, List.mem_append] at hleft
        refine .inr (hleft.symm.imp id fun hfound => ?_)
        exact (List.singleton_sublist.2 hx).append (List.singleton_sublist.2 hfound)
      · exact .inr (.inr (hsub.trans (List.sublist_append_left _ _)))
    · have hfirst := h.edge (fun y hseen hopen r hr =>
        hway y hseen hopen r (List.mem_append_left _ hr)) x hx y hy
      exact hfirst.imp id (.imp id fun hsub => hsub.trans (List.sublist_append_right _ _))

lemma enter (hn : n ∉ s.seen)
    (h : FindsInOrder next { s with seen := n :: s.seen } (next n) found s₁) :
    FindsInOrder next s [n] (n :: found) { s₁ with finished := n :: s₁.finished } where
  toFinds := h.toFinds.enter hn
  edge hway x hx y hy := by
    have hopen : ∀ y ∈ n :: s.seen, y ∉ s.finished → Leads next y n := by
      intro y hseen hleft
      rcases List.mem_cons.1 hseen with rfl | hold
      · exact .refl
      · exact hway y hold hleft n List.mem_cons_self
    rcases List.mem_cons.1 hx with rfl | hx
    · -- the successors of the root have been seen: found from it, or before
      rcases (h.mem_seen y).1 (h.roots_seen y hy) with hfound | hold
      · exact .inr (.inr (List.cons_sublist_cons.2 (List.singleton_sublist.2 hfound)))
      · by_cases hleft : y ∈ s.finished
        · exact .inr (.inl hleft)
        · exact .inl (hopen y hold hleft)
    · refine (h.edge (fun y hseen hleft r hr => ?_) x hx y hy).imp id (.imp id fun hsub => ?_)
      · exact (hopen y hseen hleft).tail hr
      · exact hsub.trans (List.sublist_cons_self _ _)

end FindsInOrder

/-- A search leaves nodes in order. -/
theorem findsInOrder_rules (next : N → List N) : Rules next (FindsInOrder next) where
  finds h := h.toFinds
  seen h := ⟨.of_seen h, fun _ _ hx => nomatch hx⟩
  nil := ⟨.nil, fun _ _ hx => nomatch hx⟩
  append h h₁ := h.append h₁
  enter hn h := h.enter hn

/-- In a search that avoids no node, an edge leads onwards unless its target leads back. -/
lemma FindsInOrder.idxOf_lt [DecidableEq N] (h : FindsInOrder next (.avoiding []) roots found s₁)
    {x y : N} (hx : x ∈ found) (hy : y ∈ next x) (hback : ¬ Leads next y x) :
    found.idxOf x < found.idxOf y := by
  have hsub := ((h.edge (fun _ hseen => nomatch hseen) x hx y hy).resolve_left hback).resolve_left
    List.not_mem_nil
  exact idxOf_lt_idxOf_of_sublist h.nodup hsub

end Search

/-! ## Dominating blocks -/

namespace FlowGraph

variable {g : FlowGraph} {b d e t u v : BlockId} {bs : List BlockId}

/-- Control can pass from one block to another one. -/
abbrev Reaches (g : FlowGraph) : BlockId → BlockId → Prop := Search.Leads g.targetsOf

/-- The block `d` dominates the block `b`: no path leads to `b` except through `d`. -/
def Dominates (g : FlowGraph) (d b : BlockId) : Prop := ∀ bs, g.Path b bs → d ∈ bs ∨ d = b

/-- The entry is dominated by no other block. -/
lemma Dominates.eq_of_startsAt (h : g.Dominates d e) (he : g.StartsAt e) : d = e :=
  (h [] (.entry he)).resolve_left List.not_mem_nil

/-- What dominates a block dominates the reachable blocks before it, unless it is the block. -/
lemma Dominates.of_target (h : g.Dominates d t) (ht : t ∈ g.targetsOf b) (hne : d ≠ t) :
    g.Dominates d b := by
  intro bs hbs
  rcases (h _ (hbs.step ht)).resolve_right hne |> List.mem_append.1 with hmem | hmem
  · exact .inl hmem
  · exact .inr (List.mem_singleton.1 hmem)

/-- A path leads through each of its blocks, and on to where it ends. -/
lemma Path.exists_of_mem (h : g.Path b bs) (hd : d ∈ bs) :
    (∃ ds, g.Path d ds) ∧ g.Reaches d b := by
  induction h with
  | entry => cases hd
  | @step b t bs hpath ht ih =>
    rcases List.mem_append.1 hd with hd | hd
    · exact ⟨(ih hd).1, (ih hd).2.tail ht⟩
    · obtain rfl := List.mem_singleton.1 hd
      exact ⟨⟨bs, hpath⟩, .single ht⟩

lemma Dominates.reaches (h : g.Dominates d b) (hb : g.Path b bs) :
    (∃ ds, g.Path d ds) ∧ g.Reaches d b := by
  rcases h bs hb with hd | rfl
  · exact hb.exists_of_mem hd
  · exact ⟨⟨bs, hb⟩, .refl⟩

variable {R : Type} {f : Function R}

/-- A block that is found dominated is dominated. -/
lemma dominates_of_mem_dominatedBy (hb : b ∈ (FlowGraph.of f).dominatedBy d) :
    (FlowGraph.of f).Dominates d b := by
  rw [dominatedBy, List.mem_filter] at hb
  obtain ⟨-, hbypass⟩ := hb
  intro bs hbs
  by_contra havoid
  rw [not_or] at havoid
  -- a path that avoids the block is found by the search that avoids it
  suffices hmem : b ∈ (FlowGraph.of f).searchFromEntry (FlowGraph.of f).targetsOf [d] by
    simp [hmem] at hbypass
  obtain ⟨e, he, -⟩ := hbs.reflTransGen
  obtain ⟨s, hs⟩ := exists_searchFromEntry (Search.finds_rules (FlowGraph.of f).targetsOf)
    (fun _ _ => mem_blocks_of_mem_targetsOf_of) [d] he
  have hfound : ∀ x ∈ s.seen, d ≠ x →
      x ∈ (FlowGraph.of f).searchFromEntry (FlowGraph.of f).targetsOf [d] := by
    intro x hx hne
    refine ((hs.mem_seen x).1 hx).resolve_right fun h => hne (List.mem_singleton.1 h).symm
  clear hbypass
  induction hbs with
  | @entry b hb =>
    obtain rfl : e = b := Option.some.inj (he.symm.trans hb)
    exact hfound e (hs.roots_seen e List.mem_cons_self) havoid.2
  | @step b t bs hpath ht ih =>
    rw [List.mem_append, not_or, List.mem_singleton] at havoid
    exact hfound t (hs.closed b (ih havoid.1) t ht) havoid.2

end FlowGraph

/-! ## The order of visits -/

namespace Flow

variable {R : Type} {f : Function R} {b d e t u v : BlockId}

lemma mem_orderedSuccessors :
    t ∈ (Flow.of f).orderedSuccessors b ↔ t ∈ (FlowGraph.of f).targetsOf b := by
  have hsucc : t ∈ (FlowGraph.of f).successors b ↔ t ∈ (FlowGraph.of f).targetsOf b := by
    rw [FlowGraph.successors, List.mem_filter, List.contains_iff_mem]
    exact ⟨fun h => h.2, fun h => ⟨FlowGraph.mem_blocks_of_mem_targetsOf_of h, h⟩⟩
  rw [← hsucc, orderedSuccessors]
  split
  · rfl
  · next l _ =>
    cases hl : l.contains t <;> simp [hl, Flow.of]

lemma leads_orderedSuccessors_iff :
    Search.Leads (Flow.of f).orderedSuccessors u v ↔ (FlowGraph.of f).Reaches u v := by
  have hiff : (fun a b => b ∈ (Flow.of f).orderedSuccessors a)
      = fun a b => b ∈ (FlowGraph.of f).targetsOf a := by
    funext a b
    exact propext mem_orderedSuccessors
  rw [Search.Leads, hiff]

lemma findsInOrder_order (he : (FlowGraph.of f).StartsAt e) :
    ∃ s, Search.FindsInOrder (Flow.of f).orderedSuccessors (.avoiding []) [e]
      (Flow.of f).order s :=
  FlowGraph.exists_searchFromEntry (g := FlowGraph.of f) (Search.findsInOrder_rules _)
    (fun _ _ h => FlowGraph.mem_blocks_of_mem_targetsOf_of (mem_orderedSuccessors.1 h)) [] he

lemma order_eq_nil (he : FlowGraph.entry? (FlowGraph.of f) = none) : (Flow.of f).order = [] := by
  change FlowGraph.searchFromEntry (FlowGraph.of f) _ [] = []
  rw [FlowGraph.searchFromEntry, he]

lemma nodup_order (f : Function R) : (Flow.of f).order.Nodup := by
  cases he : FlowGraph.entry? (FlowGraph.of f) with
  | none =>
    rw [order_eq_nil he]
    exact List.nodup_nil
  | some e =>
    obtain ⟨s, hs⟩ := findsInOrder_order he
    exact hs.nodup

/-- The blocks that are visited are those that paths lead to. -/
lemma mem_order_iff : b ∈ (Flow.of f).order ↔ ∃ bs, (FlowGraph.of f).Path b bs := by
  rw [← FlowGraph.mem_reversePostorder_iff]
  cases he : FlowGraph.entry? (FlowGraph.of f) with
  | none => rw [order_eq_nil he, FlowGraph.reversePostorder_eq_nil he]
  | some e =>
    obtain ⟨s, hs⟩ := findsInOrder_order he
    obtain ⟨s', hs'⟩ := FlowGraph.finds_reversePostorder f he
    rw [hs.mem_found_iff, hs'.mem_found_iff]
    exact leads_orderedSuccessors_iff

/-- **An edge leads onwards** in the order of visits, unless its target leads back to its source. -/
theorem idxOf_order_lt (hu : u ∈ (Flow.of f).order) (hv : v ∈ (FlowGraph.of f).targetsOf u)
    (hback : ¬ (FlowGraph.of f).Reaches v u) :
    (Flow.of f).order.idxOf u < (Flow.of f).order.idxOf v := by
  obtain ⟨bs, hbs⟩ := mem_order_iff.1 hu
  obtain ⟨e, he, -⟩ := hbs.reflTransGen
  obtain ⟨s, hs⟩ := findsInOrder_order he
  exact hs.idxOf_lt hu (mem_orderedSuccessors.2 hv) fun h => hback (leads_orderedSuccessors_iff.1 h)

/-- **A block that dominates another one comes in front of it.** -/
theorem idxOf_order_le (hb : b ∈ (Flow.of f).order) (hd : (FlowGraph.of f).Dominates d b) :
    (Flow.of f).order.idxOf d ≤ (Flow.of f).order.idxOf b := by
  obtain ⟨bs, hbs⟩ := mem_order_iff.1 hb
  obtain ⟨e, he, -⟩ := hbs.reflTransGen
  obtain ⟨s, hs⟩ := findsInOrder_order he
  -- going back to the entry through the blocks left later, the dominating block turns up
  refine hs.toFinds.induction (P := fun x => (FlowGraph.of f).Dominates d x →
    (Flow.of f).order.idxOf d ≤ (Flow.of f).order.idxOf x) ?_ ?_ hb hd
  · rintro r hr - hdom
    obtain rfl := List.mem_singleton.1 hr
    rw [hdom.eq_of_startsAt he]
  · intro w hw x hx hxmem hlt ih hdom
    by_cases hne : d = x
    · rw [hne]
    · exact (ih (hdom.of_target (mem_orderedSuccessors.1 hx) hne)).trans hlt.le

/-- Of two reachable blocks only one dominates the other one, unless they are the same. -/
lemma eq_of_dominates (hb : b ∈ (Flow.of f).order) (hd : (FlowGraph.of f).Dominates d b)
    (hd' : (FlowGraph.of f).Dominates b d) : d = b := by
  obtain ⟨bs, hbs⟩ := mem_order_iff.1 hb
  have hmem : d ∈ (Flow.of f).order := mem_order_iff.2 (hd.reaches hbs).1
  have hle := idxOf_order_le hb hd
  have hle' := idxOf_order_le hmem hd'
  exact (List.idxOf_inj hmem).1 (by omega)

end Flow

/-! ## Components -/

namespace Search

variable {N : Type} {next : N → List N} {n x y : N} {s s₁ s₂ : Search N}
  {roots roots₁ found found₁ front back : List N}

/-- Two nodes lead to each other. -/
def InCircle (next : N → List N) (x y : N) : Prop := Leads next x y ∧ Leads next y x

namespace InCircle

lemma refl (x : N) : InCircle next x x := ⟨.refl, .refl⟩

lemma symm (h : InCircle next x y) : InCircle next y x := ⟨h.2, h.1⟩

lemma trans {z : N} (h : InCircle next x y) (h₁ : InCircle next y z) : InCircle next x z :=
  ⟨h.1.trans h₁.1, h₁.2.trans h.2⟩

end InCircle

/-- What a search finds, with where the edges go from the nodes that have been left by the time a
node is left. -/
structure FindsInTurn (next : N → List N) (s : Search N) (roots found : List N) (s₁ : Search N) :
    Prop extends Finds next s roots found s₁ where
  /-- By the time a node is left, an edge goes to a node that has been left, or that was seen at the
  beginning, or that leads to the one being left. -/
  edge : ∀ front x back, found = front ++ x :: back → ∀ w ∈ x :: back, ∀ y ∈ next w,
    y ∈ x :: back ∨ y ∈ s.seen ∨ y ∈ front ∧ Leads next y x

namespace FindsInTurn

lemma append (h : FindsInTurn next s roots found s₁)
    (h₁ : FindsInTurn next s₁ roots₁ found₁ s₂) :
    FindsInTurn next s (roots ++ roots₁) (found₁ ++ found) s₂ where
  toFinds := h.toFinds.append h₁.toFinds
  edge front x back heq w hw y hy := by
    rcases List.append_eq_append_iff.1 heq with ⟨front₀, rfl, rest⟩ | ⟨back₁, rfl, rest⟩
    · -- the node is found by the first search
      exact (h.edge front₀ x back rest w hw y hy).imp_right
        (.imp_right fun hy => ⟨List.mem_append_right _ hy.1, hy.2⟩)
    · rcases List.cons_eq_append_iff.1 rest with ⟨rfl, rfl⟩ | ⟨back₁, rfl, rfl⟩
      · exact (h.edge [] x back rfl w hw y hy).imp_right (.imp_right fun hy => nomatch hy.1)
      -- the node is found by the second search: what the first one finds has been left
      have hseen : y ∈ s₁.seen → y ∈ x :: (back₁ ++ found) ∨ y ∈ s.seen := fun hseen =>
        ((h.mem_seen y).1 hseen).imp_left fun hfound =>
          List.mem_cons_of_mem _ (List.mem_append_right _ hfound)
      rcases List.mem_append.1 (show w ∈ (x :: back₁) ++ found from hw) with hw | hw
      · rcases h₁.edge front x back₁ rfl w hw y hy with hleft | hold | hopen
        · exact .inl (List.mem_append_left found hleft)
        · exact (hseen hold).imp_right .inl
        · exact .inr (.inr hopen)
      · exact (hseen (h.closed w hw y hy)).imp_right .inl

lemma enter (hn : n ∉ s.seen)
    (h : FindsInTurn next { s with seen := n :: s.seen } (next n) found s₁) :
    FindsInTurn next s [n] (n :: found) { s₁ with finished := n :: s₁.finished } where
  toFinds := h.toFinds.enter hn
  edge front x back heq w hw y hy := by
    rcases List.cons_eq_append_iff.1 heq with ⟨rfl, hcons⟩ | ⟨front₀, rfl, rfl⟩
    · -- when the root is left, all successors have been seen
      rw [hcons] at hw ⊢
      have hroot := h.toFinds.enter hn
      exact ((hroot.mem_seen y).1 (hroot.closed w hw y hy)).imp_right .inl
    · rcases h.edge front₀ x back rfl w hw y hy with hleft | hold | ⟨hfront, hback⟩
      · exact .inl hleft
      · rcases List.mem_cons.1 hold with rfl | hold
        · -- the root is still open, and leads to all that is found from it
          obtain ⟨r, hr, hpath⟩ := h.reached x (by simp)
          exact .inr (.inr ⟨List.mem_cons_self, hpath.head hr⟩)
        · exact .inr (.inl hold)
      · exact .inr (.inr ⟨List.mem_cons_of_mem _ hfront, hback⟩)

end FindsInTurn

/-- A search leaves the nodes of a component in turn. -/
theorem findsInTurn_rules (next : N → List N) : Rules next (FindsInTurn next) where
  finds h := h.toFinds
  seen h := ⟨.of_seen h, fun _ _ _ heq => nomatch List.append_ne_nil_of_right_ne_nil _
    (List.cons_ne_nil _ _) heq.symm⟩
  nil := ⟨.nil, fun _ _ _ heq => nomatch List.append_ne_nil_of_right_ne_nil _
    (List.cons_ne_nil _ _) heq.symm⟩
  append h h₁ := h.append h₁
  enter hn h := h.enter hn

/-- **The node of a component that is left last comes in front** of all nodes that it leads to:
where no node in front of `x` is in its component, `x` leads to no node in front of it. -/
theorem FindsInTurn.mem_of_leads (h : FindsInTurn next (.avoiding []) roots (front ++ x :: back) s₁)
    (hfirst : ∀ z ∈ front, ¬ InCircle next x z) (hpath : Leads next x y) : y ∈ x :: back := by
  induction hpath with
  | refl => exact List.mem_cons_self
  | @tail w y hpath hy ih =>
    rcases h.edge front x back rfl w ih y hy with hleft | hold | ⟨hfront, hback⟩
    · exact hleft
    · cases hold
    · exact absurd ⟨hpath.tail hy, hback⟩ (hfirst y hfront)

/-- The last node of a component to be left comes in front of all components that it leads to. -/
lemma FindsInTurn.notMem_front (h : FindsInTurn next (.avoiding []) roots (front ++ x :: back) s₁)
    (hfirst : ∀ z ∈ front, ¬ InCircle next x z) (hpath : Leads next x y) : y ∉ front := by
  intro hfront
  have hback := h.mem_of_leads hfirst hpath
  exact (List.nodup_append.1 h.nodup).2.2 y hfront y hback rfl

end Search

end Roundoff
