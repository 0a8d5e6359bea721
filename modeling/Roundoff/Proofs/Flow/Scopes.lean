/-
# Scopes of a schedule

The blocks of a function are visited scope by scope: the scopes are the whole function and the
loops.  A loop directly inside a scope is expanded as a whole when its header comes up.  So every
block of a scope has a *leader*, at which its visits are made: the header of the loop directly
inside the scope that contains the block, or the block.

An edge into a loop directly inside the scope leads to the header of the loop.  Hence the leaders
come up in an order in which edges lead onwards.
-/
import Mathlib
import Roundoff.Proofs.Flow.Loops

namespace Roundoff

open LoopForest

variable {R : Type} {f : Function R} {b u v x y : BlockId} {c : ℕ} {k l : Loop}
  {number : Option ℕ} {scope : Option Loop}

/-! ## The blocks of a scope -/

/-- A block belongs to a scope, the whole function or a loop: a path leads to it, and it is a block
of the loop. -/
structure InScope (f : Function R) (scope : Option Loop) (b : BlockId) : Prop where
  /-- A path leads to the block. -/
  reachable : ∃ bs, (FlowGraph.of f).Path b bs
  /-- The loop contains the block. -/
  contains : scope.all (·.contains b) = true

/-- The loops inside a scope that contain a block. -/
def loopsAround (f : Function R) (scope : Option Loop) (b : BlockId) : Finset Loop :=
  (FlowGraph.of f).naturalLoops.toFinset.filter fun l =>
    scope.all l.isInside = true ∧ l.contains b = true

lemma inScope_iff : InScope f scope b ↔
    b ∈ (Flow.of f).order ∧ scope.all (·.contains b) = true := by
  rw [Flow.mem_order_iff]
  exact ⟨fun h => ⟨h.reachable, h.contains⟩, fun h => ⟨h.1, h.2⟩⟩

lemma InScope.mem_order (h : InScope f scope b) : b ∈ (Flow.of f).order := (inScope_iff.1 h).1

lemma mem_loopsAround : l ∈ loopsAround f scope b ↔
    l ∈ (FlowGraph.of f).naturalLoops ∧ scope.all l.isInside = true ∧ l.contains b = true := by
  rw [loopsAround, Finset.mem_filter, List.mem_toFinset]

lemma notMem_loopsAround_some : k ∉ loopsAround f (some k) x := by
  intro hmem
  obtain ⟨-, hin, -⟩ := mem_loopsAround.1 hmem
  exact (Loop.isInside_iff.1 (by simpa using hin)).2 rfl

namespace LoopForest.IsScope

lemma bind_get? (h : IsScope (FlowGraph.of f) number scope) :
    number.bind (LoopForest.of (FlowGraph.of f)).get? = scope := by
  cases h with
  | whole => rfl
  | loop hlast =>
    obtain ⟨l, hl, rfl⟩ := hlast.exists_get?
    exact hl

lemma mem (h : IsScope (FlowGraph.of f) number (some l)) : l ∈ (FlowGraph.of f).naturalLoops := by
  cases h with
  | loop hlast =>
    obtain ⟨l, hl, rfl⟩ := hlast.exists_get?
    exact mem_of_get? hl

/-- The header of a loop belongs to no loop inside it. -/
lemma loopsAround_header (h : IsScope (FlowGraph.of f) number (some l)) :
    loopsAround f (some l) l.header = ∅ := by
  refine Finset.eq_empty_of_forall_notMem fun k hk => ?_
  obtain ⟨hk, hin, hmem⟩ := mem_loopsAround.1 hk
  obtain ⟨hsub, hne⟩ := Loop.isInside_iff.1 (by simpa using hin)
  exact header_notMem_of_mem hk h.mem (hsub (FlowGraph.isNatural_of_mem hk).header_mem) hne
    (Loop.contains_iff.1 hmem)

end LoopForest.IsScope

namespace LoopForest.IsChild

variable (hk : IsChild (FlowGraph.of f) scope x c k)

include hk

lemma mem_loopsAround : k ∈ loopsAround f scope x :=
  Roundoff.mem_loopsAround.2 ⟨hk.mem, hk.within, hk.contains⟩

lemma loopsAround_ne_empty : loopsAround f scope x ≠ ∅ :=
  Finset.ne_empty_of_mem hk.mem_loopsAround

/-- A loop directly inside a scope is that for all its reachable blocks. -/
lemma of_contains (hy : y ∈ (Flow.of f).order) (hyk : k.contains y = true) :
    IsChild (FlowGraph.of f) scope y c k where
  isLast := hk.isLast
  contains := hyk
  within := hk.within
  largest k' hk' hyk' hin := by
    rcases isInside_trichotomy hk' hk.mem hy hyk' hyk with heq | hin' | hin'
    · exact .inl heq
    · exact .inr hin'
    · exact hk.largest k' hk' (contains_of_isInside hin' hk.contains) hin

lemma inScope_of_contains (hy : y ∈ (Flow.of f).order) (hyk : k.contains y = true) :
    InScope f scope y := by
  refine inScope_iff.2 ⟨hy, ?_⟩
  cases scope with
  | none => rfl
  | some l =>
    have hin : k.isInside l = true := by simpa using hk.within
    simpa using contains_of_isInside hin hyk

lemma contains_header : k.contains k.header = true :=
  Loop.contains_iff.2 (FlowGraph.isNatural_of_mem hk.mem).header_mem

/-- The loops around a block are the loop directly inside the scope and the loops inside that one. -/
lemma loopsAround_eq (hscope : IsScope (FlowGraph.of f) number scope) :
    loopsAround f scope x = insert k (loopsAround f (some k) x) := by
  ext l
  simp only [Finset.mem_insert, Roundoff.mem_loopsAround]
  constructor
  · rintro ⟨hl, hin, hx⟩
    exact (hk.largest l hl hx hin).imp id fun hin => ⟨hl, by simpa using hin, hx⟩
  · rintro (rfl | ⟨hl, hin, hx⟩)
    · exact ⟨hk.mem, hk.within, hk.contains⟩
    · refine ⟨hl, ?_, hx⟩
      cases scope with
      | none => rfl
      | some s =>
        have hin' : k.isInside s = true := by simpa using hk.within
        simpa using isInside_trans hl hk.mem (by simpa using hin) hscope.mem hin'

end LoopForest.IsChild

/-! ## Leaders -/

section Leader

variable (hscope : IsScope (FlowGraph.of f) number scope)

include hscope in
/-- A block of a scope belongs to a loop directly inside the scope, or to no loop inside the scope. -/
lemma exists_isChild (hx : InScope f scope x) :
    (∃ c k, (LoopForest.of (FlowGraph.of f)).childContaining? number x = some c ∧
      IsChild (FlowGraph.of f) scope x c k) ∨
    (LoopForest.of (FlowGraph.of f)).childContaining? number x = none ∧
      loopsAround f scope x = ∅ := by
  cases hc : (LoopForest.of (FlowGraph.of f)).childContaining? number x with
  | some c =>
    obtain ⟨k, hk⟩ := isChild_of_childContaining? hx.mem_order hscope hx.contains hc
    exact .inl ⟨c, k, rfl, hk⟩
  | none =>
    refine .inr ⟨rfl, Finset.eq_empty_of_forall_notMem fun k hk => ?_⟩
    obtain ⟨hk, hin, hxk⟩ := mem_loopsAround.1 hk
    obtain ⟨c, hc'⟩ := exists_childContaining? hx.mem_order hscope hx.contains hk hxk hin
    exact nomatch hc.symm.trans hc'

/-- The block of a scope at which the visits of a block are made. -/
inductive IsLeader (f : Function R) (scope : Option Loop) (x : BlockId) : BlockId → Prop
  /-- The block belongs to no loop inside the scope. -/
  | self (hout : loopsAround f scope x = ∅) : IsLeader f scope x x
  /-- The header of the loop directly inside the scope that contains the block. -/
  | header {c : ℕ} {k : Loop} (hk : IsChild (FlowGraph.of f) scope x c k) :
      IsLeader f scope x k.header

include hscope in
lemma exists_isLeader (hx : InScope f scope x) : ∃ u, IsLeader f scope x u := by
  rcases exists_isChild hscope hx with ⟨c, k, -, hk⟩ | ⟨-, hout⟩
  · exact ⟨k.header, .header hk⟩
  · exact ⟨x, .self hout⟩

lemma IsLeader.unique (hu : IsLeader f scope x u) (hv : IsLeader f scope x v) : u = v := by
  cases hu with
  | self hout =>
    cases hv with
    | self => rfl
    | header hk => exact absurd hout hk.loopsAround_ne_empty
  | header hk =>
    cases hv with
    | self hout => exact absurd hout hk.loopsAround_ne_empty
    | header hk' => rw [(hk.unique hk').2]

/-- The leader of a block does not come after it. -/
lemma IsLeader.idxOf_le (h : IsLeader f scope x u) (hx : InScope f scope x) :
    (Flow.of f).order.idxOf u ≤ (Flow.of f).order.idxOf x := by
  cases h with
  | self => exact le_rfl
  | header hk =>
    exact Flow.idxOf_order_le hx.mem_order
      ((FlowGraph.isNatural_of_mem hk.mem).dominates (Loop.contains_iff.1 hk.contains))

lemma IsLeader.inScope (h : IsLeader f scope x u) (hx : InScope f scope x) : InScope f scope u := by
  cases h with
  | self => exact hx
  | header hk => exact hk.inScope_of_contains (header_mem_order hk.mem) hk.contains_header

/-- A leader is its own leader. -/
lemma IsLeader.self_of (h : IsLeader f scope x u) : IsLeader f scope u u := by
  cases h with
  | self hout => exact .self hout
  | header hk => exact .header (hk.of_contains (header_mem_order hk.mem) hk.contains_header)

/-- A block outside the loops inside the scope leads itself only. -/
lemma IsLeader.eq_of_empty (h : IsLeader f scope x u) (hu : loopsAround f scope u = ∅) : x = u := by
  cases h with
  | self => rfl
  | header hk =>
    have hk' := hk.of_contains (header_mem_order hk.mem) hk.contains_header
    exact absurd hu hk'.loopsAround_ne_empty

/-- The header of a loop directly inside the scope leads the blocks of the loop. -/
lemma isLeader_header_iff (hk : IsChild (FlowGraph.of f) scope u c k) (hx : InScope f scope x) :
    IsLeader f scope x k.header ↔ k.contains x = true := by
  refine ⟨fun h => ?_, fun hxk => .header (hk.of_contains hx.mem_order hxk)⟩
  generalize hv : k.header = v at h
  cases h with
  | self => exact hv ▸ hk.contains_header
  | header hk' =>
    rw [(FlowGraph.isNatural_of_mem hk.mem).eq_of_header_eq
      (FlowGraph.isNatural_of_mem hk'.mem) hv]
    exact hk'.contains

/-- An edge that leads into a loop directly inside the scope leads to its header. -/
lemma IsLeader.eq_of_target (h : IsLeader f scope v x) (htarget : v ∈ (FlowGraph.of f).targetsOf u)
    (hdisj : Disjoint (loopsAround f scope u) (loopsAround f scope v)) : x = v := by
  cases h with
  | self => rfl
  | @header c k hk =>
    by_contra hne
    have hu' := (FlowGraph.isNatural_of_mem hk.mem).closed v (Loop.contains_iff.1 hk.contains)
      (Ne.symm hne) u htarget
    have hmem : k ∈ loopsAround f scope u :=
      mem_loopsAround.2 ⟨hk.mem, hk.within, Loop.contains_iff.2 hu'⟩
    exact Finset.disjoint_left.1 hdisj hmem hk.mem_loopsAround

end Leader

/-! ## The order of the blocks -/

/-- The blocks of a scope in the order of their visits. -/
def blocksOf (f : Function R) (scope : Option Loop) : List BlockId :=
  (Flow.of f).order.filter fun b => scope.all (·.contains b)

lemma mem_blocksOf : b ∈ blocksOf f scope ↔ InScope f scope b := by
  rw [blocksOf, List.mem_filter, inScope_iff]

lemma nodup_blocksOf (f : Function R) (scope : Option Loop) : (blocksOf f scope).Nodup :=
  (Flow.nodup_order f).filter _

lemma pairwise_blocksOf (f : Function R) (scope : Option Loop) :
    (blocksOf f scope).Pairwise fun x y =>
      (Flow.of f).order.idxOf x < (Flow.of f).order.idxOf y := by
  refine List.Pairwise.filter _ ?_
  rw [List.pairwise_iff_getElem]
  intro i j hi hj hlt
  rwa [(Flow.nodup_order f).idxOf_getElem, (Flow.nodup_order f).idxOf_getElem]

/-- The blocks of a loop are listed from its header on, which dominates them all. -/
lemma exists_blocksOf_eq_cons {l : Loop} (hl : l ∈ (FlowGraph.of f).naturalLoops) :
    ∃ bs, blocksOf f (some l) = l.header :: bs := by
  have hheader : InScope f (some l) l.header := by
    refine inScope_iff.2 ⟨header_mem_order hl, ?_⟩
    simpa using Loop.contains_iff.2 (FlowGraph.isNatural_of_mem hl).header_mem
  have hmem := mem_blocksOf.2 hheader
  have horder := pairwise_blocksOf f (some l)
  cases hbs : blocksOf f (some l) with
  | nil => simp [hbs] at hmem
  | cons x bs =>
    rw [hbs] at hmem horder
    have hx : InScope f (some l) x := mem_blocksOf.1 (hbs ▸ List.mem_cons_self)
    refine ⟨bs, ?_⟩
    rcases List.mem_cons.1 hmem with heq | hmem
    · rw [heq]
    · have hlt := (List.pairwise_cons.1 horder).1 _ hmem
      have hcontains : x ∈ l.blocks := Loop.contains_iff.1 (by simpa using hx.contains)
      have hle := Flow.idxOf_order_le hx.mem_order
        ((FlowGraph.isNatural_of_mem hl).dominates hcontains)
      omega

/-- When a block comes up, its leader has come up before, or it is the block. -/
lemma IsLeader.mem_or_eq {pre rest : List BlockId} (hsplit : blocksOf f scope = pre ++ b :: rest)
    (h : IsLeader f scope b u) : u ∈ pre ∨ u = b := by
  have hb : InScope f scope b := mem_blocksOf.1 (hsplit ▸ List.mem_append_cons_self)
  have hu : u ∈ pre ++ b :: rest := hsplit ▸ mem_blocksOf.2 (h.inScope hb)
  rcases List.mem_append.1 hu with hu | hu
  · exact .inl hu
  · rcases List.mem_cons.1 hu with hu | hu
    · exact .inr hu
    · have horder := pairwise_blocksOf f scope
      rw [hsplit] at horder
      have hlt := (List.pairwise_cons.1 (List.pairwise_append.1 horder).2.1).1 u hu
      have hle := h.idxOf_le hb
      omega

/-- The blocks of a loop inside a scope are listed in the order of the scope. -/
lemma blocksOf_filter (hk : IsChild (FlowGraph.of f) scope x c k) :
    (blocksOf f scope).filter k.contains = blocksOf f (some k) := by
  rw [blocksOf, List.filter_filter, blocksOf]
  refine List.filter_congr fun b hb => ?_
  cases hbk : k.contains b with
  | false => simp [hbk]
  | true => simp [hbk, (hk.inScope_of_contains hb hbk).contains]

end Roundoff
