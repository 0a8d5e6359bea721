/-
# Paths through a flow graph

A path leads from the entry of a function along the edges of its flow graph to the start of a block.
The reverse postorder lists exactly the blocks that paths lead to, each of them once, and every
block other than the entry comes behind one of its predecessors.
-/
import Mathlib
import Roundoff.Proofs.Flow.Search

namespace Roundoff

namespace FlowGraph

/-- Control starts at the block. -/
abbrev StartsAt (g : FlowGraph) (b : BlockId) : Prop := g.entry? = some b

/-- `g.Path b bs`: control can pass from the entry through the blocks `bs`, in this order, to the
start of the block `b`. -/
inductive Path (g : FlowGraph) : BlockId → List BlockId → Prop
  /-- Control starts at the entry. -/
  | entry {b : BlockId} (hb : g.StartsAt b) : Path g b []
  /-- From the end of a block control passes to one of its targets. -/
  | step {b t : BlockId} {bs : List BlockId} (hpath : Path g b bs) (ht : t ∈ g.targetsOf b) :
      Path g t (bs ++ [b])

variable {g : FlowGraph} {b e p t : BlockId} {bs : List BlockId}

/-! ## Blocks and edges -/

lemma mem_blocks_iff : b ∈ g.blocks ↔ b.val.toNat < g.size := by
  rw [blocks, List.mem_map]
  constructor
  · rintro ⟨n, hn, rfl⟩
    exact lt_of_le_of_lt (Nat.mod_le _ _) (List.mem_range.1 hn)
  · intro hb
    exact ⟨b.val.toNat, List.mem_range.2 hb, by rw [UInt32.ofNat_toNat]⟩

lemma mem_blocks_of_mem_targetsOf (ht : t ∈ g.targetsOf b) : b ∈ g.blocks := by
  rw [mem_blocks_iff]
  by_contra hb
  rw [targetsOf, Array.getD_eq_getD_getElem?, Array.getElem?_eq_none (not_lt.1 hb)] at ht
  cases ht

lemma mem_predecessors_iff : p ∈ g.predecessors b ↔ b ∈ g.targetsOf p := by
  rw [predecessors, List.mem_filter, List.contains_iff_mem]
  exact ⟨fun h => h.2, fun h => ⟨mem_blocks_of_mem_targetsOf h, h⟩⟩

lemma StartsAt.mem_blocks (he : g.StartsAt e) : e ∈ g.blocks :=
  List.mem_of_mem_head? he

/-- Control starts at the first block. -/
lemma startsAt_of {R : Type} {f : Function R} (hf : 0 < f.blocks.size) :
    (FlowGraph.of f).StartsAt ⟨0⟩ := by
  obtain ⟨n, hn⟩ := Nat.exists_eq_succ_of_ne_zero (Nat.ne_of_gt hf)
  have hsize : (FlowGraph.of f).size = n + 1 := by rw [size, FlowGraph.of, Array.size_map, hn]
  change (FlowGraph.of f).blocks.head? = some ⟨0⟩
  rw [blocks, hsize, List.range_succ_eq_map]
  rfl

/-- The targets of a block are the blocks that its last instruction names, as far as they exist. -/
lemma mem_targetsOf_of {R : Type} {f : Function R} :
    t ∈ (FlowGraph.of f).targetsOf b ↔
      ∃ block, f.block? b = some block ∧ t ∈ f.successors block.id ∧ (f.block? t).isSome := by
  rw [targetsOf, FlowGraph.of, Array.getD_eq_getD_getElem?, Array.getElem?_map, Function.block?]
  cases f.blocks[b.val.toNat]? with
  | none => simp
  | some block => simp

/-- No edge leads out of the graph. -/
lemma mem_blocks_of_mem_targetsOf_of {R : Type} {f : Function R}
    (ht : t ∈ (FlowGraph.of f).targetsOf b) : t ∈ (FlowGraph.of f).blocks := by
  obtain ⟨block, -, -, hsome⟩ := mem_targetsOf_of.1 ht
  rw [mem_blocks_iff, size, FlowGraph.of, Array.size_map]
  exact (Array.getElem?_eq_some_iff.1 (Option.get_mem hsome)).1

/-! ## Reverse postorder -/

section Order

variable {R : Type} (f : Function R)

/-- A search from the entry goes deep enough to find what it should. -/
lemma exists_searchFromEntry {g : FlowGraph} {next : BlockId → List BlockId}
    {F : Search BlockId → List BlockId → List BlockId → Search BlockId → Prop}
    (rules : Search.Rules next F) (hnext : ∀ x, ∀ y ∈ next x, y ∈ g.blocks) (avoid : List BlockId)
    (he : g.StartsAt e) : ∃ s, F (.avoiding avoid) [e] (g.searchFromEntry next avoid) s := by
  have hcard : (g.blocks.toFinset \ (Search.avoiding avoid).seen.toFinset).card ≤ g.size := by
    refine (Finset.card_le_card Finset.sdiff_subset).trans ((List.toFinset_card_le _).trans ?_)
    rw [blocks, List.length_map, List.length_range]
  have hclosed : ∀ x ∈ g.blocks.toFinset, ∀ y ∈ next x, y ∈ g.blocks.toFinset :=
    fun x _ y hy => List.mem_toFinset.2 (hnext x y hy)
  obtain ⟨found, hfound⟩ := rules.exists_visit hclosed (List.mem_toFinset.2 he.mem_blocks) hcard
  have horder : g.searchFromEntry next avoid = found := by
    rw [searchFromEntry, he]
    exact (rules.finds hfound).finished_eq.trans (List.append_nil found)
  exact ⟨_, horder ▸ hfound⟩

/-- The search from the entry finds the blocks in reverse postorder. -/
lemma finds_reversePostorder (he : (FlowGraph.of f).StartsAt e) :
    ∃ s, Search.Finds (FlowGraph.of f).targetsOf (.avoiding []) [e]
      (FlowGraph.of f).reversePostorder s :=
  exists_searchFromEntry (Search.finds_rules _) (fun _ _ => mem_blocks_of_mem_targetsOf_of) [] he

lemma reversePostorder_eq_nil {g : FlowGraph} (he : g.entry? = none) : g.reversePostorder = [] := by
  rw [reversePostorder, searchFromEntry, he]

lemma nodup_reversePostorder : (FlowGraph.of f).reversePostorder.Nodup := by
  cases he : FlowGraph.entry? (FlowGraph.of f) with
  | none =>
    rw [reversePostorder_eq_nil he]
    exact List.nodup_nil
  | some e =>
    obtain ⟨s, hs⟩ := finds_reversePostorder f he
    exact hs.nodup

/-- A block is the entry, or it comes behind one of the blocks that it may follow. -/
lemma parent_of_mem_reversePostorder (hb : b ∈ (FlowGraph.of f).reversePostorder) :
    (FlowGraph.of f).StartsAt b ∨ ∃ p, b ∈ (FlowGraph.of f).targetsOf p ∧
      [p, b].Sublist (FlowGraph.of f).reversePostorder := by
  cases he : FlowGraph.entry? (FlowGraph.of f) with
  | none =>
    rw [reversePostorder_eq_nil he] at hb
    cases hb
  | some e =>
    obtain ⟨s, hs⟩ := finds_reversePostorder f he
    rcases hs.parent b hb with hroot | hparent
    · exact Or.inl (he.trans (congrArg some (List.mem_singleton.1 hroot).symm))
    · exact Or.inr hparent

lemma Path.reflTransGen {g : FlowGraph} (h : g.Path b bs) :
    ∃ e, g.StartsAt e ∧ Relation.ReflTransGen (fun x y => y ∈ g.targetsOf x) e b := by
  induction h with
  | entry hb => exact ⟨_, hb, .refl⟩
  | step _ ht ih =>
    obtain ⟨e, he, hpath⟩ := ih
    exact ⟨e, he, hpath.tail ht⟩

/-- **The reverse postorder lists the blocks that paths lead to.** -/
theorem mem_reversePostorder_iff :
    b ∈ (FlowGraph.of f).reversePostorder ↔ ∃ bs, (FlowGraph.of f).Path b bs := by
  constructor
  · intro hb
    cases he : FlowGraph.entry? (FlowGraph.of f) with
    | none =>
      rw [reversePostorder_eq_nil he] at hb
      cases hb
    | some e =>
      obtain ⟨s, hs⟩ := finds_reversePostorder f he
      induction hs.mem_found_iff.1 hb with
      | refl => exact ⟨[], .entry he⟩
      | tail hpath hedge ih =>
        obtain ⟨bs, hbs⟩ := ih (hs.mem_found_iff.2 hpath)
        exact ⟨_, hbs.step hedge⟩
  · rintro ⟨bs, hbs⟩
    obtain ⟨e, he, hpath⟩ := hbs.reflTransGen
    obtain ⟨s, hs⟩ := finds_reversePostorder f he
    exact hs.mem_found_iff.2 hpath

end Order

end FlowGraph

end Roundoff
