/-
# The links of a tree

The nodes of a tree name each other by number, in both directions: an aggregate has the nodes of its
fields in slots, and every node but the first names the one above it.  The two directions agree.  A
node is in one slot of the whole arena, a slot of the node above it, which was made before.

Nodes are made in two places, when an annotation is written down and when a search misses one.  In
both of them a new node goes into an empty slot, so all that is to be shown is that the links stay
right when this happens.  Estimates change without any link.
-/
import Mathlib
import Roundoff.Proofs.Aggregate.Annotations

namespace Roundoff

variable {R : Type} {m : Module R} {ty : Ty} {id : StructId}

namespace Tree

variable {t t' : Tree R} {n k c : NodeId} {i field : ℕ} {kind : NodeKind R} {e : Estimate R}
  {slots : List (Option NodeId)} {ns : List NodeId}

lemma node?_eq_some_iff {above : Option NodeId} :
    t.node? n = some ⟨above, kind⟩ ↔ t.kind? n = some kind ∧ t.parent? n = above := by
  rw [kind?, parent?]
  cases t.node? n with
  | none => simp
  | some node =>
    obtain ⟨above', kind'⟩ := node
    simp [and_comm]

lemma lt_size_iff : n < t.size ↔ (t.kind? n).isSome := by
  rw [kind?, Option.isSome_map, node?, size]
  simp

/-- The nodes are linked as the nodes of one tree are, with node zero at the root. -/
structure IsLinked (m : Module R) (t : Tree R) : Prop where
  /-- Node zero stands for an aggregate, and no node is above it. -/
  root : ∃ id slots, t.node? 0 = some ⟨none, .aggregate id slots⟩
  /-- Every other node has an older node above it, and it is in exactly one slot of the arena, which
  is a slot of that node. -/
  exists_parent : ∀ n, 0 < n → n < t.size → ∃ p < n, t.parent? n = some p ∧
    ∃ field, ∀ k i, t.child? k i = some n ↔ k = p ∧ i = field
  /-- In a slot is a node that there is, and not the root. -/
  child_lt : ∀ n field c, t.child? n field = some c → 0 < c ∧ c < t.size
  /-- An aggregate has a slot for every field of its type. -/
  length_eq : ∀ n id slots, t.kind? n = some (.aggregate id slots) →
    slots.length = m.structWidth id

/-! ## Walks -/

/-- The node `c` is in a slot of the node `n`. -/
def HasChild (t : Tree R) (n c : NodeId) : Prop := ∃ field, t.child? n field = some c

namespace IsLinked

/-- What is in a slot is newer than the aggregate that has the slot, and names it. -/
lemma lt_and_parent_eq (ht : t.IsLinked m) (hc : t.child? n field = some c) :
    n < c ∧ t.parent? c = some n := by
  obtain ⟨hpos, hlt⟩ := ht.child_lt n field c hc
  obtain ⟨p, hp, hparent, i, hslot⟩ := ht.exists_parent c hpos hlt
  obtain ⟨rfl, -⟩ := (hslot n field).1 hc
  exact ⟨hp, hparent⟩

/-- A walk from slot to slot comes to newer and newer nodes. -/
lemma pairwise_lt (ht : t.IsLinked m) (hns : ns.IsChain t.HasChild) : ns.Pairwise (· < ·) :=
  List.isChain_iff_pairwise.1 (hns.imp fun _ _ ⟨_, hc⟩ => (ht.lt_and_parent_eq hc).1)

/-- The check of the links succeeds. -/
lemma linked_eq_true (ht : t.IsLinked m) : t.linked = true := by
  rw [linked, List.all_eq_true]
  rintro ⟨⟨above, kind⟩, n⟩ hmem
  have hn : t.kind? n = some kind :=
    kind?_of_node? (Array.getElem?_toList ▸ List.mem_zipIdx_iff_getElem?.1 hmem)
  cases kind with
  | leaf e => rfl
  | aggregate id slots =>
    refine List.all_eq_true.2 fun slot hslot => Option.all_eq_true _ _ |>.2 fun c hc => ?_
    obtain ⟨field, hfield⟩ := List.mem_iff_getElem?.1 hslot
    have hchild : t.child? n field = some c := child?_eq_some_iff.2 ⟨id, slots, hn, hc ▸ hfield⟩
    obtain ⟨node, hnode, hparent⟩ := Option.bind_eq_some_iff.1 (ht.lt_and_parent_eq hchild).2
    rw [hnode, Option.any_some, hparent, beq_self_eq_true]

end IsLinked

/-- A lookup is a walk to the scalar that it finds. -/
lemma exists_isChain_of_find? {skip : ℕ} {path : List PathIndex}
    (h : find? m t n skip path = some e) :
    ∃ ns l, (n :: ns).IsChain t.HasChild ∧ (n :: ns).getLast? = some l ∧
      t.leaf? l = some e := by
  induction path generalizing n skip with
  | nil =>
    rw [find?] at h
    split at h
    · next hn =>
      cases h
      exact ⟨[], n, .singleton n, rfl, leaf?_eq_some_iff.2 hn⟩
    · cases h
  | cons step path ih =>
    cases hn : t.kind? n with
    | none => simp [find?, hn] at h
    | some kind =>
      cases kind with
      | leaf e' =>
        rw [find?_leaf hn] at h
        cases h
        exact ⟨[], n, .singleton n, rfl, leaf?_eq_some_iff.2 hn⟩
      | aggregate id slots =>
        cases skip with
        | succ skip =>
          rw [find?_skip] at h
          exact ih h
        | zero =>
          cases step with
          | dynamic => simp [find?, hn] at h
          | const field =>
            rw [find?_field hn] at h
            obtain ⟨ty, -, h⟩ := Option.bind_eq_some_iff.1 h
            obtain ⟨c, hc, h⟩ := Option.bind_eq_some_iff.1 h
            obtain ⟨ns, l, hns, hlast, hleaf⟩ := ih h
            exact ⟨c :: ns, l, .cons_cons ⟨field, hc⟩ hns, hlast, hleaf⟩

/-! ## New trees and new nodes -/

lemma isLinked_new (m : Module R) (id : StructId) : (new m id).IsLinked m where
  root := ⟨id, _, rfl⟩
  exists_parent _ hpos hlt := absurd (Nat.lt_one_iff.1 hlt) hpos.ne'
  child_lt _ _ _ hc := nomatch child?_new.symm.trans hc
  length_eq := (isArena_new m id).length_eq

/-- **A tree stays linked if a node is put into an empty slot.** -/
theorem AddsChild.isLinked (h : AddsChild t n id slots field kind t') (ht : t.IsLinked m)
    (hempty : t.child? n field = none) (hfield : field < slots.length) (hkind : kind.IsFresh m ty) :
    t'.IsLinked m := by
  have hchild := h.child?_eq hfield hkind
  refine ⟨?root, fun c hpos hlt => ?parent, fun k i c hc => ?slot, fun _ _ _ hk =>
    h.length_eq hkind ht.length_eq hk⟩
  case root =>
    obtain ⟨id', slots', hroot⟩ := ht.root
    obtain ⟨hroot, hparent⟩ := node?_eq_some_iff.1 hroot
    obtain ⟨slots'', hroot'⟩ := h.keepsNodes.aggregate 0 id' slots' hroot
    exact ⟨id', slots'', node?_eq_some_iff.2
      ⟨hroot', (h.parent_old 0 (lt_size_of_kind? hroot)).trans hparent⟩⟩
  case parent =>
    rw [h.size_eq, Nat.lt_succ_iff_lt_or_eq] at hlt
    rcases hlt with hlt | rfl
    · -- an old node is in the slot in which it was, which is not the new one
      obtain ⟨p, hp, hparent, j, hslot⟩ := ht.exists_parent c hpos hlt
      refine ⟨p, hp, (h.parent_old c hlt).trans hparent, j, fun k i => ?_⟩
      rw [hchild, ← hslot]
      split
      · next heq =>
        rw [heq.1, heq.2, hempty, Option.some_inj]
        exact iff_of_false hlt.ne' nofun
      · exact Iff.rfl
    · -- the new node was in no slot
      refine ⟨n, h.lt_size, h.parent_last, field, fun k i => ?_⟩
      rw [hchild]
      split
      · next heq => exact iff_of_true rfl heq
      · next hne => exact iff_of_false (fun hold => (ht.child_lt k i _ hold).2.ne rfl) hne
  case slot =>
    rw [hchild] at hc
    rw [h.size_eq]
    split at hc
    · obtain rfl := Option.some.inj hc
      exact ⟨(Nat.zero_le n).trans_lt h.lt_size, t.size.lt_succ_self⟩
    · exact (ht.child_lt k i c hc).imp_right Nat.lt_succ_of_lt

/-! ## Estimates -/

/-- The trees have the same nodes for aggregates, and their nodes name the same nodes above them. -/
structure SameLinks (t t' : Tree R) : Prop where
  /-- There are as many nodes. -/
  size_eq : t'.size = t.size
  /-- Aggregates have the same nodes in their slots. -/
  aggregate_iff : ∀ n id slots,
    t'.kind? n = some (.aggregate id slots) ↔ t.kind? n = some (.aggregate id slots)
  /-- The same nodes are above the nodes. -/
  parent_eq : ∀ n, t'.parent? n = t.parent? n

lemma SameLinks.child?_eq (h : SameLinks t t') (n : NodeId) (field : ℕ) :
    t'.child? n field = t.child? n field := by
  refine Option.ext fun c => ?_
  simp only [child?_eq_some_iff, h.aggregate_iff]

lemma IsLinked.of_sameLinks (ht : t.IsLinked m) (h : SameLinks t t') : t'.IsLinked m where
  root := by
    obtain ⟨id, slots, hroot⟩ := ht.root
    obtain ⟨hroot, hparent⟩ := node?_eq_some_iff.1 hroot
    exact ⟨id, slots, node?_eq_some_iff.2
      ⟨(h.aggregate_iff 0 id slots).2 hroot, (h.parent_eq 0).trans hparent⟩⟩
  exists_parent n hpos hlt := by
    simp only [h.parent_eq, h.child?_eq]
    exact ht.exists_parent n hpos (h.size_eq ▸ hlt)
  child_lt n field c hc := by
    rw [h.size_eq]
    exact ht.child_lt n field c (h.child?_eq n field ▸ hc)
  length_eq n id slots hn := ht.length_eq n id slots ((h.aggregate_iff n id slots).1 hn)

lemma SetsLeaf.sameLinks (h : SetsLeaf t n e t') : SameLinks t t' where
  size_eq := by
    refine eq_of_forall_lt_iff fun k => ?_
    rw [lt_size_iff, lt_size_iff]
    by_cases hk : k = n
    · obtain ⟨old, hold⟩ := Option.isSome_iff_exists.1 h.was_leaf
      rw [hk, h.kind_set, leaf?_eq_some_iff.1 hold]
      exact Iff.rfl
    · rw [h.kind_old k hk]
  aggregate_iff _ _ _ := h.kind?_aggregate
  parent_eq := h.parent_old

variable [Number R]

lemma sameLinks_zeroed (t : Tree R) : SameLinks t t.zeroed := by
  have hnode (n : NodeId) : t.zeroed.node? n = (t.node? n).map _ := Array.getElem?_map ..
  refine ⟨Array.size_map .., fun n id slots => ?_, fun n => ?_⟩
  · rw [kind?, kind?, hnode]
    cases t.node? n with
    | none => rfl
    | some node => obtain ⟨above, _ | _⟩ := node <;> simp
  · rw [parent?, parent?, hnode]
    cases t.node? n with
    | none => rfl
    | some node => obtain ⟨above, _ | _⟩ := node <;> rfl

/-! ## Searches and updates -/

/-- A search keeps the links, and ends at a scalar if it ends at a node. -/
lemma IsLinked.locate (ht : t.IsLinked m) (n : NodeId) (skip : ℕ) (path : List PathIndex) :
    (locate m t n skip path).2.IsLinked m ∧
      (locate m t n skip path).1.all fun l => ((locate m t n skip path).2.leaf? l).isSome := by
  induction path generalizing t n skip with
  | nil =>
    rw [Tree.locate]
    split
    · next e hn => exact ⟨ht, isSome_leaf? hn⟩
    · exact ⟨ht, rfl⟩
  | cons step path ih =>
    cases hn : t.kind? n with
    | none =>
      rw [show Tree.locate m t n skip (step :: path) = (none, t) by simp [Tree.locate, hn]]
      exact ⟨ht, rfl⟩
    | some kind =>
      cases kind with
      | leaf e =>
        rw [locate_leaf hn]
        exact ⟨ht, isSome_leaf? hn⟩
      | aggregate id slots =>
        cases skip with
        | succ skip =>
          rw [locate_skip]
          exact ih ht n skip
        | zero =>
          cases step with
          | dynamic =>
            rw [← Ty.arrayDepth_struct, locate_of_isStuck hn .dynamic]
            exact ⟨ht, rfl⟩
          | const field =>
            cases hty : m.fieldType? id field with
            | none =>
              rw [← Ty.arrayDepth_struct, locate_of_isStuck hn (.outside hty)]
              exact ⟨ht, rfl⟩
            | some ty =>
              have hfield : field < slots.length :=
                ht.length_eq n id slots hn ▸ Module.lt_structWidth hty
              cases hc : t.child? n field with
              | some c =>
                rw [locate_child hn hty hc]
                exact ih ht c ty.arrayDepth
              | none =>
                obtain ⟨t₁, haddChild, hadd⟩ := exists_addsChild hn hfield (freshKind m ty)
                rw [locate_addChild hn hty (getElem?_of_child?_eq_none hn hfield hc) haddChild]
                exact ih (hadd.isLinked ht hc hfield isFresh_freshKind) t.size ty.arrayDepth

/-- **An update keeps the links**, whether it finds a scalar or not. -/
theorem IsLinked.set (ht : t.IsLinked m) (path : List PathIndex) (e : Estimate R) :
    (t.set m path e).2.IsLinked m := by
  have hlocate := ht.locate 0 0 path
  generalize h : Tree.locate m t 0 0 path = r at hlocate
  obtain ⟨o, t'⟩ := r
  cases o with
  | none =>
    rw [set_of_locate_none h]
    exact hlocate.1
  | some l =>
    obtain ⟨t'', heq, hset⟩ := exists_setsLeaf h hlocate.2 e
    rw [heq]
    exact hlocate.1.of_sameLinks hset.sameLinks

/-! ## Annotations -/

mutual

lemma IsLinked.seedField {t : Tree R} {n : NodeId} {id : StructId} {slots : List (Option NodeId)}
    (hlinked : t.IsLinked m) (ht : t.IsArena m) (hn : t.kind? n = some (.aggregate id slots)) :
    ∀ (field : ℕ) (info : ValueInfo R) (s : Symbol), t.child? n field = none →
      (seedField m id n field t info s).1.IsLinked m
  | field, .scalar info, s, hempty => by
    obtain ⟨-, heq⟩ | ⟨ty, t', -, hfield, hfresh, hadd, heq⟩ := seedField_scalar ht hn field info s
    · rwa [heq]
    · rw [heq]
      exact hadd.isLinked hlinked hempty hfield hfresh
  | field, .struct infos, s, hempty => by
    obtain ⟨-, heq⟩ | ⟨ty, inner, t', hty, hfield, -, hfresh, hadd, heq⟩ :=
      seedField_struct ht hn field infos s
    · rwa [heq]
    · rw [heq]
      exact IsLinked.seedFields (hadd.isLinked hlinked hempty hfield hfresh)
        (hadd.isArena ht hty hfresh) hadd.kind_last 0 infos s
        fun i _ => child?_aggregateNode hadd.kind_last

lemma IsLinked.seedFields {t : Tree R} {n : NodeId} {id : StructId} {slots : List (Option NodeId)}
    (hlinked : t.IsLinked m) (ht : t.IsArena m) (hn : t.kind? n = some (.aggregate id slots)) :
    ∀ (field : ℕ) (infos : List (Option (ValueInfo R))) (s : Symbol),
      (∀ i ≥ field, t.child? n i = none) → (seedFields m id n field t infos s).1.IsLinked m
  | field, [], s, _ => by
    rw [Tree.seedFields]
    exact hlinked
  | field, none :: infos, s, hempty => by
    rw [Tree.seedFields]
    exact IsLinked.seedFields hlinked ht hn (field + 1) infos s
      fun i hi => hempty i (Nat.le_of_succ_le hi)
  | field, some info :: infos, s, hempty => by
    rw [Tree.seedFields, Fresh.bind_apply]
    have hlinked' := IsLinked.seedField hlinked ht hn field info s (hempty field le_rfl)
    obtain ⟨ht', hkeeps⟩ := seedField_keeps ht hn field info s
    obtain ⟨slots', hn'⟩ := hkeeps.aggregate n id slots hn
    -- the slots of the fields that come later are still empty
    have hbelow := (seedField_shows ht hn field info s (hempty field le_rfl)).1
    refine IsLinked.seedFields hlinked' ht' hn' (field + 1) infos _ fun i hi => ?_
    rw [hbelow.child_eq i (by simpa using (Nat.lt_of_succ_le hi).ne'),
      hempty i (Nat.le_of_succ_le hi)]

end

lemma isLinked_ofInfo (m : Module R) (id : StructId) (infos : List (Option (ValueInfo R)))
    (s : Symbol) : (ofInfo m id infos s).1.IsLinked m :=
  (isLinked_new m id).seedFields (isArena_new m id) kind?_new_zero 0 infos s
    fun _ _ => child?_new

/-! ## All trees -/

/-- The tree comes about by annotations, by updates, and by setting errors to zero. -/
inductive IsMade (m : Module R) : Tree R → Prop
  /-- Nothing is known. -/
  | new (id : StructId) : IsMade m (new m id)
  /-- What is known has been written down. -/
  | ofInfo (id : StructId) (infos : List (Option (ValueInfo R))) (s : Symbol) :
    IsMade m (ofInfo m id infos s).1
  /-- An estimate has been set, or at least tried to be. -/
  | set {t : Tree R} (ht : IsMade m t) (path : List PathIndex) (e : Estimate R) :
    IsMade m (t.set m path e).2
  /-- All errors have been set to zero. -/
  | zeroed {t : Tree R} (ht : IsMade m t) : IsMade m t.zeroed

lemma IsMade.isLinked (ht : t.IsMade m) : t.IsLinked m := by
  induction ht with
  | new id => exact isLinked_new m id
  | ofInfo id infos s => exact isLinked_ofInfo m id infos s
  | set _ path e ih => exact ih.set path e
  | zeroed _ ih => exact ih.of_sameLinks (sameLinks_zeroed _)

end Tree

variable [Number R]

/-- The trees of aggregates stay linked. -/
structure Module.KeepsLinks (m : Module R) : Prop where
  new : ∀ id, (Tree.new m id).IsLinked m
  ofInfo : ∀ id infos s, (Tree.ofInfo m id infos s).1.IsLinked m
  /-- It makes no difference whether there is a scalar to set. -/
  set : ∀ t : Tree R, t.IsLinked m → ∀ path e, (t.set m path e).2.IsLinked m
  zeroed : ∀ t : Tree R, t.IsLinked m → t.zeroed.IsLinked m
  /-- So all trees are linked, whatever has been done to them. -/
  made : ∀ t : Tree R, t.IsMade m → t.IsLinked m
  /-- The check of the links succeeds for all of them. -/
  linked : ∀ t : Tree R, t.IsMade m → t.linked = true
  /-- A walk from the root, from slot to slot, comes to newer and newer nodes. -/
  walk : ∀ t : Tree R, t.IsLinked m → ∀ ns : List NodeId,
    (0 :: ns).IsChain t.HasChild → (0 :: ns).Pairwise (· < ·)
  /-- Every lookup is such a walk, which ends at the scalar that is found. -/
  lookup : ∀ (t : Tree R) path e, t.get? m path = some e →
    ∃ ns l, (0 :: ns).IsChain t.HasChild ∧ (0 :: ns).getLast? = some l ∧ t.leaf? l = some e

/-- **Trees are linked from the first node on**, in both directions, and nothing that is done to
them breaks a link. -/
theorem Module.keepsLinks (m : Module R) : m.KeepsLinks where
  new := Tree.isLinked_new m
  ofInfo := Tree.isLinked_ofInfo m
  set _ ht path e := ht.set path e
  zeroed t ht := ht.of_sameLinks (Tree.sameLinks_zeroed t)
  made _ ht := ht.isLinked
  linked _ ht := ht.isLinked.linked_eq_true
  walk _ ht _ hns := ht.pairwise_lt hns
  lookup _ _ _ h := Tree.exists_isChain_of_find? h

/-- Setting a field of an array element makes a node for the elements and one below it. -/
example :
    let m : Module ℝ := ⟨"m", #[], #[], #[⟨"Inner", [.int 32, .int 16]⟩,
      ⟨"Outer", [.int 32, .array (.struct ⟨0⟩) 8]⟩]⟩
    let t := ((Tree.new m ⟨1⟩).set m [.const 1, .const 0, .const 0] Estimate.unknown).2
    t.size = 3 ∧ t.parent? 2 = some 1 ∧ t.parent? 1 = some 0 ∧ t.parent? 0 = none :=
  ⟨rfl, rfl, rfl, rfl⟩

end Roundoff
