/-
# The arena of a tree

The node of a field is made after the node of its aggregate, fills one slot only and names the
aggregate as its parent.  So following the slots for a list of fields leads to larger and larger
numbers, and different lists of fields lead to different nodes.

A tree grows when nodes are put into empty slots: what has been there stays, and only new nodes are
found where there was none.  All trees that annotations and settings make come about in this way.
-/
import Mathlib
import Roundoff.Proofs.Aggregate.Paths

namespace Roundoff

variable {R : Type} {m : Module R} {ty : Ty} {id : StructId}

/-- A node for an element of the given type, with no nodes below it. -/
def NodeKind.IsFresh (m : Module R) (ty : Ty) (kind : NodeKind R) : Prop :=
  (∃ e, kind = .leaf e) ∨ ∃ inner, kind = m.aggregateNode inner ∧ ty.stripArrays = .struct inner

namespace Tree

variable {t t' t'' : Tree R} {n k l c : NodeId} {field : ℕ} {fs gs : List ℕ}
  {e : Estimate R} {kind : NodeKind R} {slots : List (Option NodeId)}

/-! ## Nodes below a node -/

/-- The node that fills the slot of a field. -/
def child? (t : Tree R) (n : NodeId) (field : ℕ) : Option NodeId :=
  match t.kind? n with
  | some (.aggregate _ slots) => slots[field]?.join
  | _ => none

/-- The node to which the fields of a list lead from a node, one after the other. -/
def below? (t : Tree R) (n : NodeId) (fs : List ℕ) : Option NodeId := fs.foldlM t.child? n

/-- The node that has a node in a slot. -/
def parent? (t : Tree R) (n : NodeId) : Option NodeId := (t.node? n).bind Node.parent

/-- The estimate of a node that stands for a scalar. -/
def leaf? (t : Tree R) (n : NodeId) : Option (Estimate R) :=
  match t.kind? n with
  | some (.leaf e) => some e
  | _ => none

/-- The node stands for an element of the given type, or its estimate stands for all of it. -/
def Fits (t : Tree R) (n : NodeId) (ty : Ty) : Prop :=
  (∃ e, t.kind? n = some (.leaf e)) ∨
    ∃ id slots, t.kind? n = some (.aggregate id slots) ∧ ty.stripArrays = .struct id

lemma child?_eq_some_iff : t.child? n field = some c ↔
    ∃ id slots, t.kind? n = some (.aggregate id slots) ∧ slots[field]? = some (some c) := by
  rw [child?]
  cases h : t.kind? n with
  | none => simp
  | some kind =>
    cases kind with
    | leaf e => simp
    | aggregate id slots => simp [Option.join_eq_some_iff]

lemma child?_aggregate (h : t.kind? n = some (.aggregate id slots)) :
    t.child? n field = slots[field]?.join := by
  rw [child?, h]

lemma child?_leaf (h : t.kind? n = some (.leaf e)) : t.child? n field = none := by
  rw [child?, h]

lemma getElem?_of_child?_eq_none (h : t.kind? n = some (.aggregate id slots))
    (hfield : field < slots.length) (hc : t.child? n field = none) : slots[field]? = some none := by
  rw [child?_aggregate h, List.getElem?_eq_getElem hfield, Option.join_some] at hc
  rw [List.getElem?_eq_getElem hfield, hc]

lemma leaf?_eq_some_iff : t.leaf? n = some e ↔ t.kind? n = some (.leaf e) := by
  rw [leaf?]
  cases h : t.kind? n with
  | none => simp
  | some kind => cases kind <;> simp

lemma isSome_leaf? (h : t.kind? n = some (.leaf e)) : (t.leaf? n).isSome :=
  Option.isSome_of_eq_some (leaf?_eq_some_iff.2 h)

lemma below?_nil : t.below? n [] = some n := rfl

lemma below?_cons : t.below? n (field :: fs) = (t.child? n field).bind (t.below? · fs) := rfl

lemma below?_append_singleton :
    t.below? n (fs ++ [field]) = (t.below? n fs).bind (t.child? · field) := by
  rw [below?, List.foldlM_append]
  refine congrArg (Option.bind _) (funext fun p => ?_)
  simp

/-- Nothing is below a scalar. -/
lemma below?_leaf (h : t.kind? n = some (.leaf e)) :
    t.below? n fs = some k ↔ fs = [] ∧ k = n := by
  cases fs with
  | nil => simp [below?_nil, eq_comm]
  | cons field fs => simp [below?_cons, child?_leaf h]

/-- A scalar is found only at the end of a list of fields. -/
lemma eq_of_isPrefix (hfs : t.below? n fs = some k) (hk : t.kind? k = some (.leaf e))
    (hgs : t.below? n gs = some l) (hle : fs <+: gs) : fs = gs := by
  obtain ⟨rest, rfl⟩ := hle
  rw [below?, List.foldlM_append, ← below?, hfs] at hgs
  obtain ⟨rfl, -⟩ := (below?_leaf hk).1 hgs
  exact (List.append_nil fs).symm

lemma lt_size_of_kind? (h : t.kind? n = some kind) : n < t.size := by
  obtain ⟨node, hnode, -⟩ := Option.map_eq_some_iff.1 h
  exact (Array.getElem?_eq_some_iff.1 hnode).1

lemma kind?_eq_none (h : t.size ≤ n) : t.kind? n = none := by
  rw [kind?, node?, Array.getElem?_eq_none h, Option.map_none]

lemma child?_congr (h : t'.kind? n = t.kind? n) : t'.child? n field = t.child? n field := by
  rw [child?, child?, h]

/-! ## Arenas -/

/-- The nodes are linked as the nodes of trees are. -/
structure IsArena (m : Module R) (t : Tree R) : Prop where
  /-- An aggregate has a slot for every field of its type. -/
  length_eq : ∀ n id slots, t.kind? n = some (.aggregate id slots) →
    slots.length = m.structWidth id
  /-- The node in a slot was made later. -/
  lt_child : ∀ n field c, t.child? n field = some c → n < c
  /-- It names the aggregate as its parent. -/
  parent_child : ∀ n field c, t.child? n field = some c → t.parent? c = some n
  /-- It fills one slot only. -/
  slot_eq : ∀ n i j c, t.child? n i = some c → t.child? n j = some c → i = j
  /-- It stands for an element of the field. -/
  fits_child : ∀ n id slots field c, t.kind? n = some (.aggregate id slots) →
    t.child? n field = some c → ∃ ty, m.fieldType? id field = some ty ∧ t.Fits c ty

namespace IsArena

lemma lt_size_of_child? (ht : t.IsArena m) (h : t.child? n field = some c) : c < t.size := by
  obtain ⟨node, hnode, -⟩ := Option.bind_eq_some_iff.1 (ht.parent_child n field c h)
  exact (Array.getElem?_eq_some_iff.1 hnode).1

lemma fits_of_child? (ht : t.IsArena m) (hn : t.kind? n = some (.aggregate id slots))
    (hty : m.fieldType? id field = some ty) (hc : t.child? n field = some c) : t.Fits c ty := by
  obtain ⟨ty', hty', hfits⟩ := ht.fits_child n id slots field c hn hc
  rwa [← Option.some.inj (hty.symm.trans hty')] at hfits

/-- The nodes below a node have larger numbers. -/
lemma le_below (ht : t.IsArena m) (h : t.below? n fs = some k) : n ≤ k := by
  induction fs generalizing n with
  | nil => exact (Option.some.inj h).le
  | cons field fs ih =>
    rw [below?_cons] at h
    obtain ⟨c, hc, h⟩ := Option.bind_eq_some_iff.1 h
    exact (ht.lt_child n field c hc).le.trans (ih h)

/-- **Different lists of fields lead to different nodes.** -/
theorem below?_inj (ht : t.IsArena m) (hf : t.below? n fs = some k) (hg : t.below? n gs = some k) :
    fs = gs := by
  induction fs using List.reverseRecOn generalizing gs k with
  | nil =>
    obtain rfl := Option.some.inj hf
    induction gs using List.reverseRecOn with
    | nil => rfl
    | append_singleton gs g _ =>
      rw [below?_append_singleton] at hg
      obtain ⟨p, hp, hchild⟩ := Option.bind_eq_some_iff.1 hg
      exact absurd (ht.lt_child p g n hchild) (ht.le_below hp).not_gt
  | append_singleton fs f ih =>
    rw [below?_append_singleton] at hf
    obtain ⟨p, hp, hchild⟩ := Option.bind_eq_some_iff.1 hf
    induction gs using List.reverseRecOn with
    | nil =>
      obtain rfl := Option.some.inj hg
      exact absurd (ht.lt_child p f n hchild) (ht.le_below hp).not_gt
    | append_singleton gs g _ =>
      rw [below?_append_singleton] at hg
      obtain ⟨p', hp', hchild'⟩ := Option.bind_eq_some_iff.1 hg
      -- both ways lead through the parent
      obtain rfl : p = p' := Option.some.inj
        ((ht.parent_child p f k hchild).symm.trans (ht.parent_child p' g k hchild'))
      rw [ih hp hp', ht.slot_eq p f g k hchild hchild']

end IsArena

/-! ## Growth -/

/-- Nodes stand for what they stood for. -/
structure KeepsNodes (t t' : Tree R) : Prop where
  /-- There are no fewer nodes. -/
  size_le : t.size ≤ t'.size
  /-- Scalars stay as they are. -/
  leaf : ∀ n e, t.kind? n = some (.leaf e) → t'.kind? n = some (.leaf e)
  /-- Aggregates stay aggregates. -/
  aggregate : ∀ n id slots, t.kind? n = some (.aggregate id slots) →
    ∃ slots', t'.kind? n = some (.aggregate id slots')

namespace KeepsNodes

lemma refl (t : Tree R) : t.KeepsNodes t where
  size_le := le_rfl
  leaf _ _ h := h
  aggregate _ _ slots h := ⟨slots, h⟩

lemma trans (h : t.KeepsNodes t') (h' : t'.KeepsNodes t'') : t.KeepsNodes t'' where
  size_le := h.size_le.trans h'.size_le
  leaf n e hn := h'.leaf n e (h.leaf n e hn)
  aggregate n id slots hn := by
    obtain ⟨slots', hn'⟩ := h.aggregate n id slots hn
    exact h'.aggregate n id slots' hn'

lemma fits (h : t.KeepsNodes t') (hn : t.Fits n ty) : t'.Fits n ty := by
  rcases hn with ⟨e, hn⟩ | ⟨id, slots, hn, hty⟩
  · exact .inl ⟨e, h.leaf n e hn⟩
  · obtain ⟨slots', hn'⟩ := h.aggregate n id slots hn
    exact .inr ⟨id, slots', hn', hty⟩

/-- An old scalar has the estimate that it had before. -/
lemma leaf_of_lt (h : t.KeepsNodes t') (hk : t'.kind? k = some (.leaf e)) (hlt : k < t.size) :
    t.kind? k = some (.leaf e) := by
  have hsome : t.kind? k = some t.nodes[k].kind := by
    rw [kind?, node?, Array.getElem?_eq_getElem hlt, Option.map_some]
  cases hkind : t.nodes[k].kind with
  | leaf e' => rw [hsome, hkind, ← hk, h.leaf k e' (hkind ▸ hsome)]
  | aggregate id slots =>
    obtain ⟨slots', hk'⟩ := h.aggregate k id slots (hkind ▸ hsome)
    cases hk'.symm.trans hk

end KeepsNodes

/-- Nodes have been put into empty slots. -/
structure GrowsTo (t t' : Tree R) : Prop extends t.KeepsNodes t' where
  /-- Filled slots stay as they are. -/
  child : ∀ n field c, t.child? n field = some c → t'.child? n field = some c
  /-- Empty slots are filled with new nodes. -/
  new : ∀ n field c, n < t.size → t.child? n field = none → t'.child? n field = some c → t.size ≤ c

namespace GrowsTo

lemma refl (t : Tree R) : t.GrowsTo t where
  toKeepsNodes := .refl t
  child _ _ _ h := h
  new _ _ _ _ hnone hsome := nomatch hnone.symm.trans hsome

lemma trans (h : t.GrowsTo t') (h' : t'.GrowsTo t'') : t.GrowsTo t'' where
  toKeepsNodes := h.toKeepsNodes.trans h'.toKeepsNodes
  child n field c hc := h'.child n field c (h.child n field c hc)
  new n field c hn hnone hsome := by
    cases hc : t'.child? n field with
    | none => exact h.size_le.trans (h'.new n field c (hn.trans_le h.size_le) hc hsome)
    | some c' =>
      obtain rfl := Option.some.inj ((h'.child n field c' hc).symm.trans hsome)
      exact h.new n field c' hn hnone hc

/-- The nodes below a node stay below it. -/
lemma below? (h : t.GrowsTo t') (hk : t.below? n fs = some k) : t'.below? n fs = some k := by
  induction fs generalizing n with
  | nil => exact hk
  | cons field fs ih =>
    rw [below?_cons] at hk ⊢
    obtain ⟨c, hc, hk⟩ := Option.bind_eq_some_iff.1 hk
    rw [h.child n field c hc]
    exact ih hk

/-- An old node is found where it was before. -/
lemma below?_of_lt (h : t.GrowsTo t') (ht' : t'.IsArena m) (hk : t'.below? n fs = some k)
    (hlt : k < t.size) : t.below? n fs = some k := by
  induction fs using List.reverseRecOn generalizing k with
  | nil => exact hk
  | append_singleton fs f ih =>
    rw [below?_append_singleton] at hk ⊢
    obtain ⟨p, hp, hchild⟩ := Option.bind_eq_some_iff.1 hk
    have hpk := ht'.lt_child p f k hchild
    rw [ih hp (hpk.trans hlt), Option.bind_some]
    cases hc : t.child? p f with
    | none => exact absurd (h.new p f k (hpk.trans hlt) hc hchild) hlt.not_ge
    | some c => rw [← hchild, h.child p f c hc]

end GrowsTo

/-! ## New trees -/

lemma kind?_new : (new m id).kind? n = if n = 0 then some (m.aggregateNode id) else none := by
  rw [kind?, node?, new]
  cases n <;> simp

lemma kind?_new_zero : (new m id).kind? 0 = some (m.aggregateNode id) := rfl

/-- A new node for an aggregate has no nodes in its slots. -/
lemma child?_aggregateNode (h : t.kind? n = some (m.aggregateNode id)) :
    t.child? n field = none := by
  rw [child?_aggregate h, Option.join_eq_none_iff]
  rcases lt_or_ge field (m.structWidth id) with hlt | hge
  · exact .inr (List.getElem?_replicate_of_lt hlt)
  · exact .inl (List.getElem?_eq_none (by rwa [List.length_replicate]))

lemma child?_new : (new m id).child? n field = none := by
  by_cases hn : n = 0
  · exact child?_aggregateNode (by rw [kind?_new, if_pos hn])
  · rw [child?, kind?_new, if_neg hn]

lemma isArena_new (m : Module R) (id : StructId) : (new m id).IsArena m := by
  refine ⟨fun n id' slots h => ?_, fun n field c h => ?_, fun n field c h => ?_,
    fun n i j c h => ?_, fun n id' slots field c _ h => ?_⟩
  · rw [kind?_new] at h
    split at h
    · cases h
      exact List.length_replicate
    · cases h
  all_goals rw [child?_new] at h; cases h

end Tree

/-! ## Adding a node -/

namespace NodeKind.IsFresh

variable {t : Tree R} {n : NodeId} {field : ℕ} {kind : NodeKind R}

/-- A node with no nodes below it has empty slots. -/
lemma child?_eq_none (h : kind.IsFresh m ty) (hn : t.kind? n = some kind) :
    t.child? n field = none := by
  rcases h with ⟨e, rfl⟩ | ⟨inner, rfl, -⟩
  · exact Tree.child?_leaf hn
  · exact Tree.child?_aggregateNode hn

lemma fits (h : kind.IsFresh m ty) (hn : t.kind? n = some kind) : t.Fits n ty := by
  rcases h with ⟨e, rfl⟩ | ⟨inner, rfl, hty⟩
  · exact .inl ⟨e, hn⟩
  · exact .inr ⟨inner, _, hn, hty⟩

lemma length_eq (h : kind.IsFresh m ty) {slots : List (Option NodeId)}
    (hkind : kind = .aggregate id slots) : slots.length = m.structWidth id := by
  rcases h with ⟨e, rfl⟩ | ⟨inner, rfl, -⟩
  · cases hkind
  · cases hkind
    exact List.length_replicate

end NodeKind.IsFresh

namespace Tree

variable {t t' : Tree R} {n k c : NodeId} {i field : ℕ} {kind : NodeKind R}
  {slots : List (Option NodeId)}

/-- The tree `t'` has one node more than the tree `t`, in a slot of the node `n` for an aggregate. -/
structure AddsChild (t : Tree R) (n : NodeId) (id : StructId) (slots : List (Option NodeId))
    (field : ℕ) (kind : NodeKind R) (t' : Tree R) : Prop where
  /-- There is one node more. -/
  size_eq : t'.size = t.size + 1
  /-- It is the last one. -/
  kind_last : t'.kind? t.size = some kind
  /-- It names the aggregate as its parent. -/
  parent_last : t'.parent? t.size = some n
  /-- The aggregate has been there. -/
  kind_above : t.kind? n = some (.aggregate id slots)
  /-- The new node fills a slot of the aggregate. -/
  kind_filled : t'.kind? n = some (.aggregate id (slots.set field (some t.size)))
  /-- The other nodes are what they were. -/
  kind_old : ∀ k ≠ n, k ≠ t.size → t'.kind? k = t.kind? k
  /-- The nodes have the parents that they had. -/
  parent_old : ∀ k < t.size, t'.parent? k = t.parent? k

lemma exists_addsChild (hn : t.kind? n = some (.aggregate id slots)) (hfield : field < slots.length)
    (kind : NodeKind R) : ∃ t', t.addChild n field kind = some (t.size, t') ∧
      AddsChild t n id slots field kind t' := by
  obtain ⟨⟨above, _⟩, hnode, rfl⟩ := Option.map_eq_some_iff.1 hn
  obtain ⟨t', hadd, habove, hlast, hsize, hkept⟩ := exists_addChild hnode hfield kind
  refine ⟨t', hadd, hsize, kind?_of_node? hlast, ?_, hn, kind?_of_node? habove,
    fun k hkn hks => ?_, fun k hk => ?_⟩
  · rw [parent?, hlast, Option.bind_some]
  · rcases hks.lt_or_gt with hk | hk
    · rw [kind?, hkept k hk hkn, kind?]
    · rw [kind?_eq_none hk.le, kind?_eq_none (hsize ▸ hk)]
  · by_cases hkn : k = n
    · rw [hkn, parent?, habove, parent?, hnode, Option.bind_some, Option.bind_some]
    · rw [parent?, hkept k hk hkn, parent?]

namespace AddsChild

lemma lt_size (h : AddsChild t n id slots field kind t') : n < t.size :=
  lt_size_of_kind? h.kind_above

lemma child?_eq (h : AddsChild t n id slots field kind t') (hfield : field < slots.length)
    (hkind : kind.IsFresh m ty) (k : NodeId) (i : ℕ) :
    t'.child? k i = if k = n ∧ i = field then some t.size else t.child? k i := by
  by_cases hkn : k = n
  · subst hkn
    rw [child?_aggregate h.kind_filled, child?_aggregate h.kind_above]
    by_cases hi : i = field
    · rw [if_pos ⟨rfl, hi⟩, hi, List.getElem?_set_self hfield, Option.join_some]
    · rw [if_neg fun h => hi h.2, List.getElem?_set_ne (Ne.symm hi)]
  · rw [if_neg fun h => hkn h.1]
    by_cases hk : k = t.size
    · rw [hk, hkind.child?_eq_none h.kind_last, child?, kind?_eq_none le_rfl]
    · exact child?_congr (h.kind_old k hkn hk)

/-- A filled slot is the new one, or it was filled before. -/
lemma new_or_old (h : AddsChild t n id slots field kind t') (ht : t.IsArena m)
    (hfield : field < slots.length) (hkind : kind.IsFresh m ty) (hc : t'.child? k i = some c) :
    k = n ∧ i = field ∧ c = t.size ∨ t.child? k i = some c ∧ c < t.size := by
  rw [h.child?_eq hfield hkind] at hc
  split at hc
  · next heq => exact .inl ⟨heq.1, heq.2, (Option.some.inj hc).symm⟩
  · exact .inr ⟨hc, ht.lt_size_of_child? hc⟩

lemma keepsNodes (h : AddsChild t n id slots field kind t') : t.KeepsNodes t' where
  size_le := h.size_eq ▸ t.size.le_succ
  leaf k e hk := by
    rw [h.kind_old k _ (lt_size_of_kind? hk).ne, hk]
    rintro rfl
    cases h.kind_above.symm.trans hk
  aggregate k id' slots' hk := by
    by_cases hkn : k = n
    · subst hkn
      cases h.kind_above.symm.trans hk
      exact ⟨_, h.kind_filled⟩
    · exact ⟨slots', by rw [h.kind_old k hkn (lt_size_of_kind? hk).ne, hk]⟩

lemma growsTo (h : AddsChild t n id slots field kind t') (ht : t.IsArena m)
    (hempty : t.child? n field = none) (hfield : field < slots.length)
    (hkind : kind.IsFresh m ty) : t.GrowsTo t' where
  toKeepsNodes := h.keepsNodes
  child k i c hc := by
    rw [h.child?_eq hfield hkind, if_neg, hc]
    rintro ⟨rfl, rfl⟩
    cases hempty.symm.trans hc
  new k i c _ hnone hc := by
    rcases h.new_or_old ht hfield hkind hc with ⟨-, -, rfl⟩ | ⟨hold, -⟩
    · exact le_rfl
    · cases hnone.symm.trans hold

/-- A new node has a slot for every field of its type, and the others keep theirs. -/
lemma length_eq (h : AddsChild t n id slots field kind t') (hkind : kind.IsFresh m ty)
    (hlength : ∀ k id slots, t.kind? k = some (.aggregate id slots) →
      slots.length = m.structWidth id)
    {id' : StructId} {slots' : List (Option NodeId)}
    (hk : t'.kind? k = some (.aggregate id' slots')) : slots'.length = m.structWidth id' := by
  by_cases hkn : k = n
  · subst hkn
    cases h.kind_filled.symm.trans hk
    rw [List.length_set, hlength k id slots h.kind_above]
  · by_cases hks : k = t.size
    · exact hkind.length_eq (Option.some.inj (h.kind_last.symm.trans (hks ▸ hk)))
    · exact hlength k id' slots' ((h.kind_old k hkn hks).symm.trans hk)

/-- **An arena stays one if a node is put into a slot.** -/
theorem isArena (h : AddsChild t n id slots field kind t') (ht : t.IsArena m)
    (hty : m.fieldType? id field = some ty) (hkind : kind.IsFresh m ty) : t'.IsArena m := by
  have hfield : field < slots.length :=
    ht.length_eq n id slots h.kind_above ▸ Module.lt_structWidth hty
  refine ⟨fun k id' slots' hk => h.length_eq hkind ht.length_eq hk, fun k i c hc => ?_,
    fun k i c hc => ?_, fun k i j c hi hj => ?_, fun k id' slots' i c hk hc => ?_⟩
  · rcases h.new_or_old ht hfield hkind hc with ⟨rfl, -, rfl⟩ | ⟨hold, -⟩
    · exact h.lt_size
    · exact ht.lt_child k i c hold
  · rcases h.new_or_old ht hfield hkind hc with ⟨rfl, -, rfl⟩ | ⟨hold, hlt⟩
    · exact h.parent_last
    · rw [h.parent_old c hlt, ht.parent_child k i c hold]
  · rcases h.new_or_old ht hfield hkind hi with ⟨rfl, rfl, rfl⟩ | ⟨hi', hlt⟩ <;>
      rcases h.new_or_old ht hfield hkind hj with ⟨-, rfl, hc⟩ | ⟨hj', hlt'⟩
    · rfl
    · exact absurd hlt' (lt_irrefl _)
    · exact absurd hc hlt.ne
    · exact ht.slot_eq k i j c hi' hj'
  · rcases h.new_or_old ht hfield hkind hc with ⟨rfl, rfl, rfl⟩ | ⟨hold, hlt⟩
    · cases h.kind_filled.symm.trans hk
      exact ⟨ty, hty, hkind.fits h.kind_last⟩
    · -- the aggregate has been there, with the same type
      obtain ⟨old, oldSlots, hkold, -⟩ := child?_eq_some_iff.1 hold
      obtain ⟨newSlots, hknew⟩ := h.keepsNodes.aggregate k old oldSlots hkold
      cases hknew.symm.trans hk
      obtain ⟨ty, hty, hfits⟩ := ht.fits_child k _ oldSlots i c hkold hold
      exact ⟨ty, hty, h.keepsNodes.fits hfits⟩

end AddsChild

end Tree

end Roundoff
