/-
# What holds of the estimates of fields

The trees of aggregate objects keep estimates in their leaves.  A change of a tree makes leaves with
an estimate that is set or annotated, or with one that says nothing, and leaves the others as they
are.  So what holds of these goes on to hold of the estimates of all fields.

In particular this is the case of well-formed estimates: the bounds of the range are in order and
the error is well formed.
-/
import Mathlib
import Roundoff.Aggregate.Objects
import Roundoff.Proofs.Affine.WellFormed
import Roundoff.Proofs.Range
import Roundoff.Proofs.Store.Sorted
import Roundoff.Proofs.Transfer.Computation

namespace Roundoff

section Leaves

variable {R : Type} {m : Module R} {P : Estimate R → Prop} {e : Estimate R}

/-- The annotation of a scalar occurs in an annotation. -/
inductive ValueInfo.Mentions (s : ScalarInfo R) : ValueInfo R → Prop
  /-- It is the annotation itself. -/
  | scalar : Mentions s (.scalar s)
  /-- It occurs in the annotation of a field. -/
  | field {infos : List (Option (ValueInfo R))} {info : ValueInfo R} (hinfo : some info ∈ infos)
    (h : Mentions s info) : Mentions s (.struct infos)

/-- What is wanted of an estimate over the symbols drawn so far is not lost when more are drawn. -/
def Estimate.Lasts (P : Estimate R → Symbol → Prop) : Prop := ∀ e n n', n ≤ n' → P e n → P e n'

/-! ## Trees -/

namespace Tree

variable {t t' : Tree R} {id child parent : NodeId} {field : ℕ}

/-- The estimates of all scalars are as wanted. -/
def All (P : Estimate R → Prop) (t : Tree R) : Prop := ∀ e ∈ t.leaves, P e

lemma mem_leaves : e ∈ t.leaves ↔ ∃ above, (⟨above, .leaf e⟩ : Node R) ∈ t.nodes := by
  rw [leaves, List.mem_filterMap]
  constructor
  · rintro ⟨⟨above, kind⟩, hnode, hkind⟩
    cases kind with
    | leaf e' =>
      cases hkind
      exact ⟨above, Array.mem_toList_iff.1 hnode⟩
    | aggregate ty fields => cases hkind
  · rintro ⟨above, hnode⟩
    exact ⟨_, Array.mem_toList_iff.2 hnode, rfl⟩

lemma all_new (m : Module R) (ty : StructId) : (new m ty).All P := by
  intro e he
  obtain ⟨above, hnode⟩ := mem_leaves.1 he
  rw [new, Array.mem_singleton] at hnode
  cases hnode

lemma aggregateNode_ne_leaf {ty : StructId} : m.aggregateNode ty ≠ .leaf e := nofun

/-- What a node stands for is as wanted if it is an aggregate or a scalar with such an estimate. -/
lemma All.addChild (ht : t.All P) {kind : NodeKind R} (hkind : ∀ e, kind = .leaf e → P e)
    (h : t.addChild parent field kind = some (child, t')) : t'.All P := by
  rw [Tree.addChild] at h
  split at h
  · split at h
    · cases h
      intro e he
      obtain ⟨above, hnode⟩ := mem_leaves.1 he
      rcases Array.mem_push.1 hnode with hnode | hnode
      · rcases Array.mem_or_eq_of_mem_setIfInBounds hnode with hnode | hnode
        · exact ht e (mem_leaves.2 ⟨above, hnode⟩)
        · cases hnode
      · cases hnode
        exact hkind e rfl
    · cases h
  · cases h

lemma mem_leaves_of_kind? (h : t.kind? id = some (.leaf e)) : e ∈ t.leaves := by
  obtain ⟨⟨above, kind⟩, hnode, hkind⟩ := Option.map_eq_some_iff.1 h
  cases hkind
  exact mem_leaves.2 ⟨above, Array.mem_of_getElem? hnode⟩

lemma mem_leaves_of_find? {skip : ℕ} {path : List PathIndex}
    (h : find? m t id skip path = some e) : e ∈ t.leaves := by
  induction path generalizing id skip with
  | nil =>
    rw [find?] at h
    split at h
    · next hkind =>
      cases h
      exact mem_leaves_of_kind? hkind
    · cases h
  | cons step path ih =>
    unfold find? at h
    split at h
    · cases h
    · next hkind =>
      cases h
      exact mem_leaves_of_kind? hkind
    · exact ih h
    · cases h
    · split at h
      · exact ih h
      · cases h

lemma All.mapLeaves {Q : Estimate R → Prop} (ht : t.All P) {f : Estimate R → Estimate R}
    (hf : ∀ e, P e → Q (f e)) : (t.mapLeaves f).All Q := by
  intro e he
  obtain ⟨above, hnode⟩ := mem_leaves.1 he
  obtain ⟨⟨above', kind⟩, hmem, heq⟩ := Array.mem_map.1 hnode
  cases kind with
  | leaf e' =>
    cases heq
    exact hf e' (ht e' (mem_leaves.2 ⟨above', hmem⟩))
  | aggregate ty fields => cases heq

variable [Number R]

/-- A node that is made on the way is an aggregate, or a scalar of which nothing is known. -/
lemma All.locate (ht : t.All P) (hunknown : P Estimate.unknown) (id : NodeId) (skip : ℕ)
    (path : List PathIndex) : (locate m t id skip path).2.All P := by
  induction path generalizing t id skip with
  | nil =>
    rw [Tree.locate]
    split <;> exact ht
  | cons step path ih =>
    unfold Tree.locate
    split
    · exact ht
    · exact ht
    · exact ih ht _ _
    · exact ht
    · split
      · exact ih ht _ _
      · next fieldTy _ _ =>
        dsimp only
        split
        · next h =>
          refine ih (ht.addChild (fun e he => ?_) h) _ _
          split at he
          · cases he
          · cases he
            exact hunknown
        · exact ht
      · exact ht

lemma All.set (ht : t.All P) (hunknown : P Estimate.unknown) (he : P e) (path : List PathIndex) :
    (t.set m path e).2.All P := by
  have hlocate := ht.locate (m := m) hunknown 0 0 path
  rw [Tree.set]
  generalize Tree.locate m t 0 0 path = r at hlocate ⊢
  obtain ⟨o, t'⟩ := r
  cases o with
  | none => exact hlocate
  | some id =>
    dsimp only at hlocate ⊢
    split
    · intro e' he'
      obtain ⟨above, hnode⟩ := mem_leaves.1 he'
      rcases Array.mem_or_eq_of_mem_setIfInBounds hnode with hnode | hnode
      · exact hlocate e' (mem_leaves.2 ⟨above, hnode⟩)
      · cases hnode
        exact he
    · exact hlocate

/-! ### Annotations -/

section Seed

variable {P : Estimate R → Symbol → Prop}

mutual

lemma All.attains_seedField (hP : Estimate.Lasts P) {t : Tree R} {n : Symbol}
    (ht : t.All fun e => P e n) (m : Module R) (ty : StructId) (parent : NodeId) (field : ℕ) :
    ∀ info : ValueInfo R, (∀ s, info.Mentions s → ∀ n, Fresh.Attains n (annotated s) P) →
      Fresh.Attains n (seedField m ty parent field t info) fun t' n' => t'.All fun e => P e n'
  | .scalar info, hinfo => by
    rw [seedField]
    split
    · exact Fresh.attains_pure ht
    · refine (hinfo info .scalar n).bind fun e n' hn he => Fresh.attains_pure ?_
      have ht : t.All fun e => P e n' := fun e he => hP e n n' hn (ht e he)
      split
      · next h => exact ht.addChild (fun e' he' => NodeKind.leaf.inj he' ▸ he) h
      · exact ht
  | .struct infos, hinfo => by
    rw [seedField]
    split
    · split
      · next h =>
        exact All.attains_seedFields hP
          (ht.addChild (fun _ he => absurd he aggregateNode_ne_leaf) h) m _ _ 0 infos
          fun info hmem s hs => hinfo s (.field hmem hs)
      · exact Fresh.attains_pure ht
    · exact Fresh.attains_pure ht

lemma All.attains_seedFields (hP : Estimate.Lasts P) {t : Tree R} {n : Symbol}
    (ht : t.All fun e => P e n) (m : Module R) (ty : StructId) (parent : NodeId) (field : ℕ) :
    ∀ infos : List (Option (ValueInfo R)),
      (∀ info, some info ∈ infos → ∀ s, info.Mentions s →
        ∀ n, Fresh.Attains n (annotated s) P) →
      Fresh.Attains n (seedFields m ty parent field t infos) fun t' n' => t'.All fun e => P e n'
  | [], _ => by
    rw [seedFields]
    exact Fresh.attains_pure ht
  | none :: infos, hinfos => by
    rw [seedFields]
    exact All.attains_seedFields hP ht m ty parent _ infos
      fun info hinfo => hinfos info (List.mem_cons_of_mem _ hinfo)
  | some info :: infos, hinfos => by
    rw [seedFields]
    exact (All.attains_seedField hP ht m ty parent field info
      (hinfos info List.mem_cons_self)).bind fun t' n' _ ht' =>
        All.attains_seedFields hP ht' m ty parent _ infos
          fun info hinfo => hinfos info (List.mem_cons_of_mem _ hinfo)

end

end Seed

end Tree

/-! ## Objects -/

namespace Objects

variable {o other : Objects R} {f caller : Function R} {pointer : Value R}

/-- The estimates of all fields are as wanted. -/
def All (P : Estimate R → Prop) (o : Objects R) : Prop := o.trees.All fun _ t => t.All P

lemma all_empty : (empty : Objects R).All P := Table.all_empty

lemma All.mono {Q : Estimate R → Prop} (ho : o.All P) (h : ∀ e, P e → Q e) : o.All Q :=
  Table.All.mono ho fun _ _ ht e he => h e (ht e he)

lemma All.takeBack (ho : o.All P) (hother : other.All P) (m : Module R) (caller : Function R)
    (args : List (Value R)) : (o.takeBack other m caller args).All P := by
  rw [Objects.takeBack]
  refine List.foldlRecOn (motive := fun o : Objects R => o.All P) _ _ ho fun o ho v _ => ?_
  rw [takeBackArgument]
  split
  · split
    · exact ho
    · split
      · next h => exact Table.All.insert ho (Table.All.get? hother h)
      · exact ho
  · exact ho

lemma All.mergeGlobals (ho : o.All P) (hother : other.All P) : (o.mergeGlobals other).All P :=
  Table.All.update ho (Table.All.filterKeys hother _)

lemma All.eraseLocals (ho : o.All P) (f : Function R) : (o.eraseLocals f).All P :=
  Table.All.filterKeys ho _

/-- Binding formal parameters leaves the trees as they are. -/
lemma trees_bindArguments (o : Objects R) (m : Module R) (caller callee : Function R)
    (args : List (Value R)) : (o.bindArguments m caller callee args).trees = o.trees := by
  rw [bindArguments]
  dsimp only
  generalize (callee.params.toList.zip args).zipIdx.map _ = params
  induction params generalizing o with
  | nil => rfl
  | cons p params ih =>
    rw [List.foldl_cons, ih, bindArgument]
    split
    · rfl
    · split <;> rfl

lemma All.getField? (ho : o.All P) (h : o.getField? m f pointer = some e) : P e := by
  obtain ⟨path, -, h⟩ := Option.bind_eq_some_iff.1 h
  obtain ⟨t, ht, h⟩ := Option.bind_eq_some_iff.1 h
  exact Table.All.get? ho ht e (Tree.mem_leaves_of_find? h)

variable [Number R]

lemma All.zeroed (ho : o.All P) (h : ∀ e, P e → P e.zeroed) : o.zeroed.All P :=
  Table.All.map ho fun _ _ ht => ht.mapLeaves h

lemma All.setField (ho : o.All P) (hunknown : P Estimate.unknown) (he : P e) :
    (o.setField m f pointer e).2.All P := by
  rw [Objects.setField]
  split
  · exact ho
  · next path _ =>
    refine Table.All.insert ho (Tree.All.set ?_ hunknown he _)
    cases h : o.trees.get? path.root with
    | none => exact Tree.all_new m path.ty
    | some t => exact Table.All.get? ho h

/-- The tree of an annotated aggregate keeps what its annotations say. -/
lemma All.attains_seed {P : Estimate R → Symbol → Prop} (hP : Estimate.Lasts P) {n : Symbol}
    (ho : o.All fun e => P e n) (m : Module R) (root : Key) (ty : StructId)
    {infos : List (Option (ValueInfo R))}
    (hinfos : ∀ s, (ValueInfo.struct infos).Mentions s →
      ∀ n, Fresh.Attains n (Tree.annotated s) P) :
    Fresh.Attains n (o.seed m root ty infos) fun o' n' => o'.All fun e => P e n' :=
  (Tree.All.attains_seedFields hP (Tree.all_new m ty) m ty 0 0 infos
    fun _ hinfo s hs => hinfos s (.field hinfo hs)).bind fun _ n' hn ht =>
      Fresh.attains_pure (Table.All.insert (ho.mono fun e he => hP e n n' hn he) ht)

end Objects

end Leaves

section WellFormed

variable {n n' : Symbol} {m : Module ℝ}

/-! ## Well-formed estimates -/

/-- The bounds of the range are in order, and the error is well formed, over symbols below `n`. -/
structure Estimate.IsWellFormed (e : Estimate ℝ) (n : Symbol) : Prop where
  /-- The bounds are in order. -/
  lo_le_hi : e.range.lo ≤ e.range.hi
  /-- The error is well formed, if there is data about it. -/
  error : ∀ f, e.error = some f → f.IsWellFormed n

namespace Estimate

variable {e : Estimate ℝ}

lemma IsWellFormed.mono (he : e.IsWellFormed n) (hn : n ≤ n') : e.IsWellFormed n' :=
  ⟨he.lo_le_hi, fun f hf => (he.error f hf).mono hn⟩

lemma isWellFormed_unknown : (unknown : Estimate ℝ).IsWellFormed n := ⟨le_rfl, nofun⟩

lemma IsWellFormed.withError (he : e.IsWellFormed n) {f : Affine ℝ} (hf : f.IsWellFormed n) :
    ({ e with error := some f } : Estimate ℝ).IsWellFormed n :=
  ⟨he.lo_le_hi, fun _ h => Option.some.inj h ▸ hf⟩

lemma IsWellFormed.withRange (he : e.IsWellFormed n) {r : Range ℝ} (hr : r.lo ≤ r.hi) :
    ({ e with range := r } : Estimate ℝ).IsWellFormed n := ⟨hr, he.error⟩

end Estimate

lemma ScalarInfo.attains_error? (info : ScalarInfo ℝ) :
    Fresh.Attains n info.error? fun o n' => ∀ f, o = some f → f.IsWellFormed n' := by
  rw [error?]
  cases info.initialError with
  | none => exact Fresh.attains_pure nofun
  | some x =>
    refine (Affine.attains_withError x).bind fun f n' _ hf => Fresh.attains_pure fun g hg => ?_
    cases hg
    exact hf

/-! ### In trees -/

namespace Tree

variable {t : Tree ℝ}

/-- The estimates of all scalars are well formed. -/
def IsWellFormed (t : Tree ℝ) (n : Symbol) : Prop := ∀ e ∈ t.leaves, e.IsWellFormed n

lemma attains_annotated (info : ScalarInfo ℝ) :
    Fresh.Attains n (annotated info) fun e n' => e.IsWellFormed n' := by
  refine info.attains_error?.bind fun o n' _ ho => Fresh.attains_pure ⟨?_, ho⟩
  cases h : info.range? with
  | none => exact le_rfl
  | some r => exact info.lo_le_hi_range? h

end Tree

/-! ### Of objects -/

namespace Objects

variable {o : Objects ℝ} {f : Function ℝ} {e : Estimate ℝ} {pointer : Value ℝ}

/-- The estimates of all fields are well formed. -/
def IsWellFormed (o : Objects ℝ) (n : Symbol) : Prop := o.trees.All fun _ t => t.IsWellFormed n

lemma isWellFormed_iff_all : o.IsWellFormed n ↔ o.All fun e => e.IsWellFormed n := Iff.rfl

lemma IsWellFormed.attains_seed (ho : o.IsWellFormed n) (m : Module ℝ) (root : Key) (ty : StructId)
    (infos : List (Option (ValueInfo ℝ))) :
    Fresh.Attains n (o.seed m root ty infos) fun o' n' => o'.IsWellFormed n' :=
  (isWellFormed_iff_all.1 ho).attains_seed (fun _ _ _ hn he => he.mono hn) m root ty
    fun info _ _ => Tree.attains_annotated info

lemma IsWellFormed.setField (ho : o.IsWellFormed n) (he : e.IsWellFormed n) :
    (o.setField m f pointer e).2.IsWellFormed n :=
  (isWellFormed_iff_all.1 ho).setField Estimate.isWellFormed_unknown he

end Objects

end WellFormed

end Roundoff
