/-
# Updates of the fields of an aggregate

A new estimate for the scalar at the end of a path is found for exactly the paths that reach the
same scalar, and nothing changes for the others.  Where a path leads to no scalar, an update changes
no estimate, though there may be more nodes than before.
-/
import Mathlib
import Roundoff.Proofs.Aggregate.Exploration
import Roundoff.Proofs.Number.Exact

namespace Roundoff

variable {R : Type} {m : Module R} {ty : Ty} {id : StructId} {path : List PathIndex}

namespace Tree

variable {t t' t'' : Tree R} {n l k : NodeId} {fs : List ℕ} {e : Estimate R} {o : Option NodeId}
  {slots : List (Option NodeId)}

/-! ## Another estimate for a scalar -/

/-- The scalar `l` has another estimate in the tree `t'`. -/
structure SetsLeaf (t : Tree R) (l : NodeId) (e : Estimate R) (t' : Tree R) : Prop where
  /-- The node has been a scalar. -/
  was_leaf : (t.leaf? l).isSome
  /-- It has the new estimate. -/
  kind_set : t'.kind? l = some (.leaf e)
  /-- The other nodes are what they were. -/
  kind_old : ∀ k ≠ l, t'.kind? k = t.kind? k
  /-- The nodes have the parents that they had. -/
  parent_old : ∀ k, t'.parent? k = t.parent? k

namespace SetsLeaf

lemma child?_eq (h : SetsLeaf t l e t') (k : NodeId) (field : ℕ) :
    t'.child? k field = t.child? k field := by
  by_cases hk : k = l
  · obtain ⟨old, hold⟩ := Option.isSome_iff_exists.1 h.was_leaf
    rw [hk, child?_leaf h.kind_set, child?_leaf (leaf?_eq_some_iff.1 hold)]
  · exact child?_congr (h.kind_old k hk)

lemma below?_eq (h : SetsLeaf t l e t') (fs : List ℕ) : t'.below? n fs = t.below? n fs := by
  rw [below?, below?, funext₂ h.child?_eq]

lemma kind?_aggregate (h : SetsLeaf t l e t') :
    t'.kind? k = some (.aggregate id slots) ↔ t.kind? k = some (.aggregate id slots) := by
  by_cases hk : k = l
  · obtain ⟨old, hold⟩ := Option.isSome_iff_exists.1 h.was_leaf
    rw [hk, h.kind_set, leaf?_eq_some_iff.1 hold]
    simp
  · rw [h.kind_old k hk]

lemma fits (h : SetsLeaf t l e t') (hk : t.Fits k ty) : t'.Fits k ty := by
  rcases hk with ⟨old, hk⟩ | ⟨id, slots, hk, hty⟩
  · by_cases hkl : k = l
    · exact .inl ⟨e, hkl ▸ h.kind_set⟩
    · exact .inl ⟨old, (h.kind_old k hkl).trans hk⟩
  · exact .inr ⟨id, slots, h.kind?_aggregate.2 hk, hty⟩

lemma isArena (h : SetsLeaf t l e t') (ht : t.IsArena m) : t'.IsArena m where
  length_eq k id slots hk := ht.length_eq k id slots (h.kind?_aggregate.1 hk)
  lt_child k field c hc := ht.lt_child k field c (h.child?_eq k field ▸ hc)
  parent_child k field c hc := by
    rw [h.parent_old, ht.parent_child k field c (h.child?_eq k field ▸ hc)]
  slot_eq k i j c hi hj :=
    ht.slot_eq k i j c (h.child?_eq k i ▸ hi) (h.child?_eq k j ▸ hj)
  fits_child k id slots field c hk hc := by
    obtain ⟨ty, hty, hfits⟩ :=
      ht.fits_child k id slots field c (h.kind?_aggregate.1 hk) (h.child?_eq k field ▸ hc)
    exact ⟨ty, hty, h.fits hfits⟩

/-- The estimate changes for one list of fields only. -/
lemma estimateAt?_eq (h : SetsLeaf t l e t') (ht : t.IsArena m) (hfs : t.below? 0 fs = some l)
    (gs : List ℕ) : t'.estimateAt? gs = if gs = fs then some e else t.estimateAt? gs := by
  split
  · next heq =>
    rw [heq, estimateAt?_of_below? (h.below?_eq fs ▸ hfs), leaf?_eq_some_iff.2 h.kind_set]
  · next hne =>
    rw [estimateAt?, estimateAt?, h.below?_eq]
    refine Option.bind_congr fun k hk => ?_
    have hkl : k ≠ l := fun heq => hne (ht.below?_inj (heq ▸ hk) hfs)
    rw [leaf?, leaf?, h.kind_old k hkl]

end SetsLeaf

/-! ## What an update leaves -/

/-- What an update of the tree `t` for a path leaves: whether there is a scalar at the end of the
path, and the tree `t'` in which the scalar has the estimate `e`. -/
structure IsUpdate (m : Module R) (id : StructId) (t : Tree R) (path : List PathIndex)
    (e : Estimate R) (ok : Bool) (t' : Tree R) : Prop where
  /-- The path leads to a scalar of the type, or to a scalar that there has been before. -/
  ok_iff : ok = true ↔ m.SelectsScalar (.struct id) path ∨ (t.get? m path).isSome
  /-- The new estimate is found for the path. -/
  get?_self : ok = true → t'.get? m path = some e
  /-- It is found for the paths that reach the same scalar. -/
  get?_same : ok = true → ∀ path', t'.SameLeaf m path path' → t'.get? m path' = some e
  /-- For the other paths nothing changes. -/
  get?_other : ok = true → ∀ path', ¬ t'.SameLeaf m path path' → t'.get? m path' = t.get? m path'
  /-- Without a scalar nothing changes for any path. -/
  get?_failed : ok = false → ∀ path', t'.get? m path' = t.get? m path'
  /-- Two paths reach the same scalar if and only if they select the same fields up to it. -/
  sameLeaf_iff : ∀ p q, t'.SameLeaf m p q ↔
    ∃ fs, t'.leafFields? m id p = some fs ∧ t'.leafFields? m id q = some fs

lemma Explored.isRooted (h : Explored m (.struct id) path t 0 o t') (ht : t.IsRooted m id) :
    t'.IsRooted m id := by
  obtain ⟨slots, hroot⟩ := ht.root
  exact ⟨h.arena, h.grows.aggregate 0 id slots hroot⟩

lemma SetsLeaf.isRooted (h : SetsLeaf t l e t') (ht : t.IsRooted m id) : t'.IsRooted m id := by
  obtain ⟨slots, hroot⟩ := ht.root
  exact ⟨h.isArena ht.toIsArena, slots, h.kind?_aggregate.2 hroot⟩

/-- An update for a path that leads to no scalar. -/
lemma Explored.isUpdate_false (h : Explored m (.struct id) path t 0 none t')
    (ht : t.IsRooted m id) (e : Estimate R) : IsUpdate m id t path e false t' where
  ok_iff := by
    rw [ht.isSome_get?]
    exact h.isSome_iff
  get?_self := nofun
  get?_same := nofun
  get?_other := nofun
  get?_failed _ path' := ht.get?_congr (h.isRooted ht) fun fs _ => h.estimateAt?_eq nofun
  sameLeaf_iff _ _ := (h.isRooted ht).sameLeaf_iff

/-- An update for a path that leads to the scalar `l`. -/
lemma Explored.isUpdate_true (h : Explored m (.struct id) path t 0 (some l) t')
    (ht : t.IsRooted m id) (hset : SetsLeaf t' l e t'') : IsUpdate m id t path e true t'' := by
  have ht' := h.isRooted ht
  have ht'' := hset.isRooted ht'
  obtain ⟨fs, hfs, hl, -⟩ := ht'.reach?_eq_some_iff.1 h.reach_eq
  -- the estimate changes for the fields that lead to the scalar
  have hestimate : ∀ gs, t''.estimateAt? gs = if gs = fs then some e else t.estimateAt? gs := by
    intro gs
    rw [hset.estimateAt?_eq ht'.toIsArena hl]
    refine ite_congr rfl (fun _ => rfl) fun hne => h.estimateAt?_eq fun k hk hgs => ?_
    exact hne (ht'.below?_inj hgs (Option.some.inj hk ▸ hl))
  have hl'' : t''.below? 0 fs = some l := by rw [hset.below?_eq, hl]
  have hreach : ∀ path', t''.reach? m 0 0 path' = some l ↔
      fs <+: m.selectedFields (.struct id) path' := fun _ =>
    ht''.reach?_eq_some_iff_isPrefix hl'' (leaf?_eq_some_iff.2 hset.kind_set)
  have hsame : ∀ path', t''.SameLeaf m path path' ↔ fs <+: m.selectedFields (.struct id) path' :=
    fun path' => by rw [sameLeaf_iff_of_reach? ((hreach path).2 hfs), hreach]
  have hget : ∀ path', fs <+: m.selectedFields (.struct id) path' → t''.get? m path' = some e :=
    fun path' hle => ht''.get?_eq_some_iff.2 ⟨fs, hle, by rw [hestimate, if_pos rfl]⟩
  refine ⟨?_, fun _ => hget path hfs, fun _ path' h => hget path' ((hsame path').1 h),
    fun _ path' h => ht.get?_congr ht'' fun gs hgs => ?_, nofun, fun _ _ => ht''.sameLeaf_iff⟩
  · rw [ht.isSome_get?]
    exact iff_of_true rfl (h.isSome_iff.1 rfl)
  · rw [hestimate, if_neg]
    rintro rfl
    exact h ((hsame path').2 hgs)

variable [Number R]

/-! ## Updates -/

/-- A search that finds no scalar is all that happens. -/
lemma set_of_locate_none (h : locate m t 0 0 path = (none, t')) : t.set m path e = (false, t') := by
  rw [set, h]

/-- The scalar that is found gets the new estimate. -/
lemma exists_setsLeaf (h : locate m t 0 0 path = (some l, t')) (hl : (t'.leaf? l).isSome)
    (e : Estimate R) : ∃ t'', t.set m path e = (true, t'') ∧ SetsLeaf t' l e t'' := by
  obtain ⟨old, hold⟩ := Option.isSome_iff_exists.1 hl
  obtain ⟨⟨above, _⟩, hnode, rfl⟩ := Option.map_eq_some_iff.1 (leaf?_eq_some_iff.1 hold)
  have hlt : l < t'.nodes.size := (Array.getElem?_eq_some_iff.1 hnode).1
  refine ⟨_, by simp only [set, h, hnode]; rfl, hl, ?_, fun k hk => ?_, fun k => ?_⟩
  · simp [kind?, node?, hlt]
  · simp [kind?, node?, hk.symm]
  · rw [parent?, parent?]
    by_cases hk : k = l
    · rw [hk, hnode]
      simp [node?, hlt]
    · simp [node?, Ne.symm hk]

/-- **An update is one of a scalar, or nothing changes.** -/
theorem IsRooted.isUpdate_set (ht : t.IsRooted m id) (path : List PathIndex) (e : Estimate R) :
    (t.set m path e).2.IsRooted m id ∧
      IsUpdate m id t path e (t.set m path e).1 (t.set m path e).2 := by
  have h : Explored m (.struct id) path t 0 (locate m t 0 0 path).1 (locate m t 0 0 path).2 :=
    explored_locate ht.toIsArena ht.fits
  generalize hlocate : locate m t 0 0 path = r at h
  obtain ⟨o, t'⟩ := r
  cases o with
  | none =>
    rw [set_of_locate_none hlocate]
    exact ⟨h.isRooted ht, h.isUpdate_false ht e⟩
  | some l =>
    obtain ⟨fs, -, -, hleaf⟩ := (h.isRooted ht).reach?_eq_some_iff.1 h.reach_eq
    obtain ⟨t'', heq, hset⟩ := exists_setsLeaf hlocate hleaf e
    rw [heq]
    exact ⟨hset.isRooted (h.isRooted ht), h.isUpdate_true ht hset⟩

/-! ## Annotations -/

/-- The annotation of a scalar is ignored if there is no such field, or it gives the field a leaf. -/
lemma seedField_scalar (ht : t.IsArena m) {slots : List (Option NodeId)}
    (hn : t.kind? n = some (.aggregate id slots)) (field : ℕ) (info : ScalarInfo R) (s : Symbol) :
    (m.fieldType? id field = none ∧ seedField m id n field t (.scalar info) s = (t, s)) ∨
      ∃ ty t', m.fieldType? id field = some ty ∧ field < slots.length ∧
        (NodeKind.leaf (annotated info s).1).IsFresh m ty ∧
        AddsChild t n id slots field (.leaf (annotated info s).1) t' ∧
        seedField m id n field t (.scalar info) s = (t', (annotated info s).2) := by
  rw [seedField]
  cases hty : m.fieldType? id field with
  | none => exact .inl ⟨rfl, rfl⟩
  | some ty =>
    have hfield : field < slots.length := ht.length_eq n id slots hn ▸ Module.lt_structWidth hty
    obtain ⟨t', haddChild, hadd⟩ := exists_addsChild hn hfield (.leaf (annotated info s).1)
    refine .inr ⟨ty, t', rfl, hfield, .inl ⟨_, rfl⟩, hadd, ?_⟩
    dsimp only
    rw [Fresh.bind_apply, haddChild]
    rfl

/-- The annotation of an aggregate is ignored unless there is such a field, or it gives the field a
node whose fields are set up then. -/
lemma seedField_struct (ht : t.IsArena m) {slots : List (Option NodeId)}
    (hn : t.kind? n = some (.aggregate id slots)) (field : ℕ) (infos : List (Option (ValueInfo R)))
    (s : Symbol) :
    ((∀ ty, m.fieldType? id field = some ty → ty.stripArrays.IsScalar) ∧
        seedField m id n field t (.struct infos) s = (t, s)) ∨
      ∃ ty inner t', m.fieldType? id field = some ty ∧ field < slots.length ∧
        ty.stripArrays = .struct inner ∧ (m.aggregateNode inner : NodeKind R).IsFresh m ty ∧
        AddsChild t n id slots field (m.aggregateNode inner) t' ∧
        seedField m id n field t (.struct infos) s = seedFields m inner t.size 0 t' infos s := by
  rw [seedField]
  cases hty : m.fieldType? id field with
  | none => exact .inl ⟨nofun, rfl⟩
  | some ty =>
    rw [Option.map_some]
    cases hinner : ty.stripArrays with
    | struct inner =>
      have hfield : field < slots.length := ht.length_eq n id slots hn ▸ Module.lt_structWidth hty
      obtain ⟨t', haddChild, hadd⟩ := exists_addsChild hn hfield (m.aggregateNode inner)
      refine .inr ⟨ty, inner, t', rfl, hfield, hinner, .inr ⟨inner, rfl, hinner⟩, hadd, ?_⟩
      dsimp only
      rw [haddChild]
    | void | int | float | pointer | array =>
      refine .inl ⟨?_, rfl⟩
      rintro _ ⟨⟩
      rcases ty.stripArrays_struct_or_isScalar with ⟨inner, hstruct⟩ | hscalar
      · cases hstruct.symm.trans hinner
      · exact hscalar

mutual

lemma seedField_keeps {t : Tree R} {n : NodeId} {id : StructId} {slots : List (Option NodeId)}
    (ht : t.IsArena m) (hn : t.kind? n = some (.aggregate id slots)) :
    ∀ (field : ℕ) (info : ValueInfo R) (s : Symbol),
      (seedField m id n field t info s).1.IsArena m ∧
        t.KeepsNodes (seedField m id n field t info s).1
  | field, .scalar info, s => by
    obtain ⟨-, heq⟩ | ⟨ty, t', hty, -, hfresh, hadd, heq⟩ := seedField_scalar ht hn field info s
    · rw [heq]
      exact ⟨ht, .refl t⟩
    · rw [heq]
      exact ⟨hadd.isArena ht hty hfresh, hadd.keepsNodes⟩
  | field, .struct infos, s => by
    obtain ⟨-, heq⟩ | ⟨ty, inner, t', hty, -, -, hfresh, hadd, heq⟩ :=
      seedField_struct ht hn field infos s
    · rw [heq]
      exact ⟨ht, .refl t⟩
    · rw [heq]
      obtain ⟨harena, hkeeps⟩ :=
        seedFields_keeps (hadd.isArena ht hty hfresh) hadd.kind_last 0 infos s
      exact ⟨harena, hadd.keepsNodes.trans hkeeps⟩

lemma seedFields_keeps {t : Tree R} {n : NodeId} {id : StructId} {slots : List (Option NodeId)}
    (ht : t.IsArena m) (hn : t.kind? n = some (.aggregate id slots)) :
    ∀ (field : ℕ) (infos : List (Option (ValueInfo R))) (s : Symbol),
      (seedFields m id n field t infos s).1.IsArena m ∧
        t.KeepsNodes (seedFields m id n field t infos s).1
  | field, [], s => by
    rw [seedFields]
    exact ⟨ht, .refl t⟩
  | field, none :: infos, s => by
    rw [seedFields]
    exact seedFields_keeps ht hn (field + 1) infos s
  | field, some info :: infos, s => by
    rw [seedFields, Fresh.bind_apply]
    obtain ⟨ht', hkeeps⟩ := seedField_keeps ht hn field info s
    obtain ⟨slots', hn'⟩ := hkeeps.aggregate n id slots hn
    obtain ⟨ht'', hkeeps'⟩ := seedFields_keeps ht' hn' (field + 1) infos
      (seedField m id n field t info s).2
    exact ⟨ht'', hkeeps.trans hkeeps'⟩

end

lemma isRooted_ofInfo (m : Module R) (id : StructId) (infos : List (Option (ValueInfo R)))
    (s : Symbol) : (ofInfo m id infos s).1.IsRooted m id := by
  obtain ⟨ht, hkeeps⟩ := seedFields_keeps (isArena_new m id) kind?_new_zero 0 infos s
  exact ⟨ht, hkeeps.aggregate 0 id _ kind?_new_zero⟩

/-! ## Trees that come about by annotations and updates -/

/-- The tree comes about by annotations and updates. -/
inductive IsBuilt (m : Module R) (id : StructId) : Tree R → Prop
  /-- Nothing is known. -/
  | new : IsBuilt m id (new m id)
  /-- What is known has been written down. -/
  | ofInfo (infos : List (Option (ValueInfo R))) (s : Symbol) : IsBuilt m id (ofInfo m id infos s).1
  /-- An estimate has been set, or at least tried to be. -/
  | set {t : Tree R} (ht : IsBuilt m id t) (path : List PathIndex) (e : Estimate R) :
    IsBuilt m id (t.set m path e).2

lemma IsBuilt.isRooted (ht : t.IsBuilt m id) : t.IsRooted m id := by
  induction ht with
  | new => exact isRooted_new m id
  | ofInfo infos s => exact isRooted_ofInfo m id infos s
  | set _ path e ih => exact (ih.isUpdate_set path e).1

/-- **An update changes what is found for the paths that reach the scalar at the end of its path,
and for no others**, and two paths reach the same scalar if and only if they select the same fields
up to it. -/
theorem IsBuilt.isUpdate (ht : t.IsBuilt m id) (path : List PathIndex) (e : Estimate R) :
    (∀ p q, t.SameLeaf m p q ↔
      ∃ fs, t.leafFields? m id p = some fs ∧ t.leafFields? m id q = some fs) ∧
    IsUpdate m id t path e (t.set m path e).1 (t.set m path e).2 :=
  ⟨fun _ _ => ht.isRooted.sameLeaf_iff, (ht.isRooted.isUpdate_set path e).2⟩

/-! ### An array of aggregates -/

namespace Elements

/-- A struct type with an array of elements that have two fields each. -/
def module : Module ℝ :=
  ⟨"m", #[], #[], #[⟨"Inner", [.int 32, .int 16]⟩,
    ⟨"Outer", [.int 32, .array (.struct ⟨0⟩) 8, .float 64]⟩]⟩

/-- The first field is annotated, and a path that ends at the elements has been tried. -/
noncomputable def tree : Tree ℝ :=
  ((ofInfo module ⟨1⟩ [some (.scalar ⟨⟨32, 8, true⟩, some (0, 1), none⟩)] 0).1.set module
    [.const 1, .dynamic] Estimate.unknown).2

/-- An error of one. -/
noncomputable def estimate : Estimate ℝ := ⟨Range.unknown, some (Affine.const 1)⟩

/-- All elements share what has been set for one of them, and the annotated field keeps its
estimate. -/
theorem get?_set_element :
    tree.IsBuilt module ⟨1⟩ ∧
      (tree.set module [.const 1, .const 3, .const 1] estimate).1 = true ∧
      (tree.set module [.const 1, .const 3, .const 1] estimate).2.get? module
        [.const 1, .dynamic, .const 1] = some estimate ∧
      (tree.set module [.const 1, .const 3, .const 1] estimate).2.get? module [.const 0]
        = tree.get? module [.const 0] := by
  have hbuilt : tree.IsBuilt module ⟨1⟩ := .set (.ofInfo _ _) _ _
  have hset := (hbuilt.isUpdate [.const 1, .const 3, .const 1] estimate).2
  refine ⟨hbuilt, rfl, hset.get?_same rfl _ ⟨3, rfl, rfl⟩, hset.get?_other rfl _ ?_⟩
  rintro ⟨l, hl, hl'⟩
  cases hl.symm.trans (show _ = some 3 from rfl)
  cases hl'.symm.trans (show _ = some 1 from rfl)

end Elements

end Tree

end Roundoff
