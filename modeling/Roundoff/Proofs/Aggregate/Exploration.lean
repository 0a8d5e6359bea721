/-
# Searches for paths

A search for a path follows the nodes that are there and makes those that are missing.  The missing
ones are aggregates of which nothing is known, and the last one may be a scalar, where the search
ends.  So the only scalar that a search may make is the one that it finds, and a search that finds
no scalar leaves all estimates as they were, though there may be more nodes.
-/
import Mathlib
import Roundoff.Proofs.Aggregate.Fields

namespace Roundoff

variable {R : Type} {m : Module R} {ty elem : Ty} {id : StructId} {field : ℕ} {length : UInt64}
  {path path' : List PathIndex} {step : PathIndex}

/-! ## Paths to scalars -/

lemma Ty.stripArrays_struct_or_isScalar (ty : Ty) :
    (∃ id, ty.stripArrays = .struct id) ∨ ty.stripArrays.IsScalar := by
  induction ty with
  | struct id => exact .inl ⟨id, rfl⟩
  | array elem length ih => exact ih
  | void | int | float | pointer => exact .inr trivial

/-- The steps of a path lead from an element of the given type to a scalar, or beyond it.  There may
be no steps for the last array elements. -/
inductive Module.SelectsScalar (m : Module R) : Ty → List PathIndex → Prop
  /-- The element is a scalar itself. -/
  | scalar {ty : Ty} {path : List PathIndex} (h : ty.IsScalar) : SelectsScalar m ty path
  /-- The first step selects a field. -/
  | field {id : StructId} {field : ℕ} {ty : Ty} {path : List PathIndex}
      (hty : m.fieldType? id field = some ty) (h : SelectsScalar m ty path) :
      SelectsScalar m (.struct id) (.const field :: path)
  /-- The first step selects an array element, if there is one. -/
  | element {elem : Ty} {length : UInt64} {path : List PathIndex}
      (h : SelectsScalar m elem path.tail) : SelectsScalar m (.array elem length) path

namespace Module.SelectsScalar

lemma of_stripArrays (h : ty.stripArrays.IsScalar) : m.SelectsScalar ty path := by
  induction ty generalizing path with
  | struct id => exact h.elim
  | array elem length ih => exact .element (ih h)
  | void | int | float | pointer => exact .scalar trivial

lemma field_iff : m.SelectsScalar (.struct id) (.const field :: path) ↔
    ∃ ty, m.fieldType? id field = some ty ∧ m.SelectsScalar ty path := by
  constructor
  · rintro (hscalar | ⟨hty, h⟩)
    · exact hscalar.elim
    · exact ⟨_, hty, h⟩
  · rintro ⟨ty, hty, h⟩
    exact .field hty h

lemma element_iff :
    m.SelectsScalar (.array elem length) (step :: path) ↔ m.SelectsScalar elem path := by
  constructor
  · rintro (hscalar | _ | h)
    · exact hscalar.elim
    · exact h
  · exact fun h => .element h

end Module.SelectsScalar

/-- A path that selects no field of an aggregate leads to no scalar. -/
lemma Module.IsStuck.not_selectsScalar (h : m.IsStuck id ty path) : ¬ m.SelectsScalar ty path := by
  cases h with
  | nil hty =>
    induction ty with
    | struct id' => nofun
    | array elem length ih =>
      rintro (hscalar | _ | hsel)
      · exact hscalar
      · exact ih hty hsel
    | void | int | float | pointer => cases hty
  | dynamic => rintro ⟨⟨⟩⟩
  | outside h =>
    intro hsel
    obtain ⟨ty, hty, -⟩ := SelectsScalar.field_iff.1 hsel
    cases h.symm.trans hty

namespace Tree

variable {t t' : Tree R} {n l k c : NodeId} {fs gs : List ℕ} {e : Estimate R}
  {o : Option NodeId} {slots : List (Option NodeId)}

/-! ## Searches -/

/-- Nothing is reached below a new node for an aggregate. -/
lemma reach?_aggregateNode {skip : ℕ} (hn : t.kind? n = some (m.aggregateNode id)) :
    reach? m t n skip path = none := by
  induction path generalizing skip with
  | nil => exact reach?_nil hn
  | cons step path ih =>
    cases skip with
    | succ skip => rw [reach?_skip, ih]
    | zero =>
      cases step with
      | dynamic => exact reach?_of_isStuck hn .dynamic
      | const field =>
        cases hty : m.fieldType? id field with
        | none => exact reach?_of_isStuck hn (.outside hty)
        | some ty => rw [reach?_field hn hty, child?_aggregateNode hn, Option.bind_none]

/-- What the search for a path from a node that stands for an element of the given type leaves: `o`
is the node found, and `t'` is the tree with the nodes made on the way. -/
structure Explored (m : Module R) (ty : Ty) (path : List PathIndex) (t : Tree R) (n : NodeId)
    (o : Option NodeId) (t' : Tree R) : Prop where
  /-- The nodes are linked as before. -/
  arena : t'.IsArena m
  /-- What has been there stays. -/
  grows : t.GrowsTo t'
  /-- The path reaches the node found. -/
  reach_eq : t'.reach? m n ty.arrayDepth path = o
  /-- No other scalar is made. -/
  leaf_new : ∀ k e, t'.kind? k = some (.leaf e) → k < t.size ∨ o = some k
  /-- The search fails only if the path leads to no scalar. -/
  isSome_iff : o.isSome ↔ m.SelectsScalar ty path ∨ (t.reach? m n ty.arrayDepth path).isSome

namespace Explored

/-- A search that ends where it begins leaves the tree as it is. -/
lemma stop (ht : t.IsArena m) (hreach : t.reach? m n ty.arrayDepth path = o)
    (hsel : o = none → ¬ m.SelectsScalar ty path) : Explored m ty path t n o t where
  arena := ht
  grows := .refl t
  reach_eq := hreach
  leaf_new _ _ hk := .inl (lt_size_of_kind? hk)
  isSome_iff := by
    rw [hreach]
    refine ⟨.inr, fun h => h.elim (fun h => ?_) id⟩
    exact Option.isSome_iff_ne_none.2 fun ho => hsel ho h

/-- The search goes on at the node of a field. -/
lemma child (h : Explored m ty path t c o t') (hn : t.kind? n = some (.aggregate id slots))
    (hty : m.fieldType? id field = some ty) (hc : t.child? n field = some c) :
    Explored m (.struct id) (.const field :: path) t n o t' where
  arena := h.arena
  grows := h.grows
  reach_eq := by
    obtain ⟨slots', hn'⟩ := h.grows.aggregate n id slots hn
    rw [Ty.arrayDepth_struct, reach?_field hn' hty, h.grows.child n field c hc]
    exact h.reach_eq
  leaf_new := h.leaf_new
  isSome_iff := by
    rw [h.isSome_iff, Module.SelectsScalar.field_iff, Ty.arrayDepth_struct, reach?_field hn hty, hc]
    simp [hty]

lemma element (h : Explored m elem path t n o t') :
    Explored m (.array elem length) (step :: path) t n o t' where
  arena := h.arena
  grows := h.grows
  reach_eq := by rw [Ty.arrayDepth_array, reach?_skip, h.reach_eq]
  leaf_new := h.leaf_new
  isSome_iff := by
    rw [h.isSome_iff, Module.SelectsScalar.element_iff, Ty.arrayDepth_array, reach?_skip]

/-- A search changes no estimate of a scalar that it does not find. -/
lemma estimateAt?_eq (h : Explored m ty path t 0 o t')
    (hgs : ∀ l, o = some l → t'.below? 0 gs ≠ some l) : t'.estimateAt? gs = t.estimateAt? gs := by
  refine Option.ext fun e => ?_
  rw [estimateAt?, estimateAt?, Option.bind_eq_some_iff, Option.bind_eq_some_iff]
  constructor
  · rintro ⟨k, hk, hleaf⟩
    have hkind := leaf?_eq_some_iff.1 hleaf
    have hlt : k < t.size := (h.leaf_new k e hkind).resolve_right fun ho => hgs k ho hk
    exact ⟨k, h.grows.below?_of_lt h.arena hk hlt,
      leaf?_eq_some_iff.2 (h.grows.leaf_of_lt hkind hlt)⟩
  · rintro ⟨k, hk, hleaf⟩
    exact ⟨k, h.grows.below? hk, leaf?_eq_some_iff.2 (h.grows.leaf k e (leaf?_eq_some_iff.1 hleaf))⟩

end Explored

variable [Number R]

lemma isFresh_freshKind : (freshKind m ty).IsFresh m ty := by
  rw [freshKind]
  split
  · next inner h => exact .inr ⟨inner, rfl, h⟩
  · exact .inl ⟨_, rfl⟩

lemma locate_of_isStuck (hn : t.kind? n = some (.aggregate id slots)) (h : m.IsStuck id ty path) :
    locate m t n ty.arrayDepth path = (none, t) := by
  cases h with
  | nil => simp [locate, hn]
  | dynamic => simp [locate, Ty.arrayDepth_struct, hn]
  | outside h => simp [locate, Ty.arrayDepth_struct, hn, h]

lemma locate_child (hn : t.kind? n = some (.aggregate id slots))
    (hty : m.fieldType? id field = some ty) (hc : t.child? n field = some c) :
    locate m t n 0 (.const field :: path) = locate m t c ty.arrayDepth path := by
  rw [child?_aggregate hn, Option.join_eq_some_iff] at hc
  simp [locate, hn, hty, hc]

lemma locate_addChild (hn : t.kind? n = some (.aggregate id slots))
    (hty : m.fieldType? id field = some ty) (hslot : slots[field]? = some none)
    (hadd : t.addChild n field (freshKind m ty) = some (c, t')) :
    locate m t n 0 (.const field :: path) = locate m t' c ty.arrayDepth path := by
  simp only [locate, hn, hty, hslot]
  erw [hadd]

/-- A scalar is reached at a new node only if it is a scalar of the type. -/
lemma selectsScalar_of_reach? (hn : t.kind? n = some (freshKind m ty))
    (h : (t.reach? m n ty.arrayDepth path).isSome) : m.SelectsScalar ty path := by
  rcases ty.stripArrays_struct_or_isScalar with ⟨inner, hty⟩ | hty
  · rw [freshKind, hty] at hn
    rw [reach?_aggregateNode hn] at h
    cases h
  · exact .of_stripArrays hty

/-- The search goes on at a new node. -/
lemma Explored.addChild {t₁ : Tree R} (h : Explored m ty path t₁ t.size o t') (ht : t.IsArena m)
    (hty : m.fieldType? id field = some ty) (hempty : t.child? n field = none)
    (hadd : AddsChild t n id slots field (freshKind m ty) t₁) :
    Explored m (.struct id) (.const field :: path) t n o t' := by
  have hfield : field < slots.length :=
    ht.length_eq n id slots hadd.kind_above ▸ Module.lt_structWidth hty
  have hgrows := hadd.growsTo ht hempty hfield isFresh_freshKind
  have hnew : t₁.child? n field = some t.size := by
    rw [hadd.child?_eq hfield isFresh_freshKind, if_pos ⟨rfl, rfl⟩]
  have h' := h.child hadd.kind_filled hty hnew
  refine ⟨h.arena, hgrows.trans h.grows, h'.reach_eq, fun k e hk => ?_, ?_⟩
  · rcases h.leaf_new k e hk with hlt | ho
    · rw [hadd.size_eq, Nat.lt_succ_iff_lt_or_eq] at hlt
      rcases hlt with hlt | rfl
      · exact .inl hlt
      · -- a new scalar ends the search
        rw [← h.reach_eq, reach?_leaf hk]
        exact .inr rfl
    · exact .inr ho
  · rw [h.isSome_iff, Module.SelectsScalar.field_iff, Ty.arrayDepth_struct,
      reach?_field hadd.kind_above hty, hempty]
    simp only [hty, Option.some_inj, exists_eq_left', Option.bind_none, Option.isSome_none,
      Bool.false_eq_true, or_false]
    exact or_iff_left_of_imp (selectsScalar_of_reach? hadd.kind_last)

/-- **What a search leaves.** -/
theorem explored_locate (ht : t.IsArena m) (hn : t.Fits n ty) :
    Explored m ty path t n (locate m t n ty.arrayDepth path).1
      (locate m t n ty.arrayDepth path).2 := by
  refine search_induction (motive := fun t n ty path => Explored m ty path t n
    (locate m t n ty.arrayDepth path).1 (locate m t n ty.arrayDepth path).2)
    ?leaf ?stuck ?element ?field ht hn path
  case leaf =>
    intro t n ty path e ht hn
    rw [locate_leaf hn]
    exact .stop ht (reach?_leaf hn) nofun
  case stuck =>
    intro t n id slots ty path ht hn hstuck
    rw [locate_of_isStuck hn hstuck]
    exact .stop ht (reach?_of_isStuck hn hstuck) fun _ => hstuck.not_selectsScalar
  case element =>
    intro t n elem length step path ih
    rw [Ty.arrayDepth_array, locate_skip]
    exact ih.element
  case field =>
    intro t n id slots field ty path ht hn hty ih
    rw [Ty.arrayDepth_struct]
    cases hc : t.child? n field with
    | some c =>
      rw [locate_child hn hty hc]
      exact (ih ht (ht.fits_of_child? hn hty hc)).child hn hty hc
    | none =>
      have hfield : field < slots.length :=
        ht.length_eq n id slots hn ▸ Module.lt_structWidth hty
      obtain ⟨t₁, haddChild, hadd⟩ := exists_addsChild hn hfield (freshKind m ty)
      rw [locate_addChild hn hty (getElem?_of_child?_eq_none hn hfield hc) haddChild]
      exact (ih (hadd.isArena ht hty isFresh_freshKind)
        (isFresh_freshKind.fits hadd.kind_last)).addChild ht hty hc hadd

end Tree

end Roundoff
