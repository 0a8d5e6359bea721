/-
# The fields that a path selects

A path into an aggregate selects fields and array elements in turn, as the types of the fields say.
The search for a path takes no notice of the steps that select array elements, and it ends at the
first scalar.  So it depends on the selected fields only: two paths reach the same scalar if and
only if they select the same fields up to the first scalar.
-/
import Mathlib
import Roundoff.Proofs.Aggregate.Arena

namespace Roundoff

variable {R : Type} {m : Module R} {ty elem : Ty} {id : StructId} {field : ℕ}
  {path path' : List PathIndex} {step : PathIndex}

/-- The fields that the steps of a path select, without the steps that select array elements, up to
the first step that selects no field where one is to be selected. -/
def Module.selectedFields (m : Module R) : Ty → List PathIndex → List ℕ
  | .struct id, .const field :: path =>
    match m.fieldType? id field with
    | some ty => field :: m.selectedFields ty path
    | none => []
  | .array elem _, _ :: path => m.selectedFields elem path
  | _, _ => []

/-- Where an aggregate is, the path selects none of its fields. -/
inductive Module.IsStuck (m : Module R) (id : StructId) : Ty → List PathIndex → Prop
  /-- The path is at its end. -/
  | nil {ty : Ty} (hty : ty.stripArrays = .struct id) : IsStuck m id ty []
  /-- The index is not constant. -/
  | dynamic {path : List PathIndex} : IsStuck m id (.struct id) (.dynamic :: path)
  /-- There is no field of this number. -/
  | outside {field : ℕ} {path : List PathIndex} (h : m.fieldType? id field = none) :
    IsStuck m id (.struct id) (.const field :: path)

lemma Module.IsStuck.selectedFields_eq_nil (h : m.IsStuck id ty path) :
    m.selectedFields ty path = [] := by
  cases h with
  | nil => cases ty <;> rw [selectedFields] <;> nofun
  | dynamic => rw [selectedFields] <;> nofun
  | outside h => rw [selectedFields, h]

lemma Module.selectedFields_field (h : m.fieldType? id field = some ty) :
    m.selectedFields (.struct id) (.const field :: path) = field :: m.selectedFields ty path := by
  rw [selectedFields, h]

lemma Module.selectedFields_element {length : UInt64} :
    m.selectedFields (.array elem length) (step :: path) = m.selectedFields elem path := by
  rw [selectedFields]

namespace Tree

variable {t t' : Tree R} {n l c : NodeId} {fs gs ks : List ℕ} {e : Estimate R} {skip : ℕ}
  {slots : List (Option NodeId)}

/-! ## The turns of a search -/

/-- What is true of a search that ends at a scalar, of one that selects no field of an aggregate,
and of every other one if it is true of the search with the next step, is true of all searches.  The
tree may change on the way. -/
theorem search_induction {motive : Tree R → NodeId → Ty → List PathIndex → Prop}
    (leaf : ∀ {t n ty path e}, t.IsArena m → t.kind? n = some (.leaf e) → motive t n ty path)
    (stuck : ∀ {t n id slots ty path}, t.IsArena m → t.kind? n = some (.aggregate id slots) →
      m.IsStuck id ty path → motive t n ty path)
    (element : ∀ {t n elem length step path}, motive t n elem path →
      motive t n (.array elem length) (step :: path))
    (field : ∀ {t n id slots field ty path}, t.IsArena m → t.kind? n = some (.aggregate id slots) →
      m.fieldType? id field = some ty →
      (∀ {t' c}, t'.IsArena m → t'.Fits c ty → motive t' c ty path) →
      motive t n (.struct id) (.const field :: path))
    (ht : t.IsArena m) (hn : t.Fits n ty) (path : List PathIndex) : motive t n ty path := by
  induction path generalizing t n ty with
  | nil =>
    rcases hn with ⟨e, hn⟩ | ⟨id, slots, hn, hty⟩
    · exact leaf ht hn
    · exact stuck ht hn (.nil hty)
  | cons step path ih =>
    rcases hn with ⟨e, hn⟩ | ⟨id, slots, hn, hty⟩
    · exact leaf ht hn
    · cases ty with
      | array elem length => exact element (ih ht (.inr ⟨id, slots, hn, hty⟩))
      | struct id' =>
        obtain rfl := Ty.struct.inj hty
        cases step with
        | dynamic => exact stuck ht hn .dynamic
        | const i =>
          cases hfield : m.fieldType? id' i with
          | none => exact stuck ht hn (.outside hfield)
          | some ty => exact field ht hn hfield ih
      | void | int | float | pointer => cases hty

/-! ## The scalar that a path reaches -/

/-- The node of the scalar at the end of a path from a node, where the next `skip` steps select
array elements. -/
def reach? (m : Module R) (t : Tree R) (n : NodeId) (skip : ℕ) : List PathIndex → Option NodeId
  | [] => (t.leaf? n).map fun _ => n
  | step :: path =>
    match t.kind? n, skip, step with
    | none, _, _ => none
    | some (.leaf _), _, _ => some n
    | some (.aggregate _ _), skip + 1, _ => reach? m t n skip path
    | some (.aggregate _ _), 0, .dynamic => none
    | some (.aggregate ty fields), 0, .const field =>
      match fields[field]?, m.fieldType? ty field with
      | some (some child), some fieldTy => reach? m t child fieldTy.arrayDepth path
      | _, _ => none

attribute [local simp] reach?

lemma reach?_leaf (h : t.kind? n = some (.leaf e)) : reach? m t n skip path = some n := by
  cases path <;> simp [leaf?, h]

lemma reach?_nil (h : t.kind? n = some (.aggregate id slots)) : reach? m t n skip [] = none := by
  simp [leaf?, h]

lemma reach?_skip : reach? m t n (skip + 1) (step :: path) = reach? m t n skip path := by
  cases hkind : t.kind? n with
  | none => cases path <;> simp [leaf?, hkind]
  | some kind =>
    cases kind with
    | leaf e => rw [reach?_leaf hkind, reach?_leaf hkind]
    | aggregate ty fields => simp [hkind]

lemma reach?_of_isStuck (hn : t.kind? n = some (.aggregate id slots)) (h : m.IsStuck id ty path) :
    reach? m t n ty.arrayDepth path = none := by
  cases h with
  | nil => exact reach?_nil hn
  | dynamic => simp [Ty.arrayDepth_struct, hn]
  | outside h => simp [Ty.arrayDepth_struct, hn, h]

lemma reach?_field (h : t.kind? n = some (.aggregate id slots))
    (hty : m.fieldType? id field = some ty) : reach? m t n 0 (.const field :: path)
      = (t.child? n field).bind (reach? m t · ty.arrayDepth path) := by
  rw [child?_aggregate h]
  simp only [reach?, h, hty]
  cases slots[field]? with
  | none => rfl
  | some slot => cases slot <;> rfl

/-- The estimate that is found for a path is the one of the scalar that the path reaches. -/
theorem find?_eq_bind_reach? :
    find? m t n skip path = (reach? m t n skip path).bind t.leaf? := by
  induction path generalizing n skip with
  | nil =>
    rw [find?, reach?, leaf?]
    cases hkind : t.kind? n with
    | none => rfl
    | some kind => cases kind <;> simp [leaf?, hkind]
  | cons step path ih =>
    cases hkind : t.kind? n with
    | none => simp [find?, hkind]
    | some kind =>
      cases kind with
      | leaf e => rw [find?_leaf hkind, reach?_leaf hkind, Option.bind_some, leaf?, hkind]
      | aggregate id slots =>
        cases skip with
        | succ skip => rw [find?_skip, reach?_skip, ih]
        | zero =>
          cases step with
          | dynamic => simp [find?, hkind]
          | const field =>
            simp only [find?, reach?, hkind]
            cases slots[field]? with
            | none => rfl
            | some slot => cases slot <;> cases m.fieldType? id field <;> first | rfl | exact ih

/-! ## Scalars at the end of lists of fields -/

/-- Some first fields of a list lead from a node to the scalar `l`. -/
def LeadsTo (t : Tree R) (n : NodeId) (gs : List ℕ) (l : NodeId) : Prop :=
  ∃ fs, fs <+: gs ∧ t.below? n fs = some l ∧ (t.leaf? l).isSome

lemma leadsTo_leaf (hn : t.kind? n = some (.leaf e)) : t.LeadsTo n gs l ↔ n = l := by
  constructor
  · rintro ⟨fs, -, hl, -⟩
    exact ((below?_leaf hn).1 hl).2.symm
  · rintro rfl
    exact ⟨[], List.nil_prefix, rfl, by rw [leaf?, hn]; rfl⟩

lemma not_leadsTo_nil (hn : t.kind? n = some (.aggregate id slots)) : ¬ t.LeadsTo n [] l := by
  rintro ⟨fs, hfs, hl, hleaf⟩
  obtain rfl := List.prefix_nil.1 hfs
  obtain rfl := Option.some.inj hl
  simp [leaf?, hn] at hleaf

lemma leadsTo_cons (hn : t.kind? n = some (.aggregate id slots)) :
    t.LeadsTo n (field :: gs) l ↔ ∃ c, t.child? n field = some c ∧ t.LeadsTo c gs l := by
  constructor
  · rintro ⟨fs, hfs, hl, hleaf⟩
    rcases List.prefix_cons_iff.1 hfs with rfl | ⟨fs, rfl, hle⟩
    · exact absurd ⟨[], List.nil_prefix, hl, hleaf⟩ (not_leadsTo_nil hn)
    · obtain ⟨c, hc, hl⟩ := Option.bind_eq_some_iff.1 hl
      exact ⟨c, hc, fs, hle, hl, hleaf⟩
  · rintro ⟨c, hc, fs, hfs, hl, hleaf⟩
    exact ⟨field :: fs, (List.prefix_cons_inj field).2 hfs, by rw [below?_cons, hc]; exact hl,
      hleaf⟩

/-- **A path reaches the scalar to which the fields lead that it selects.** -/
theorem reach?_eq_some_iff (ht : t.IsArena m) (hn : t.Fits n ty) :
    reach? m t n ty.arrayDepth path = some l ↔ t.LeadsTo n (m.selectedFields ty path) l := by
  refine search_induction (motive := fun t n ty path =>
    reach? m t n ty.arrayDepth path = some l ↔ t.LeadsTo n (m.selectedFields ty path) l)
    ?leaf ?stuck ?element ?field ht hn path
  case leaf =>
    intro t n ty path e _ hn
    rw [reach?_leaf hn, leadsTo_leaf hn, Option.some_inj]
  case stuck =>
    intro t n id slots ty path _ hn hstuck
    rw [reach?_of_isStuck hn hstuck, hstuck.selectedFields_eq_nil]
    exact iff_of_false nofun (not_leadsTo_nil hn)
  case element =>
    intro t n elem length step path ih
    rw [Ty.arrayDepth_array, reach?_skip, Module.selectedFields_element]
    exact ih
  case field =>
    intro t n id slots field ty path ht hn hty ih
    rw [Ty.arrayDepth_struct, reach?_field hn hty, Module.selectedFields_field hty,
      leadsTo_cons hn, Option.bind_eq_some_iff]
    exact exists_congr fun c => and_congr_right fun hc => ih ht (ht.fits_of_child? hn hty hc)

/-! ## Trees of aggregates -/

/-- The tree is an arena whose root stands for an aggregate of the given type. -/
structure IsRooted (m : Module R) (id : StructId) (t : Tree R) : Prop extends t.IsArena m where
  /-- Node zero stands for the whole aggregate. -/
  root : ∃ slots, t.kind? 0 = some (.aggregate id slots)

/-- The estimate of the scalar to which a list of fields leads. -/
def estimateAt? (t : Tree R) (fs : List ℕ) : Option (Estimate R) := (t.below? 0 fs).bind t.leaf?

/-- The fields that a path selects up to the first scalar. -/
def leafFields? (m : Module R) (id : StructId) (t : Tree R) (path : List PathIndex) :
    Option (List ℕ) :=
  (m.selectedFields (.struct id) path).inits.find? fun fs => (t.estimateAt? fs).isSome

/-- Two paths reach the same scalar. -/
def SameLeaf (m : Module R) (t : Tree R) (path path' : List PathIndex) : Prop :=
  ∃ l, t.reach? m 0 0 path = some l ∧ t.reach? m 0 0 path' = some l

lemma sameLeaf_iff_of_reach? (h : t.reach? m 0 0 path = some l) :
    t.SameLeaf m path path' ↔ t.reach? m 0 0 path' = some l := by
  constructor
  · rintro ⟨k, hk, hk'⟩
    rwa [← Option.some.inj (hk.symm.trans h)]
  · exact fun h' => ⟨l, h, h'⟩

lemma isRooted_new (m : Module R) (id : StructId) : (new m id).IsRooted m id where
  toIsArena := isArena_new m id
  root := ⟨_, kind?_new_zero⟩

lemma isSome_estimateAt? :
    (t.estimateAt? fs).isSome ↔ ∃ l, t.below? 0 fs = some l ∧ (t.leaf? l).isSome := by
  rw [estimateAt?, Option.isSome_bind, Option.any_eq_true]

lemma estimateAt?_of_below? (hl : t.below? 0 fs = some l) : t.estimateAt? fs = t.leaf? l := by
  rw [estimateAt?, hl, Option.bind_some]

/-- Of the lists of fields that a path goes through, one leads to a scalar at most. -/
lemma eq_of_isSome_estimateAt? (hfs : fs <+: ks) (hgs : gs <+: ks)
    (hf : (t.estimateAt? fs).isSome) (hg : (t.estimateAt? gs).isSome) : fs = gs := by
  obtain ⟨k, hk, hkleaf⟩ := isSome_estimateAt?.1 hf
  obtain ⟨l, hl, hlleaf⟩ := isSome_estimateAt?.1 hg
  obtain ⟨e, he⟩ := Option.isSome_iff_exists.1 hkleaf
  obtain ⟨e', he'⟩ := Option.isSome_iff_exists.1 hlleaf
  rcases List.prefix_or_prefix_of_prefix hfs hgs with h | h
  · exact Tree.eq_of_isPrefix hk (leaf?_eq_some_iff.1 he) hl h
  · exact (Tree.eq_of_isPrefix hl (leaf?_eq_some_iff.1 he') hk h).symm

lemma leafFields?_eq_some_iff : t.leafFields? m id path = some fs ↔
    fs <+: m.selectedFields (.struct id) path ∧ (t.estimateAt? fs).isSome := by
  have hfound {gs : List ℕ} (h : t.leafFields? m id path = some gs) :
      gs <+: m.selectedFields (.struct id) path ∧ (t.estimateAt? gs).isSome :=
    ⟨(List.mem_inits _ _).1 (List.mem_of_find?_eq_some h),
      List.find?_some (p := fun gs => (t.estimateAt? gs).isSome) h⟩
  refine ⟨hfound, fun ⟨hfs, hleaf⟩ => ?_⟩
  have hsome : (t.leafFields? m id path).isSome :=
    List.find?_isSome.2 ⟨fs, (List.mem_inits _ _).2 hfs, hleaf⟩
  obtain ⟨gs, hgs⟩ := Option.isSome_iff_exists.1 hsome
  rw [hgs, eq_of_isSome_estimateAt? hfs (hfound hgs).1 hleaf (hfound hgs).2]

namespace IsRooted

lemma fits (ht : t.IsRooted m id) : t.Fits 0 (.struct id) := by
  obtain ⟨slots, hroot⟩ := ht.root
  exact .inr ⟨id, slots, hroot, rfl⟩

lemma reach?_eq_some_iff (ht : t.IsRooted m id) :
    t.reach? m 0 0 path = some l ↔ t.LeadsTo 0 (m.selectedFields (.struct id) path) l :=
  Tree.reach?_eq_some_iff ht.toIsArena ht.fits

/-- A scalar is reached by the paths that select the fields that lead to it. -/
lemma reach?_eq_some_iff_isPrefix (ht : t.IsRooted m id) (hfs : t.below? 0 fs = some l)
    (hl : t.leaf? l = some e) :
    t.reach? m 0 0 path = some l ↔ fs <+: m.selectedFields (.struct id) path := by
  rw [ht.reach?_eq_some_iff]
  constructor
  · rintro ⟨gs, hgs, hgl, -⟩
    rwa [ht.below?_inj hfs hgl]
  · exact fun h => ⟨fs, h, hfs, Option.isSome_of_eq_some hl⟩

/-- What is found for a path depends on the fields that it selects. -/
lemma get?_eq_some_iff (ht : t.IsRooted m id) : t.get? m path = some e ↔
    ∃ fs, fs <+: m.selectedFields (.struct id) path ∧ t.estimateAt? fs = some e := by
  rw [get?, find?_eq_bind_reach?, Option.bind_eq_some_iff]
  constructor
  · rintro ⟨l, hl, he⟩
    obtain ⟨fs, hfs, hl, -⟩ := ht.reach?_eq_some_iff.1 hl
    exact ⟨fs, hfs, by rw [estimateAt?_of_below? hl, he]⟩
  · rintro ⟨fs, hfs, he⟩
    obtain ⟨l, hl, he⟩ := Option.bind_eq_some_iff.1 he
    exact ⟨l, ht.reach?_eq_some_iff.2 ⟨fs, hfs, hl, Option.isSome_of_eq_some he⟩, he⟩

/-- A path to a scalar finds the estimate of the scalar. -/
lemma isSome_get? (ht : t.IsRooted m id) :
    (t.get? m path).isSome ↔ (t.reach? m 0 0 path).isSome := by
  rw [get?, find?_eq_bind_reach?, Option.isSome_bind, Option.any_eq_true, Option.isSome_iff_exists]
  refine exists_congr fun l => and_iff_left_of_imp fun hl => ?_
  obtain ⟨fs, -, -, hleaf⟩ := ht.reach?_eq_some_iff.1 hl
  exact hleaf

lemma get?_congr (ht : t.IsRooted m id) (ht' : t'.IsRooted m id)
    (h : ∀ fs, fs <+: m.selectedFields (.struct id) path → t'.estimateAt? fs = t.estimateAt? fs) :
    t'.get? m path = t.get? m path := by
  refine Option.ext fun e => ?_
  rw [ht'.get?_eq_some_iff, ht.get?_eq_some_iff]
  exact exists_congr fun fs => and_congr_right fun hfs => by rw [h fs hfs]

lemma leafFields?_eq_some_iff_exists (ht : t.IsRooted m id) : t.leafFields? m id path = some fs ↔
    ∃ l, t.reach? m 0 0 path = some l ∧ t.below? 0 fs = some l := by
  rw [Tree.leafFields?_eq_some_iff]
  constructor
  · rintro ⟨hfs, hleaf⟩
    obtain ⟨l, hl, hleaf⟩ := isSome_estimateAt?.1 hleaf
    exact ⟨l, ht.reach?_eq_some_iff.2 ⟨fs, hfs, hl, hleaf⟩, hl⟩
  · rintro ⟨l, hreach, hl⟩
    obtain ⟨gs, hgs, hl', hleaf⟩ := ht.reach?_eq_some_iff.1 hreach
    obtain rfl := ht.below?_inj hl hl'
    exact ⟨hgs, isSome_estimateAt?.2 ⟨l, hl, hleaf⟩⟩

/-- **Two paths reach the same scalar if and only if they select the same fields up to it.** -/
theorem sameLeaf_iff (ht : t.IsRooted m id) : t.SameLeaf m path path' ↔
    ∃ fs, t.leafFields? m id path = some fs ∧ t.leafFields? m id path' = some fs := by
  constructor
  · rintro ⟨l, hl, hl'⟩
    obtain ⟨fs, -, hfs, -⟩ := ht.reach?_eq_some_iff.1 hl
    exact ⟨fs, ht.leafFields?_eq_some_iff_exists.2 ⟨l, hl, hfs⟩,
      ht.leafFields?_eq_some_iff_exists.2 ⟨l, hl', hfs⟩⟩
  · rintro ⟨fs, h, h'⟩
    obtain ⟨l, hl, hfs⟩ := ht.leafFields?_eq_some_iff_exists.1 h
    obtain ⟨l', hl', hfs'⟩ := ht.leafFields?_eq_some_iff_exists.1 h'
    obtain rfl := Option.some.inj (hfs.symm.trans hfs')
    exact ⟨l, hl, hl'⟩

end IsRooted

end Tree

end Roundoff
