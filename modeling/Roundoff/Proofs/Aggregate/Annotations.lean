/-
# What the tree of an annotated aggregate tells

An aggregate is annotated field by field, to any depth, and the annotation need not fit the type: it
may have more entries than there are fields, describe the fields of something that has none, or
describe a whole aggregate by one range.  Following the fields of a path through the annotation
leads to the annotation of a scalar, or to none.

The tree that is made of the annotation answers in the same way.  Its nodes are made field by field,
and what is made for a field is put into new nodes below the one of the aggregate.  So the fields
that come later change nothing of what is found for those before them, and an answer for one field
is an answer for the whole tree.
-/
import Mathlib
import Roundoff.Proofs.Aggregate.Updates
import Roundoff.Proofs.Transfer.Frame

namespace Roundoff

variable {R : Type} {m : Module R} {ty elem : Ty} {id : StructId} {field : ℕ} {length : UInt64}
  {path : List PathIndex} {step : PathIndex} {infos : List (Option (ValueInfo R))}
  {info : ScalarInfo R}

/-! ## Paths through annotations -/

/-- The annotation of a scalar to which a path leads from an annotated element of the given type.
The annotation of a scalar stands for the whole element, whatever is below it.  Where the fields are
annotated, a step selects an array element, which makes no difference, or it selects by its number
a field that the type has and that is annotated. -/
def Module.scalarInfo? (m : Module R) : Ty → ValueInfo R → List PathIndex → Option (ScalarInfo R)
  | _, .scalar info, _ => some info
  | .array elem _, .struct infos, _ :: path => m.scalarInfo? elem (.struct infos) path
  | .struct id, .struct infos, .const field :: path =>
    match m.fieldType? id field, infos[field]?.join with
    | some ty, some info => m.scalarInfo? ty info path
    | _, _ => none
  | _, .struct _, _ => none

namespace Module

lemma scalarInfo?_scalar : m.scalarInfo? ty (.scalar info) path = some info := by
  rw [scalarInfo?]

lemma scalarInfo?_element : m.scalarInfo? (.array elem length) (.struct infos) (step :: path)
    = m.scalarInfo? elem (.struct infos) path := by
  rw [scalarInfo?]

lemma scalarInfo?_field : m.scalarInfo? (.struct id) (.struct infos) (.const field :: path)
    = (m.fieldType? id field).bind fun ty => infos[field]?.join.bind fun info =>
        m.scalarInfo? ty info path := by
  rw [scalarInfo?]
  cases m.fieldType? id field <;> cases infos[field]?.join <;> rfl

/-- A path that selects no field of an aggregate leads to no annotated scalar. -/
lemma IsStuck.scalarInfo?_eq_none (h : m.IsStuck id ty path) :
    m.scalarInfo? ty (.struct infos) path = none := by
  cases h with
  | nil => cases ty <;> rw [scalarInfo?] <;> nofun
  | dynamic => rw [scalarInfo?] <;> nofun
  | outside h => rw [scalarInfo?_field, h, Option.bind_none]

/-- The annotation of fields is of no use for an element that is no aggregate. -/
lemma scalarInfo?_of_isScalar (h : ty.stripArrays.IsScalar) :
    m.scalarInfo? ty (.struct infos) path = none := by
  induction path generalizing ty with
  | nil => cases ty <;> rw [scalarInfo?] <;> nofun
  | cons step path ih =>
    cases ty with
    | struct id => exact h.elim
    | array elem length =>
      rw [scalarInfo?_element]
      exact ih h
    | void | int | float | pointer => rw [scalarInfo?] <;> nofun

end Module

namespace Tree

variable [Number R] {t t' t'' : Tree R} {n k c : NodeId} {slots : List (Option NodeId)}
    {s s' : Symbol}
  {skip : ℕ} {o : Option (ValueInfo R)}

/-- The estimate of an annotated scalar: the annotated range, and the initial error with the symbol
`s`. -/
def estimateOf (s : Symbol) (info : ScalarInfo R) : Estimate R :=
  ⟨info.range?.getD Range.unknown, info.initialError.map fun x => (Affine.withError 0 x s).1⟩

lemma annotated_apply (info : ScalarInfo R) (s : Symbol) :
    (annotated info s).1 = estimateOf s info := by
  rw [annotated, Fresh.bind_apply, ScalarInfo.error?, estimateOf]
  cases info.initialError <;> rfl

/-! ## Searches through fields -/

omit [Number R] in
lemma find?_field (hn : t.kind? n = some (.aggregate id slots)) :
    find? m t n 0 (.const field :: path) = (m.fieldType? id field).bind fun ty =>
      (t.child? n field).bind fun c => find? m t c ty.arrayDepth path := by
  rw [child?_aggregate hn]
  simp only [find?, hn]
  cases slots[field]? with
  | none => cases m.fieldType? id field <;> rfl
  | some slot => cases slot <;> cases m.fieldType? id field <;> rfl

omit [Number R] in
/-- A search sees only nodes that are made after the one from which it starts. -/
lemma find?_congr (ht : t.IsArena m) (hkind : ∀ k < t.size, n < k → t'.kind? k = t.kind? k)
    (hlt : c < t.size) (hc : n < c) : find? m t' c skip path = find? m t c skip path := by
  induction path generalizing c skip with
  | nil => rw [find?, find?, hkind c hlt hc]
  | cons step path ih =>
    cases skip with
    | succ skip => rw [find?_skip, find?_skip, ih hlt hc]
    | zero =>
      have hkindc := hkind c hlt hc
      cases hold : t.kind? c with
      | none => simp [find?, hkindc, hold]
      | some kind =>
        cases kind with
        | leaf e => rw [find?_leaf hold, find?_leaf (hkindc.trans hold)]
        | aggregate id slots =>
          cases step with
          | dynamic => simp [find?, hkindc, hold]
          | const field =>
            rw [find?_field hold, find?_field (hkindc.trans hold), child?_congr hkindc]
            refine Option.bind_congr fun ty _ => Option.bind_congr fun d hd => ?_
            exact ih (ht.lt_size_of_child? hd) (hc.trans (ht.lt_child c field d hd))

/-! ## What is found below a node -/

/-- The fields of an aggregate are annotated in the tree: the search that begins with the given
field of the node `n` finds what the annotation of the field says. -/
def ShowsField (m : Module R) (id : StructId) (t : Tree R) (n : NodeId) (field : ℕ)
    (o : Option (ValueInfo R)) (s : Symbol) : Prop :=
  ∀ path, ∃ s', s ≤ s' ∧ find? m t n 0 (.const field :: path)
    = ((m.fieldType? id field).bind fun ty => o.bind fun info => m.scalarInfo? ty info path).map
        (estimateOf s')

/-- A search from the node `n`, which stands for an element of the given type, finds what the
annotation of the element says. -/
def Shows (m : Module R) (ty : Ty) (t : Tree R) (n : NodeId) (info : ValueInfo R) (s : Symbol) :
    Prop :=
  ∀ path, ∃ s', s ≤ s' ∧
    find? m t n ty.arrayDepth path = (m.scalarInfo? ty info path).map (estimateOf s')

lemma shows_scalar (hn : t.kind? n = some (.leaf (estimateOf s info))) :
    Shows m ty t n (.scalar info) s := fun path =>
  ⟨s, le_rfl, by rw [find?_leaf hn, Module.scalarInfo?_scalar, Option.map_some]⟩

/-- An aggregate is annotated as its fields are. -/
lemma shows_struct (hn : t.kind? n = some (.aggregate id slots)) (hty : ty.stripArrays = .struct id)
    (hfields : ∀ field, ShowsField m id t n field infos[field]?.join s) :
    Shows m ty t n (.struct infos) s := by
  intro path
  induction path generalizing ty with
  | nil => exact ⟨s, le_rfl, by simp [find?, hn, (Module.IsStuck.nil hty).scalarInfo?_eq_none]⟩
  | cons step path ih =>
    cases ty with
    | array elem length =>
      rw [Ty.arrayDepth_array, find?_skip, Module.scalarInfo?_element]
      exact ih hty
    | struct id' =>
      obtain rfl := Ty.struct.inj hty
      cases step with
      | dynamic =>
        refine ⟨s, le_rfl, ?_⟩
        rw [Ty.arrayDepth_struct, Module.IsStuck.dynamic.scalarInfo?_eq_none]
        simp [find?, hn]
      | const field =>
        rw [Ty.arrayDepth_struct, Module.scalarInfo?_field]
        exact hfields field path
    | void | int | float | pointer => cases hty

/-- Where no field is, nothing is found, whatever the annotation says. -/
lemma showsField_of_fieldType?_eq_none (hn : t.kind? n = some (.aggregate id slots))
    (hfield : m.fieldType? id field = none) : ShowsField m id t n field o s := fun path =>
  ⟨s, le_rfl, by rw [find?_field hn, hfield]; rfl⟩

/-- Nothing is found for a field without a node. -/
lemma showsField_none (hn : t.kind? n = some (.aggregate id slots)) (hc : t.child? n field = none) :
    ShowsField m id t n field none s := fun path =>
  ⟨s, le_rfl, by rw [find?_field hn, hc]; cases m.fieldType? id field <;> rfl⟩

/-- The node of a field is annotated as the field is. -/
lemma showsField_some {info : ValueInfo R} (hn : t.kind? n = some (.aggregate id slots))
    (hty : m.fieldType? id field = some ty) (hc : t.child? n field = some c)
    (h : Shows m ty t c info s) : ShowsField m id t n field (some info) s := by
  intro path
  rw [find?_field hn, hty, hc]
  exact h path

/-! ## Setting up fields -/

/-- The nodes that have been added are below the aggregate `n`, at the given fields of it. -/
structure AddsBelow (t : Tree R) (n : NodeId) (fields : Set ℕ) (t' : Tree R) : Prop where
  /-- There are no fewer nodes. -/
  size_le : t.size ≤ t'.size
  /-- The other nodes stand for what they stood for. -/
  kind_eq : ∀ k < t.size, k ≠ n → t'.kind? k = t.kind? k
  /-- The other fields have the nodes that they had. -/
  child_eq : ∀ i ∉ fields, t'.child? n i = t.child? n i

namespace AddsBelow

variable {fields fields' : Set ℕ}

omit [Number R] in
lemma refl (t : Tree R) : t.AddsBelow n fields t := ⟨le_rfl, fun _ _ _ => rfl, fun _ _ => rfl⟩

omit [Number R] in
lemma mono (h : t.AddsBelow n fields t') (hle : fields ⊆ fields') : t.AddsBelow n fields' t' :=
  ⟨h.size_le, h.kind_eq, fun i hi => h.child_eq i fun hi' => hi (hle hi')⟩

omit [Number R] in
lemma trans (h : t.AddsBelow n fields t') (h' : t'.AddsBelow n fields t'') :
    t.AddsBelow n fields t'' where
  size_le := h.size_le.trans h'.size_le
  kind_eq k hk hkn := (h'.kind_eq k (hk.trans_le h.size_le) hkn).trans (h.kind_eq k hk hkn)
  child_eq i hi := (h'.child_eq i hi).trans (h.child_eq i hi)

omit [Number R] in
/-- What is found for the other fields stays. -/
lemma find?_eq (h : t.AddsBelow n fields t') (ht : t.IsArena m)
    (hn : t.kind? n = some (.aggregate id slots)) {slots' : List (Option NodeId)}
    (hn' : t'.kind? n = some (.aggregate id slots')) (hfield : field ∉ fields) :
    find? m t' n 0 (.const field :: path) = find? m t n 0 (.const field :: path) := by
  rw [find?_field hn, find?_field hn', h.child_eq field hfield]
  refine Option.bind_congr fun ty _ => Option.bind_congr fun c hc => ?_
  exact find?_congr ht (fun k hk hnk => h.kind_eq k hk hnk.ne') (ht.lt_size_of_child? hc)
    (ht.lt_child n field c hc)

omit [Number R] in
/-- A node for a field, and whatever is made below it. -/
lemma of_addsChild {kind : NodeKind R} (hadd : AddsChild t n id slots field kind t')
    (hfield : field < slots.length) (hkind : kind.IsFresh m ty)
    (h : t'.AddsBelow t.size fields t'') : t.AddsBelow n {field} t'' where
  size_le := hadd.keepsNodes.size_le.trans h.size_le
  kind_eq k hk hkn := by
    rw [h.kind_eq k (hadd.size_eq ▸ hk.trans t.size.lt_succ_self) hk.ne, hadd.kind_old k hkn hk.ne]
  child_eq i hi := by
    have hlt : n < t'.size := hadd.size_eq ▸ hadd.lt_size.trans t.size.lt_succ_self
    rw [child?_congr (h.kind_eq n hlt hadd.lt_size.ne), hadd.child?_eq hfield hkind,
      if_neg fun heq => hi heq.2]

end AddsBelow

mutual

/-- Setting up a field adds nodes for it only, and what is found there is what the annotation says. -/
lemma seedField_shows {t : Tree R} {n : NodeId} {id : StructId} {slots : List (Option NodeId)}
    (ht : t.IsArena m) (hn : t.kind? n = some (.aggregate id slots)) :
    ∀ (field : ℕ) (info : ValueInfo R) (s : Symbol), t.child? n field = none →
      t.AddsBelow n {field} (seedField m id n field t info s).1 ∧
        ShowsField m id (seedField m id n field t info s).1 n field (some info) s
  | field, .scalar info, s, hempty => by
    obtain ⟨hty, heq⟩ | ⟨ty, t', hty, hfield, hfresh, hadd, heq⟩ :=
      seedField_scalar ht hn field info s
    · rw [heq]
      exact ⟨.refl t, showsField_of_fieldType?_eq_none hn hty⟩
    · rw [heq]
      have hchild : t'.child? n field = some t.size := by
        rw [hadd.child?_eq hfield hfresh, if_pos ⟨rfl, rfl⟩]
      have hbelow : t'.AddsBelow t.size ∅ t' := .refl t'
      refine ⟨.of_addsChild hadd hfield hfresh hbelow, ?_⟩
      exact showsField_some hadd.kind_filled hty hchild
        (shows_scalar (annotated_apply info s ▸ hadd.kind_last))
  | field, .struct infos, s, hempty => by
    obtain ⟨hscalar, heq⟩ | ⟨ty, inner, t', hty, hfield, hinner, hfresh, hadd, heq⟩ :=
      seedField_struct ht hn field infos s
    · rw [heq]
      refine ⟨.refl t, ?_⟩
      cases hty : m.fieldType? id field with
      | none => exact showsField_of_fieldType?_eq_none hn hty
      | some ty =>
        -- the annotation of fields is ignored
        refine fun path => ⟨s, le_rfl, ?_⟩
        rw [find?_field hn, hempty, hty]
        simp [Module.scalarInfo?_of_isScalar (hscalar ty hty)]
    · rw [heq]
      have hchild : t'.child? n field = some t.size := by
        rw [hadd.child?_eq hfield hfresh, if_pos ⟨rfl, rfl⟩]
      -- the fields of the new node
      obtain ⟨hbelow, hfields⟩ := seedFields_shows (hadd.isArena ht hty hfresh) hadd.kind_last 0
        infos s fun i _ => child?_aggregateNode hadd.kind_last
      have hkeeps := (seedFields_keeps (hadd.isArena ht hty hfresh) hadd.kind_last 0 infos s).2
      obtain ⟨slots', hlast⟩ := hkeeps.aggregate t.size inner _ hadd.kind_last
      have hlt : n < t'.size := hadd.size_eq ▸ hadd.lt_size.trans t.size.lt_succ_self
      have hkind := hbelow.kind_eq n hlt hadd.lt_size.ne
      refine ⟨.of_addsChild hadd hfield hfresh hbelow, ?_⟩
      refine showsField_some (hkind.trans hadd.kind_filled) hty
        ((child?_congr hkind).trans hchild) ?_
      exact shows_struct hlast hinner fun i => by simpa only [Nat.zero_add] using hfields i

/-- Setting up the fields from the given one on adds nodes for them only, and what is found there is
what the annotations say. -/
lemma seedFields_shows {t : Tree R} {n : NodeId} {id : StructId} {slots : List (Option NodeId)}
    (ht : t.IsArena m) (hn : t.kind? n = some (.aggregate id slots)) :
    ∀ (field : ℕ) (infos : List (Option (ValueInfo R))) (s : Symbol),
      (∀ i ≥ field, t.child? n i = none) →
      t.AddsBelow n (Set.Ici field) (seedFields m id n field t infos s).1 ∧
        ∀ i, ShowsField m id (seedFields m id n field t infos s).1 n (field + i) infos[i]?.join s
  | field, [], s, hempty => by
    rw [seedFields]
    exact ⟨.refl t, fun i => showsField_none hn (hempty _ (Nat.le_add_right field i))⟩
  | field, none :: infos, s, hempty => by
    rw [seedFields]
    obtain ⟨hbelow, hfields⟩ := seedFields_shows ht hn (field + 1) infos s
      fun i hi => hempty i (Nat.le_of_succ_le hi)
    obtain ⟨slots', hn'⟩ := (seedFields_keeps ht hn (field + 1) infos s).2.aggregate n id slots hn
    refine ⟨hbelow.mono (Set.Ici_subset_Ici.2 field.le_succ), fun i => ?_⟩
    cases i with
    | zero =>
      exact showsField_none hn' ((hbelow.child_eq field (by simp)).trans (hempty field le_rfl))
    | succ i =>
      rw [← Nat.add_assoc, Nat.add_right_comm]
      exact hfields i
  | field, some info :: infos, s, hempty => by
    rw [seedFields, Fresh.bind_apply]
    obtain ⟨ht', hkeeps⟩ := seedField_keeps ht hn field info s
    obtain ⟨slots', hn'⟩ := hkeeps.aggregate n id slots hn
    obtain ⟨hbelow, hfield⟩ := seedField_shows ht hn field info s (hempty field le_rfl)
    have hsupply := (ensures_seedField m id n field t info s).1
    generalize (seedField m id n field t info s).1 = t' at *
    generalize (seedField m id n field t info s).2 = s' at *
    -- the fields that come later have no nodes yet
    obtain ⟨hbelow', hfields⟩ := seedFields_shows ht' hn' (field + 1) infos s' fun i hi => by
      rw [hbelow.child_eq i (by simpa using (Nat.lt_of_succ_le hi).ne'),
        hempty i (Nat.le_of_succ_le hi)]
    obtain ⟨slots'', hn''⟩ :=
      (seedFields_keeps ht' hn' (field + 1) infos s').2.aggregate n id slots' hn'
    refine ⟨(hbelow.mono (Set.singleton_subset_iff.2 (Set.mem_Ici.2 le_rfl))).trans
      (hbelow'.mono (Set.Ici_subset_Ici.2 field.le_succ)), fun i path => ?_⟩
    cases i with
    | zero =>
      rw [hbelow'.find?_eq ht' hn' hn'' (by simp)]
      exact hfield path
    | succ i =>
      obtain ⟨s'', hle, hfind⟩ := hfields i path
      rw [← Nat.add_assoc, Nat.add_right_comm]
      exact ⟨s'', hsupply.trans hle, hfind⟩

end

/-! ## The tree of an annotated aggregate -/

/-- **The tree of an annotated aggregate tells for every path what the annotation says**: the range,
which is unknown where none is given, and the initial error, with a new symbol, of the annotation of
a scalar to which the fields of the path lead, and nothing if they lead to none. -/
theorem get?_ofInfo (m : Module R) (id : StructId) (infos : List (Option (ValueInfo R)))
    (s : Symbol)
    (path : List PathIndex) : ∃ s', s ≤ s' ∧ (ofInfo m id infos s).1.get? m path
      = (m.scalarInfo? (.struct id) (.struct infos) path).map fun info =>
          ⟨info.range?.getD Range.unknown,
            info.initialError.map fun x => (Affine.withError 0 x s').1⟩ := by
  obtain ⟨-, hfields⟩ := seedFields_shows (isArena_new m id) kind?_new_zero 0 infos s
    fun i _ => child?_aggregateNode kind?_new_zero
  obtain ⟨slots, hroot⟩ := (isRooted_ofInfo m id infos s).root
  have hshows : Shows m (.struct id) (ofInfo m id infos s).1 0 (.struct infos) s := by
    refine shows_struct hroot rfl fun field => ?_
    have hfield := hfields field
    rwa [Nat.zero_add] at hfield
  exact hshows path

end Tree

end Roundoff
