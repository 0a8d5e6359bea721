/-
# Constant paths into aggregates

A constant path leads from an aggregate over fields and array elements to a scalar.  Its indices are
within bounds, so two paths from one aggregate either are the same or part ways at some index.

What has been set at the end of a path in the tree of an aggregate is found at the end of every path
that selects the same fields, since the tree does not tell array elements apart.  In a new tree
nothing is found at the end of any other path.
-/
import Mathlib
import Roundoff.Aggregate.Objects
import Roundoff.Memory.Origin

namespace Roundoff

variable {R : Type} {m : Module R} {ty : Ty} {id : StructId} {c d : Int64} {p q : List Int64}

/-! ## Paths -/

/-- The type is neither an aggregate nor an array. -/
def Ty.IsScalar : Ty → Prop
  | .struct _ | .array _ _ => False
  | _ => True

lemma Ty.arrayDepth_struct : (struct id).arrayDepth = 0 := rfl

lemma Ty.arrayDepth_array {elem : Ty} {length : UInt64} :
    (array elem length).arrayDepth = elem.arrayDepth + 1 := rfl

/-- `m.LeadsToScalar ty p`: from an object of the type `ty` the indices `p`, which are within
bounds, lead to a scalar. -/
inductive Module.LeadsToScalar (m : Module R) : Ty → List Int64 → Prop
  /-- The object is a scalar itself. -/
  | scalar {ty : Ty} (h : ty.IsScalar) : LeadsToScalar m ty []
  /-- The first index selects a field. -/
  | field {id : StructId} {c : Int64} {p : List Int64} {ty : Ty} (hc : 0 ≤ c)
      (hty : m.fieldType? id c.toInt.toNat = some ty) (hp : LeadsToScalar m ty p) :
      LeadsToScalar m (.struct id) (c :: p)
  /-- The first index selects an array element. -/
  | element {elem : Ty} {length : UInt64} {c : Int64} {p : List Int64} (hc : 0 ≤ c)
      (hlt : c.toInt < length.toNat) (hp : LeadsToScalar m elem p) :
      LeadsToScalar m (.array elem length) (c :: p)

/-- The indices on a path that select fields. -/
def Module.fieldsOn (m : Module R) : Ty → List Int64 → List Int64
  | .struct id, c :: p =>
    match m.fieldType? id c.toInt.toNat with
    | some ty => c :: m.fieldsOn ty p
    | none => [c]
  | .array elem _, _ :: p => m.fieldsOn elem p
  | _, _ => []

lemma Module.fieldsOn_field (hty : m.fieldType? id c.toInt.toNat = some ty) :
    m.fieldsOn (.struct id) (c :: p) = c :: m.fieldsOn ty p := by
  rw [fieldsOn, hty]

lemma Module.fieldsOn_element {elem : Ty} {length : UInt64} :
    m.fieldsOn (.array elem length) (c :: p) = m.fieldsOn elem p := by
  rw [fieldsOn]

/-- Indices that are not negative are told apart by the numbers of the fields that they select. -/
lemma eq_of_toNat_toInt_eq (hc : 0 ≤ c) (hd : 0 ≤ d) (h : c.toInt.toNat = d.toInt.toNat) :
    c = d := by
  rw [Int64.le_iff_toInt_le, Int64.toInt_zero] at hc hd
  exact Int64.toInt_inj.1 (by omega)

/-- **Two paths within bounds meet only if they are the same.** -/
theorem Module.LeadsToScalar.pathsMayMeet_eq (hp : m.LeadsToScalar ty p)
    (hq : m.LeadsToScalar ty q) :
    Origin.pathsMayMeet (p.map some) (q.map some) = decide (p = q) := by
  induction hp generalizing q with
  | scalar h =>
    cases hq with
    | scalar _ => rfl
    | field | element => exact h.elim
  | @field id c p ty hc hty hp ih =>
    cases hq with
    | scalar h => exact h.elim
    | @field _ d q ty' hd hty' hq =>
      rw [List.map_cons, List.map_cons, Origin.pathsMayMeet]
      by_cases h : c = d
      · subst h
        obtain rfl := Option.some.inj (hty.symm.trans hty')
        rw [ih hq]
        simp
      · simp [h]
  | @element elem length c p hc hlt hp ih =>
    cases hq with
    | scalar h => exact h.elim
    | @element _ _ d q hd hlt' hq =>
      rw [List.map_cons, List.map_cons, Origin.pathsMayMeet, ih hq]
      by_cases h : c = d <;> simp [h]

/-! ## Trees -/

/-- The step that a constant index makes. -/
def PathIndex.ofInt (c : Int64) : PathIndex := if 0 ≤ c then .const c.toInt.toNat else .dynamic

lemma PathIndex.ofInt_of_nonneg (hc : 0 ≤ c) : ofInt c = .const c.toInt.toNat := if_pos hc

lemma PathIndex.map_of_constInt (p : List Int64) :
    (p.map Value.constInt : List (Value R)).map PathIndex.of = p.map PathIndex.ofInt := by
  rw [List.map_map]
  rfl

lemma Module.lt_structWidth {field : ℕ} (h : m.fieldType? id field = some ty) :
    field < m.structWidth id := by
  obtain ⟨s, hs, hfield⟩ := Option.bind_eq_some_iff.1 h
  rw [structWidth, hs]
  exact (List.getElem?_eq_some_iff.1 hfield).1

namespace Tree

variable {t t' : Tree R} {n l child : NodeId} {e : Estimate R} {path : List PathIndex} {skip : ℕ}

lemma kind?_of_node? {node : Node R} (h : t.node? n = some node) : t.kind? n = some node.kind := by
  rw [kind?, h, Option.map_some]

/-- A path that goes on at a scalar ends there. -/
lemma find?_leaf (h : t.kind? n = some (.leaf e)) : find? m t n skip path = some e := by
  cases path <;> simp [find?, h]

/-- An array dimension is skipped. -/
lemma find?_skip (step : PathIndex) :
    find? m t n (skip + 1) (step :: path) = find? m t n skip path := by
  cases hkind : t.kind? n with
  | none => cases path <;> simp [find?, hkind]
  | some kind =>
    cases kind with
    | leaf e => rw [find?_leaf hkind, find?_leaf hkind]
    | aggregate ty fields => simp [find?, hkind]

/-- A new node is the last one, and only the node above it changes. -/
lemma exists_addChild {field : ℕ} {above : Option NodeId} {fields : List (Option NodeId)}
    (hn : t.node? n = some ⟨above, .aggregate id fields⟩) (hfield : field < fields.length)
    (kind : NodeKind R) :
    ∃ t', t.addChild n field kind = some (t.size, t') ∧
      t'.node? n = some ⟨above, .aggregate id (fields.set field (some t.size))⟩ ∧
      t'.node? t.size = some ⟨some n, kind⟩ ∧ t'.size = t.size + 1 ∧
      ∀ k < t.size, k ≠ n → t'.node? k = t.node? k := by
  have hlt : n < t.nodes.size := (Array.getElem?_eq_some_iff.1 hn).1
  refine ⟨_, by rw [addChild, hn]; exact if_pos hfield, ?_, ?_, ?_, fun k hk hne => ?_⟩
  · rw [node?, Array.getElem?_push]
    simp [hlt, hlt.ne]
  · rw [node?, Array.getElem?_push]
    simp [size]
  · simp [size]
  · rw [node?, Array.getElem?_push]
    simp [size] at hk
    simp [hk.ne, Ne.symm hne, node?]

variable [Number R]

lemma locate_leaf (h : t.kind? n = some (.leaf e)) : locate m t n skip path = (some n, t) := by
  cases path <;> simp [locate, h]

lemma locate_skip (step : PathIndex) :
    locate m t n (skip + 1) (step :: path) = locate m t n skip path := by
  cases hkind : t.kind? n with
  | none => cases path <;> simp [locate, hkind]
  | some kind =>
    cases kind with
    | leaf e => rw [locate_leaf hkind, locate_leaf hkind]
    | aggregate ty fields => simp [locate, hkind]

/-! ### One path in a new tree -/

/-- The node that is made for an element of the given type. -/
def freshKind (m : Module R) (ty : Ty) : NodeKind R :=
  match ty.stripArrays with
  | .struct inner => m.aggregateNode inner
  | _ => .leaf Estimate.unknown

/-- What the search for a path from the node `n`, which stands for an element of the given type and
has no nodes below it, leaves: a tree with the node `l` for the scalar at the end of the path. -/
structure Locates (m : Module R) (ty : Ty) (p : List Int64) (t : Tree R) (n : NodeId) (t' : Tree R)
    (l : NodeId) : Prop where
  /-- The search finds the node. -/
  locate_eq : locate m t n ty.arrayDepth (p.map .ofInt) = (some l, t')
  /-- Nothing is known of the scalar yet. -/
  kind_eq : t'.kind? l = some (.leaf Estimate.unknown)
  /-- There are no fewer nodes than before. -/
  size_le : t.size ≤ t'.size
  /-- Apart from the first one, the nodes that there were stay as they are. -/
  kept : ∀ k < t.size, k ≠ n → t'.node? k = t.node? k
  /-- Once an estimate is set for the scalar, it is found by the paths that select the same fields,
  and nothing is found by the others. -/
  find?_eq : ∀ {t'' : Tree R} {e : Estimate R}, t''.kind? l = some (.leaf e) →
    (∀ k ≠ l, t''.node? k = t'.node? k) → ∀ {q : List Int64}, m.LeadsToScalar ty q →
    find? m t'' n ty.arrayDepth (q.map .ofInt)
      = if m.fieldsOn ty q = m.fieldsOn ty p then some e else none

lemma locates_scalar (hty : ty.IsScalar) (hn : t.kind? n = some (freshKind m ty)) :
    Locates m ty [] t n t n := by
  have hkind : t.kind? n = some (.leaf Estimate.unknown) := by
    cases ty with
    | struct id | array elem length => exact hty.elim
    | _ => exact hn
  refine ⟨locate_leaf hkind, hkind, le_rfl, fun _ _ _ => rfl, fun hl _ q hq => ?_⟩
  cases hq with
  | scalar _ => rw [find?_leaf hl, if_pos rfl]
  | field | element => exact hty.elim

lemma Locates.element {elem : Ty} (h : Locates m elem p t n t' l) (length : UInt64) (c : Int64) :
    Locates m (.array elem length) (c :: p) t n t' l := by
  refine ⟨?_, h.kind_eq, h.size_le, h.kept, fun hl hne q hq => ?_⟩
  · rw [List.map_cons, Ty.arrayDepth_array, locate_skip, h.locate_eq]
  · cases hq with
    | scalar hty => exact hty.elim
    | element hd hlt hq =>
      rw [List.map_cons, Ty.arrayDepth_array, find?_skip, Module.fieldsOn_element,
        Module.fieldsOn_element, h.find?_eq hl hne hq]

lemma Locates.field (hc : 0 ≤ c) (hty : m.fieldType? id c.toInt.toNat = some ty)
    {above : Option NodeId} (hn : t.node? n = some ⟨above, m.aggregateNode id⟩) {t₁ : Tree R}
    (hadd : t.addChild n c.toInt.toNat (freshKind m ty) = some (t.size, t₁))
    (hparent : t₁.node? n = some ⟨above, .aggregate id
      ((List.replicate (m.structWidth id) none).set c.toInt.toNat (some t.size))⟩)
    (hsize : t₁.size = t.size + 1) (hkept : ∀ k < t.size, k ≠ n → t₁.node? k = t.node? k)
    (h : Locates m ty p t₁ t.size t' l) : Locates m (.struct id) (c :: p) t n t' l := by
  have hwidth := Module.lt_structWidth hty
  have hlt : n < t.size := (Array.getElem?_eq_some_iff.1 hn).1
  have hparent' : t'.node? n = t₁.node? n :=
    h.kept n (hsize ▸ Nat.lt_succ_of_lt hlt) (Nat.ne_of_lt hlt)
  -- the node found is a scalar, and the first one is not
  have hne : n ≠ l := by
    rintro rfl
    have hkind := h.kind_eq
    rw [kind?, hparent', hparent] at hkind
    cases hkind
  refine ⟨?_, h.kind_eq, (hsize.ge.trans' t.size.le_succ).trans h.size_le, fun k hk hkn => ?_,
    fun {t'' e} hl hne' {q} hq => ?_⟩
  · rw [List.map_cons, PathIndex.ofInt_of_nonneg hc, Ty.arrayDepth_struct, ← h.locate_eq]
    simp only [locate, kind?_of_node? hn, Module.aggregateNode, hty]
    rw [List.getElem?_replicate_of_lt hwidth]
    dsimp only
    erw [hadd]
  · rw [h.kept k (hsize ▸ Nat.lt_succ_of_lt hk) (Nat.ne_of_lt hk), hkept k hk hkn]
  · cases hq with
    | scalar hscalar => exact hscalar.elim
    | @field _ d q ty' hd hty' hq =>
      have hnode : t''.kind? n = some (.aggregate id
          ((List.replicate (m.structWidth id) none).set c.toInt.toNat (some t.size))) :=
        kind?_of_node? (by rw [hne' n hne, hparent', hparent])
      rw [List.map_cons, PathIndex.ofInt_of_nonneg hd, Ty.arrayDepth_struct,
        Module.fieldsOn_field hty, Module.fieldsOn_field hty']
      simp only [find?, hnode, hty']
      by_cases hcd : d = c
      · subst hcd
        obtain rfl := Option.some.inj (hty.symm.trans hty')
        have hfind := h.find?_eq hl hne' hq
        rw [List.getElem?_set_self (by rwa [List.length_replicate])]
        simp [hfind]
      · have hindex : c.toInt.toNat ≠ d.toInt.toNat := fun heq =>
          hcd (eq_of_toNat_toInt_eq hc hd heq).symm
        rw [List.getElem?_set_ne hindex, List.getElem?_replicate_of_lt (Module.lt_structWidth hty')]
        simp [hcd]

/-- **A new tree holds one path.** -/
theorem exists_locates (hp : m.LeadsToScalar ty p) (hn : t.kind? n = some (freshKind m ty)) :
    ∃ t' l, Locates m ty p t n t' l := by
  induction hp generalizing t n with
  | scalar hty => exact ⟨t, n, locates_scalar hty hn⟩
  | element hc hlt hp ih =>
    obtain ⟨t', l, h⟩ := ih hn
    exact ⟨t', l, h.element _ _⟩
  | @field id c p ty hc hty hp ih =>
    obtain ⟨⟨above, kind⟩, hnode, rfl⟩ := Option.map_eq_some_iff.1 hn
    have hlength : c.toInt.toNat <
        (List.replicate (m.structWidth id) (none : Option NodeId)).length := by
      rw [List.length_replicate]
      exact Module.lt_structWidth hty
    obtain ⟨t₁, hadd, hparent, hchild, hsize, hkept⟩ :=
      exists_addChild hnode hlength (freshKind m ty)
    obtain ⟨t', l, h⟩ := ih (kind?_of_node? hchild)
    exact ⟨t', l, h.field hc hty hnode hadd hparent hsize hkept⟩

/-- What the tree of an aggregate of which nothing was known tells after a scalar has been set. -/
theorem get?_set_new (hp : m.LeadsToScalar (.struct id) p) (e : Estimate R)
    (hq : m.LeadsToScalar (.struct id) q) :
    ((new m id).set m (p.map .ofInt) e).2.get? m (q.map .ofInt)
      = if m.fieldsOn (.struct id) q = m.fieldsOn (.struct id) p then some e else none := by
  obtain ⟨t', l, h⟩ := exists_locates (t := new m id) (n := 0) hp rfl
  obtain ⟨⟨above, kind⟩, hnode, hkind⟩ := Option.map_eq_some_iff.1 h.kind_eq
  have hlocate : locate m (new m id) 0 0 (p.map .ofInt) = (some l, t') := h.locate_eq
  obtain rfl : kind = .leaf Estimate.unknown := hkind
  have hlt : l < t'.nodes.size := (Array.getElem?_eq_some_iff.1 hnode).1
  rw [set, hlocate]
  simp only [hnode]
  refine h.find?_eq ?_ (fun k hk => ?_) hq
  · rw [kind?, node?]
    simp [hlt]
  · rw [node?, node?]
    simp [Ne.symm hk]

end Tree

end Roundoff
