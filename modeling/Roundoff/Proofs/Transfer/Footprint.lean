/-
# The footprint of a visit

A visit of an instruction that is no call changes the estimate of its result and little else: a
store raises the formal parameter that it writes through and sets a field of one object, a return
raises the result of the function, an annotated slot is given its tree, and a comparison gives its
verdict.  What is raised never loses error, and neither do labels.

A rule decides whether it has data before it writes anything.  So a visit that finds no data, or
meets a fault, leaves at most the range that the annotation of the instruction gives to its result.

There is one lemma for each rule that does more than set the estimate of its result, and one for all
the others.  The main result is `visit_footprint`.
-/
import Mathlib
import Roundoff.Proofs.Affine.Order
import Roundoff.Proofs.Number.Exact
import Roundoff.Proofs.Store.Edits
import Roundoff.Proofs.Transfer.Visits

namespace Roundoff

variable {R σ : Type}

/-! ## Objects -/

namespace Store

variable [Number R]

lemma objects_raise (s : Store R) (k : Key) (e : Estimate R) :
    (s.raise k e).2.objects = s.objects := by
  rw [raise]
  split
  · rfl
  · split
    · rfl
    · exact objects_set _ _ _

/-- To set a field changes the tree of the object that the pointer points into. -/
lemma keepsObjects_setField (s : Store R) (m : Module R) (f : Function R) (pointer : Value R)
    (e : Estimate R) :
    s.KeepsObjects {k | (s.objects.resolve? m f pointer).map FieldPath.root = some k}
      { s with objects := (s.objects.setField m f pointer e).2 } := by
  rw [Objects.setField]
  cases s.objects.resolve? m f pointer with
  | none => exact .of_eq rfl
  | some path =>
    exact (KeepsObjects.of_insert path.root _).mono (Set.singleton_subset_iff.2 rfl)

end Store

namespace Body

/-- The object whose tree an instruction may replace: that which a store writes to, or the slot of
an annotated aggregate. -/
def writtenTree? (b : Body R) (o : Objects R) (i : Instruction R) : Option Key :=
  match i.op, i.info with
  | .store _ ptr, _ => (o.resolve? b.module b.function ptr).map FieldPath.root
  | .alloca (.struct _), some (.struct _) => some (b.key i)
  | _, _ => none

/-! ## What changes -/

variable {b : Body ℝ} {a a' : Activation ℝ} {w : σ} {i : Instruction ℝ} {edges : PhiEdges}
  {h : CallHandler ℝ σ}

/-- What the visit of an instruction may change. -/
structure Footprint (b : Body ℝ) (i : Instruction ℝ) (a a' : Activation ℝ) : Prop where
  /-- Nothing is settled. -/
  pinned_eq : a'.pinned = a.pinned
  /-- There is a verdict on a comparison at most, for itself. -/
  verdict_eq : ∀ id, id ≠ i.id ∨ i.op.compared? = none →
    a'.verdicts.get? id = a.verdicts.get? id
  /-- Estimates change only for what the instruction writes. -/
  get?_eq : ∀ k ∉ b.written i, a'.store.get? k = a.store.get? k
  /-- What is written apart from the result loses no error. -/
  risesAt : ∀ k ∈ b.written i, k ≠ b.key i → a.store.RisesAt a'.store k
  /-- At most one tree is replaced. -/
  objects : a.store.KeepsObjects {k | b.writtenTree? a.store.objects i = some k} a'.store
  /-- Values keep their labels. -/
  labels_eq : a'.store.labels = a.store.labels
  /-- No error of a label becomes smaller. -/
  targets : a.store.targets.Rises a'.store.targets

lemma Footprint.refl (b : Body ℝ) (i : Instruction ℝ) (a : Activation ℝ) : b.Footprint i a a where
  pinned_eq := rfl
  verdict_eq _ _ := rfl
  get?_eq _ _ := rfl
  risesAt _ _ _ := .of_eq rfl
  objects := .of_eq rfl
  labels_eq := rfl
  targets := .refl _

/-- What a visit without data leaves: at most the range of the result is new, and it is the
annotated one. -/
structure SetsRangeOnly (b : Body ℝ) (i : Instruction ℝ) (a a' : Activation ℝ) : Prop where
  /-- Nothing is settled. -/
  pinned_eq : a'.pinned = a.pinned
  /-- There is no verdict. -/
  verdicts_eq : a'.verdicts = a.verdicts
  /-- No error changes. -/
  error?_eq : ∀ k, a'.store.error? k = a.store.error? k
  /-- All other estimates stay as they are, and so does that of the result without an annotation. -/
  get?_eq : ∀ k, k ≠ b.key i ∨ i.scalarInfo? = none → a'.store.get? k = a.store.get? k
  /-- The annotated range is recorded. -/
  range?_eq : ∀ info, i.scalarInfo? = some info →
    a'.store.range? (b.key i) = some info.rangeOrZero
  /-- All objects stay as they are. -/
  objects_eq : a'.store.objects = a.store.objects
  /-- Values keep their labels. -/
  labels_eq : a'.store.labels = a.store.labels
  /-- The errors of labels stay as they are. -/
  targets_eq : a'.store.targets = a.store.targets

/-- A visit starts by setting the annotated range. -/
lemma setsRangeOnly_annotatedStore (b : Body ℝ) (i : Instruction ℝ) (a : Activation ℝ) :
    b.SetsRangeOnly i a { a with store := b.annotatedStore a.store i } := by
  cases hinfo : i.scalarInfo? with
  | none =>
    have hstore : b.annotatedStore a.store i = a.store := by rw [annotatedStore, hinfo]
    rw [hstore]
    exact {
      pinned_eq := rfl
      verdicts_eq := rfl
      error?_eq := fun _ => rfl
      get?_eq := fun _ _ => rfl
      range?_eq := fun info hsome => absurd (hsome.symm.trans hinfo) (Option.some_ne_none info)
      objects_eq := rfl
      labels_eq := rfl
      targets_eq := rfl }
  | some info =>
    have hstore : b.annotatedStore a.store i = a.store.setRange (b.key i) info.rangeOrZero := by
      rw [annotatedStore, hinfo]
    rw [hstore]
    exact {
      pinned_eq := rfl
      verdicts_eq := rfl
      error?_eq := fun k => Store.error?_setRange _ _ _ _
      get?_eq := fun k hk => by
        have hne : k ≠ b.key i := hk.resolve_right (hinfo ▸ Option.some_ne_none info)
        rw [Store.get?_setRange, if_neg hne.symm]
      range?_eq := fun info' hinfo' => by
        cases hinfo.symm.trans hinfo'
        rw [Store.range?, Store.get?_setRange, if_pos rfl]
        rfl
      objects_eq := rfl
      labels_eq := rfl
      targets_eq := rfl }

/-- What a visit changes that starts by setting the annotated range. -/
lemma SetsRangeOnly.footprint {a₀ : Activation ℝ} (ha₀ : b.SetsRangeOnly i a a₀)
    (ha : b.Footprint i a₀ a') : b.Footprint i a a' where
  pinned_eq := ha.pinned_eq.trans ha₀.pinned_eq
  verdict_eq id hid := (ha.verdict_eq id hid).trans (by rw [ha₀.verdicts_eq])
  get?_eq k hk := (ha.get?_eq k hk).trans
    (ha₀.get?_eq k (.inl fun heq => hk (heq ▸ b.key_mem_written i)))
  risesAt k hk hne := Store.RisesAt.trans (.of_eq (ha₀.get?_eq k (.inl hne))) (ha.risesAt k hk hne)
  objects := by
    have hkeeps := ha.objects
    rw [ha₀.objects_eq] at hkeeps
    exact Store.KeepsObjects.trans (.of_eq ha₀.objects_eq) hkeeps
  labels_eq := ha.labels_eq.trans ha₀.labels_eq
  targets := ha₀.targets_eq ▸ ha.targets

/-! ## Rules -/

/-- A rule that sets the estimate of the result. -/
lemma SetsResult.footprint (ha : b.SetsResult i a a') : b.Footprint i a a' := by
  obtain ⟨e, rfl⟩ := ha
  have hget : ∀ k ≠ b.key i, (b.writeEstimate a i e).store.get? k = a.store.get? k :=
    fun k hk => by rw [writeEstimate, Store.get?_set, if_neg hk.symm]
  exact {
    pinned_eq := rfl
    verdict_eq := fun _ _ => rfl
    get?_eq := fun k hk => hget k fun heq => hk (heq ▸ b.key_mem_written i)
    risesAt := fun k _ hne => .of_eq (hget k hne)
    objects := .of_eq (Store.objects_set _ _ _)
    labels_eq := Store.labels_set _ _ _
    targets := Store.rises_set _ _ _ }

lemma comparison_footprint {lhs rhs : Value ℝ} (hop : i.op.compared? = some (lhs, rhs)) :
    (b.comparison a i lhs rhs).Ensures (b.Footprint i a) := by
  refine (Attempt.ensures_both (ensures_operand _ _ _) (ensures_operand _ _ _)).andThen fun p =>
    Attempt.ensures_pure { Footprint.refl b i a with verdict_eq := fun id hid => ?_ }
  rcases hid with hid | hnone
  · exact (Table.get?_insert _ _ _ _).trans (if_neg hid.symm)
  · rw [hop] at hnone
    cases hnone

/-- A store sets its own estimate and raises the formal parameter that it writes through. -/
lemma edits_stored (s : Store ℝ) (e : Estimate ℝ) (formal : Option UInt32) :
    let s' := match formal with
      | some n => ((s.set (b.key i) e).raise (.arg b.function.id n) e).2
      | none => s.set (b.key i) e
    s.Edits {k | k = b.key i ∨ ∃ n, formal = some n ∧ k = .arg b.function.id n} s' ∧
      s'.objects = s.objects ∧ ∀ k ≠ b.key i, s.RisesAt s' k := by
  have hown : ∀ k ≠ b.key i, s.RisesAt (s.set (b.key i) e) k :=
    fun k hk => .of_eq (by rw [Store.get?_set, if_neg hk.symm])
  cases formal with
  | none => exact ⟨.set .refl (.inl rfl) e, Store.objects_set _ _ _, hown⟩
  | some n =>
    refine ⟨.raise (.set .refl (.inl rfl) e) (.inr ⟨n, rfl, rfl⟩) e, ?_, fun k hk =>
      (hown k hk).trans (Store.risesAt_raise _ _ _ _)⟩
    exact (Store.objects_raise _ _ _).trans (Store.objects_set _ _ _)

/-- What a store leaves: the fields of objects come last and change nothing else. -/
lemma setField_footprint {value ptr : Value ℝ} (hop : i.op = .store value ptr) {s : Store ℝ}
    (hedits : a.store.Edits
      {k | k = b.key i ∨ ∃ n, b.function.formalOf? ptr = some n ∧ k = .arg b.function.id n} s)
    (hobjects : s.objects = a.store.objects) (hrises : ∀ k ≠ b.key i, a.store.RisesAt s k)
    (e : Estimate ℝ) :
    b.Footprint i a { a with store := { s with
      objects := (s.objects.setField b.module b.function ptr e).2 } } where
  pinned_eq := rfl
  verdict_eq _ _ := rfl
  get?_eq k hk := hedits.writes.get?_eq (by rwa [written, hop] at hk)
  risesAt k _ hne := hrises k hne
  objects := by
    have hroots : {k | b.writtenTree? a.store.objects i = some k} = {k |
        (a.store.objects.resolve? b.module b.function ptr).map FieldPath.root = some k} := by
      simp only [writtenTree?, hop]
    rw [hroots, ← hobjects]
    exact Store.KeepsObjects.trans (.of_eq hobjects) (s.keepsObjects_setField _ _ _ e)
  labels_eq := hedits.labels_eq
  targets := hedits.rises

lemma store_footprint {value ptr : Value ℝ} (hop : i.op = .store value ptr) :
    (b.store a i value ptr).Ensures (b.Footprint i a) := by
  have hstored : (b.storedEstimate a.store value ptr).Ensures fun _ => True :=
    Attempt.ensures_orElse
      ((ensures_operand a.store value _).andThen fun _ => Attempt.ensures_pure trivial)
      (Fresh.ensures_pure fun _ _ => trivial)
  refine hstored.andThen fun e => Attempt.ensures_pure ?_
  obtain ⟨hedits, hobjects, hrises⟩ :=
    b.edits_stored (i := i) a.store e (b.function.formalOf? ptr)
  exact setField_footprint hop hedits hobjects hrises e

/-- A return raises the result of the function, and sets nothing else but its own estimate. -/
lemma ret_footprint {value : Option (Value ℝ)} (hop : i.op = .ret value) :
    (b.ret a i value).Ensures (b.Footprint i a) := by
  intro n
  have hown (o : Operand ℝ) : a.store.Edits (b.written i) (b.write a i o.error).store :=
    .setError .refl (b.key_mem_written i) _
  have hkept (o : Operand ℝ) :
      ∀ k ≠ b.key i, (b.write a i o.error).store.get? k = a.store.get? k :=
    fun k hk => (a.store.writes_setError (b.key i) o.error).get?_eq hk
  have hwrite (o : Operand ℝ) : b.Footprint i a (b.write a i o.error) := {
    pinned_eq := rfl
    verdict_eq := fun _ _ => rfl
    get?_eq := fun k hk => (hown o).writes.get?_eq hk
    risesAt := fun k _ hne => .of_eq (hkept o k hne)
    objects := .of_eq (Store.objects_setError _ _ _)
    labels_eq := (hown o).labels_eq
    targets := (hown o).rises }
  refine (attains_ret (fun v _ => ((ensures_operand _ v _).from n).attains)
    (fun o _ _ _ => hwrite o) fun o n' _ _ hlarger => ?_).ensuresFrom
  have hflatten : Fresh.EnsuresFrom n' o.error.flatten fun error =>
      error.noiseBound = o.absError :=
    ⟨((Affine.ensures_withError _ _).from n').1, Affine.noiseBound_flatten _ n'⟩
  refine hflatten.attains.mono fun error _ _ herror => ?_
  have hsummary : .function b.function.id ∈ b.written i := by
    rw [written, hop]
    exact Set.mem_insert_of_mem _ rfl
  have hedits := (hown o).set hsummary ⟨o.range, some error⟩
  exact {
    pinned_eq := rfl
    verdict_eq := fun _ _ => rfl
    get?_eq := fun k hk => hedits.writes.get?_eq hk
    risesAt := fun k hk hne => by
      rw [written, hop] at hk
      obtain rfl := hk.resolve_left hne
      intro e he
      refine ⟨_, (Store.get?_set _ _ _ _).trans (if_pos rfl), fun x hx =>
        ⟨error.noiseBound, rfl, ?_⟩⟩
      obtain ⟨old, hold, rfl⟩ := Option.map_eq_some_iff.1 hx
      rw [herror]
      exact (hlarger old (by rw [Store.error?, he]; exact hold)).le
    objects := .of_eq ((Store.objects_set _ _ _).trans (Store.objects_setError _ _ _))
    labels_eq := hedits.labels_eq
    targets := hedits.rises }

/-- The slot of an annotated aggregate gets its tree. -/
lemma alloca_footprint {ty : Ty} (hop : i.op = .alloca ty) (n : Symbol) :
    ExceptT.EnsuresFrom n (b.alloca a i ty) fun o =>
      ∀ a', o = some a' → b.Footprint i a a' := by
  refine (attains_alloca_of_seed (Q := fun a' _ => b.Footprint i a a')
    fun id infos hty hinfo => ?_).ensuresFrom
  refine ((Objects.ensures_seed_insert _ _ _ _ _).from n).attains.mono fun _ _ _ hobjects => ?_
  obtain ⟨tree, rfl⟩ := hobjects
  have hroot : b.writtenTree? a.store.objects i = some (b.key i) := by
    simp only [writtenTree?, hop, hty, hinfo]
  exact { Footprint.refl b i a with
    objects := (Store.KeepsObjects.of_insert (b.key i) tree).mono
      (Set.singleton_subset_iff.2 hroot) }

/-! ## Visits -/

/-- What a rule leaves that follows no call: the analysis of the program goes on as before, the
state changes within the footprint of the instruction, and not at all if there are no data. -/
structure Applies (b : Body ℝ) (i : Instruction ℝ) (a : Activation ℝ) (w : σ)
    (o : Outcome ℝ σ Bool) : Prop where
  /-- The analysis of the whole program goes on as before. -/
  world_eq : o.world = w
  /-- The state changes within the footprint. -/
  footprint : b.Footprint i a o.state
  /-- Without data the state stays as it is. -/
  state_eq : o.answer ≠ .ok true → o.state = a

lemma Applies.nothing {answer : Except Fault Bool} : b.Applies i a w ⟨answer, a, w⟩ :=
  ⟨rfl, .refl b i a, fun _ => rfl⟩

lemma attempt_applies {rule : Attempt (Activation ℝ)} (hrule : rule.Ensures (b.Footprint i a)) :
    (attempt a w rule).Ensures (b.Applies i a w) := by
  refine Fresh.Ensures.bind hrule fun o ho => ?_
  cases o with
  | none => exact Fresh.ensures_pure .nothing
  | some a' => exact Fresh.ensures_pure ⟨rfl, ho a' rfl, fun h => absurd rfl h⟩

lemma attempt_applies_setsResult {rule : Attempt (Activation ℝ)}
    (hrule : rule.Ensures (b.SetsResult i a)) : (attempt a w rule).Ensures (b.Applies i a w) :=
  attempt_applies (hrule.mono fun _ ha => ha.footprint)

/-- **Each rule keeps to the footprint of its instruction.** -/
lemma operate_applies (hcall : i.op.callSite? = none) :
    (b.operate h edges a w i).Ensures (b.Applies i a w) := by
  rw [operate]
  cases hop : i.op with
  | binary op lhs rhs => exact attempt_applies_setsResult (binary_setsResult op lhs rhs)
  | cast op v => exact attempt_applies_setsResult (cast_setsResult op v)
  | icmp _ lhs rhs | fcmp _ lhs rhs =>
    exact attempt_applies (comparison_footprint (by rw [hop]; rfl))
  | select _ t f => exact attempt_applies_setsResult (select_setsResult t f)
  | phi incoming => exact attempt_applies_setsResult (phi_setsResult incoming)
  | load ptr => exact attempt_applies_setsResult (load_setsResult ptr)
  | store value ptr => exact attempt_applies (store_footprint hop)
  | element base _ => exact attempt_applies_setsResult (element_setsResult base)
  | ret value => exact attempt_applies (ret_footprint hop)
  | br | condBr | unreachable => exact Fresh.ensures_pure .nothing
  | alloca ty =>
    intro n
    refine Fresh.EnsuresFrom.bind (alloca_footprint (b := b) (a := a) hop n) fun r n' _ hr => ?_
    cases r with
    | error fault => exact Fresh.ensuresFrom_pure .nothing
    | ok o =>
      cases o with
      | none => exact Fresh.ensuresFrom_pure .nothing
      | some a' =>
        exact Fresh.ensuresFrom_pure ⟨rfl, hr _ rfl a' rfl, fun hno => absurd rfl hno⟩
  | call callee args | invoke callee args _ _ =>
    rw [hop] at hcall
    cases hcall

/-- An annotated initial error gives the estimate of the result. -/
lemma ensures_seed_setsResult (info : ScalarInfo ℝ) :
    (a.store.seed (b.key i) info).Ensures fun s => b.SetsResult i a { a with store := s } :=
  have hannotated : (Store.annotated info).Ensures fun _ => True :=
    info.ensures_error?.andThen fun _ => Fresh.ensures_pure trivial
  hannotated.andThen fun e => Fresh.ensures_pure ⟨e, rfl⟩

/-- **The visit of an instruction that is no call keeps to the footprint of the instruction.**  If
it finds no data, or meets a fault, it sets the annotated range of the result at most. -/
theorem visit_footprint (hcall : i.op.callSite? = none) (n : Symbol) :
    (b.visit h edges a w i n).1.world = w ∧ b.Footprint i a (b.visit h edges a w i n).1.state ∧
    ((b.visit h edges a w i n).1.answer ≠ .ok true →
      b.SetsRangeOnly i a (b.visit h edges a w i n).1.state) := by
  by_cases hpinned : a.pinned.contains i.id = true
  · rw [visit, if_pos hpinned]
    exact ⟨rfl, .refl b i a, fun hno => absurd rfl hno⟩
  by_cases hgiven : i.isGiven = true
  · obtain ⟨info, hinfo, herror⟩ := (Option.any_eq_true _ _).1 hgiven
    have hvisit : b.visit h edges a w i = (do
        let s ← a.store.seed (b.key i) info
        return ⟨.ok true, { a with store := s }, w⟩) := by
      rw [visit, if_neg hpinned, hinfo]
      exact if_pos herror
    have hseed := ((ensures_seed_setsResult (b := b) (a := a) (i := i) info).from n).2
    rw [hvisit]
    exact ⟨rfl, hseed.footprint, fun hno => absurd rfl hno⟩
  · rw [visit_eq_operate (Bool.not_eq_true _ ▸ hpinned) (Bool.not_eq_true _ ▸ hgiven)]
    have hrange := b.setsRangeOnly_annotatedStore i a
    have hrule : b.Applies i { a with store := b.annotatedStore a.store i } w
        (b.operate h edges { a with store := b.annotatedStore a.store i } w i n).1 :=
      ((operate_applies hcall).from n).2
    exact ⟨hrule.world_eq, hrange.footprint hrule.footprint, fun hno =>
      (hrule.state_eq hno).symm ▸ hrange⟩

end Body

/-! ## A store through a formal parameter -/

namespace WrittenParameter

/-- The number is stored where the pointer points. -/
def write : Instruction ℝ := ⟨⟨0⟩, ⟨0⟩, "", .void, .store (.arg 0) (.arg 1), none, none⟩

/-- A function with a number and a pointer. -/
def function : Function ℝ where
  id := ⟨0⟩
  name := "put"
  params := #[⟨"x", .float 64, none⟩, ⟨"p", .pointer (.float 64), none⟩]
  retTy := .void
  blocks := #[⟨⟨0⟩, "entry", [⟨0⟩, ⟨1⟩], none, none⟩]
  insts := #[write, ⟨⟨1⟩, ⟨0⟩, "", .void, .ret none, none, none⟩]
  maxRecursion := none
  entryPoint := false

/-- The body of the function. -/
def body : Body ℝ := .of ⟨"m", #[function], #[], #[]⟩ {} function

/-- The number has an error of one, and nothing is recorded for the pointer. -/
noncomputable def before : Activation ℝ where
  store := (Store.forModule body.module).set (.arg ⟨0⟩ 0)
    ⟨Range.unknown, some (Affine.withError 0 1 0).1⟩

/-- What the store leaves. -/
noncomputable def after : Activation ℝ :=
  (body.visit CallHandler.none .all before () write 1).1.state

/-- The store keeps to its footprint, to which the pointer belongs. -/
theorem visit_footprint_write : write.op.callSite? = none ∧ body.Footprint write before after ∧
    before.store.error? (.arg ⟨0⟩ 1) = none ∧
    after.store.error? (.arg ⟨0⟩ 1) = some (Affine.withError 0 (1 : ℝ) 0).1 := by
  have hcall : write.op.callSite? = none := rfl
  refine ⟨hcall, (Body.visit_footprint hcall 1).2.1, ?_, ?_⟩
  · with_unfolding_all rfl
  · with_unfolding_all rfl

end WrittenParameter

end Roundoff
