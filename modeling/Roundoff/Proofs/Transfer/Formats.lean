/-
# The formats of recorded ranges

A rule never makes up a format.  The range that it records is the annotated one, that of an operand,
or the image, the hull or the point of such a range, so its format is annotated, or recorded before,
or the one that stands for no representation.  So if all formats that a store records are of a set
that includes the latter, and so are those of the annotations of a body, then this holds at every
moment of a run through the body, if the answers to calls keep it.
-/
import Mathlib
import Roundoff.Proofs.Memory.Sources
import Roundoff.Proofs.Range
import Roundoff.Proofs.Store.Estimates
import Roundoff.Proofs.Transfer.Events
import Roundoff.Proofs.Transfer.Moments

namespace Roundoff

variable {R σ : Type} [Number R] {F : Set Format}

/-! ## Stores -/

omit [Number R] in
/-- The formats of all ranges that a store records are of the set. -/
abbrev Store.KeepsTo (F : Set Format) (s : Store R) : Prop :=
  s.All fun e => e.range.format ∈ F

/-- The formats of a function's annotations are of the set. -/
structure Function.AnnotatesIn (F : Set Format) (f : Function R) : Prop where
  /-- The annotations of formal parameters. -/
  params : ∀ p ∈ f.params, ∀ v, p.info = some v → ∀ si, v.Mentions si → si.format ∈ F
  /-- The annotations of instructions. -/
  insts : ∀ i ∈ f.insts, ∀ v, i.info = some v → ∀ si, v.Mentions si → si.format ∈ F

omit [Number R] in
lemma Estimate.lasts_format : Estimate.Lasts fun (e : Estimate R) _ => e.range.format ∈ F :=
  fun _ _ _ _ he => he

section Formats

variable (hF : Format.none ∈ F)

include hF

lemma Estimate.isPartwise_format : Estimate.IsPartwise fun e : Estimate R => e.range.format ∈ F :=
  ⟨hF, hF, fun _ _ he _ => he⟩

/-- An annotation gives an estimate in its format, or in none. -/
lemma ScalarInfo.attains_format {info : ScalarInfo R} (hinfo : info.format ∈ F) :
    info.Attains fun e _ => e.range.format ∈ F where
  value n := ((info.ensures_error?).from n).bind fun _ n' _ _ =>
    Fresh.ensuresFrom_pure (show info.rangeOrZero.format ∈ F from info.format_rangeOrZero ▸ hinfo)
  field n := by
    have hrange : (info.range?.getD Range.unknown).format ∈ F := by
      rw [range?]
      cases info.bounds with
      | none => exact hF
      | some ab => exact (Range.format_of info.format ab.1 ab.2).symm ▸ hinfo
    exact ((info.ensures_error?).from n).bind fun _ n' _ _ => Fresh.ensuresFrom_pure hrange

end Formats

namespace Body

variable {b : Body R} {s : Store R} {a : Activation R} {i : Instruction R} {v : Value R}
  {format : Option Format} {e : Estimate R}

/-! ## Operands -/

omit [Number R] in
lemma mem_of_formatOf? (hs : s.KeepsTo F) : ∀ f ∈ b.formatOf? s v, f ∈ F := by
  intro f hf
  obtain ⟨e, he, rfl⟩ := Option.map_eq_some_iff.1 hf
  exact hs.record? he

omit [Number R] in
lemma format_mem_of_resultRange? (hs : s.KeepsTo F) : ∀ r ∈ b.resultRange? s i, r.format ∈ F := by
  intro r hr
  obtain ⟨e, he, rfl⟩ := Option.map_eq_some_iff.1 hr
  exact hs.get? he

omit [Number R] in
lemma mem_of_resultFormat (hs : s.KeepsTo F) :
    ∀ f ∈ (b.resultRange? s i).map Range.format, f ∈ F := by
  intro f hf
  obtain ⟨r, hr, rfl⟩ := Option.map_eq_some_iff.1 hf
  exact format_mem_of_resultRange? hs r hr

omit [Number R] in
/-- A constant operand is read in the format of the result, or else in that of the other operand. -/
lemma mem_of_or (hs : s.KeepsTo F) :
    ∀ f ∈ ((b.resultRange? s i).map Range.format).or (b.formatOf? s v), f ∈ F := by
  intro f hf
  rcases Option.or_eq_some_iff.1 hf with hf | ⟨-, hf⟩
  · exact mem_of_resultFormat hs f hf
  · exact mem_of_formatOf? hs f hf

/-- The hull of ranges has the format of one of them. -/
lemma format_mem_of_hull? {os : List (Operand R)} {r : Range R}
    (hos : ∀ o ∈ os, o.range.format ∈ F) (h : hull? os = some r) : r.format ∈ F := by
  cases os with
  | nil => cases h
  | cons o os =>
    obtain rfl := Option.some.inj h
    refine List.foldlRecOn (motive := fun r : Range R => r.format ∈ F) os _
      (hos o List.mem_cons_self) fun r hr o' ho' => ?_
    rw [Range.union]
    dsimp only
    split
    · exact hos o' (List.mem_cons_of_mem _ ho')
    · exact hr

variable (hF : Format.none ∈ F) (ha : a.store.KeepsTo F)

section Rules

include hF ha

/-- An operand has a recorded format, or the one in which an integer constant is read. -/
lemma ensures_operand_format (hformat : ∀ f ∈ format, f ∈ F) :
    (b.operand a.store v format).Ensures fun o => o.range.format ∈ F := by
  have hrecord : Attempt.Ensures
      (OptionT.mk (return (b.record? a.store v).bind Estimate.toOperand?))
      fun o => o.range.format ∈ F := by
    refine Fresh.ensures_pure fun o ho => ?_
    obtain ⟨e, he, ho⟩ := Option.bind_eq_some_iff.1 ho
    obtain ⟨g, -, rfl⟩ := Option.map_eq_some_iff.1 ho
    exact Store.All.record? ha he
  cases v with
  | constInt raw =>
    cases format with
    | none => exact Attempt.ensures_failure
    | some f =>
      refine (Attempt.ensures_lift (Affine.ensures_withError (0 : R) _)).andThen fun g =>
        Attempt.ensures_pure ?_
      have hpoint : (Range.point f (f.interpret raw) : Range R).format = f := Range.format_of f _ _
      exact hpoint.symm ▸ hformat f rfl
  | constFloat x => exact Attempt.ensures_pure ((Range.format_of Format.none x x).symm ▸ hF)
  | undef => exact Attempt.ensures_failure
  | _ => exact hrecord

lemma ensures_operandsWithData_format (hformat : ∀ f ∈ format, f ∈ F) (vs : List (Value R)) :
    (b.operandsWithData a.store format vs).Ensures fun os => ∀ o ∈ os, o.range.format ∈ F := by
  induction vs with
  | nil => exact Fresh.ensures_pure nofun
  | cons v vs ih =>
    refine Fresh.Ensures.bind (ensures_operand_format hF ha hformat) fun o ho =>
      ih.bind fun os hos => Fresh.ensures_pure fun o' ho' => ?_
    rcases List.mem_append.1 ho' with ho' | ho'
    · exact ho o' (Option.mem_toList.1 ho')
    · exact hos o' ho'

/-! ## Rules -/

lemma keepsTo_write (i : Instruction R) (g : Affine R) : (b.write a i g).store.KeepsTo F :=
  Store.All.setError (Estimate.isPartwise_format hF) ha _ hF

omit hF in
lemma keepsTo_writeEstimate (i : Instruction R) (he : e.range.format ∈ F) :
    (b.writeEstimate a i e).store.KeepsTo F := Store.All.set ha _ he

lemma binary_keepsTo (op : BinaryOp) (lhs rhs : Value R) :
    (b.binary a i op lhs rhs).Ensures fun a' => a'.store.KeepsTo F :=
  (ensures_binaryError _ _ _ _ _).andThen fun g =>
    Attempt.ensures_pure (keepsTo_write hF ha i g)

lemma cast_keepsTo (op : CastOp) (v : Value R) :
    (b.cast a i op v).Ensures fun a' => a'.store.KeepsTo F := by
  unfold cast
  refine (ensures_operand_format hF ha (mem_of_or ha)).bind fun x hx => ?_
  have hown (g : Affine R) : Attempt.Ensures (pure (b.write a i g)) fun a' => a'.store.KeepsTo F :=
    Attempt.ensures_pure (keepsTo_write hF ha i g)
  have htaken (g : Affine R) : Attempt.Ensures (pure (b.writeEstimate a i ⟨x.range, some g⟩))
      fun a' => a'.store.KeepsTo F := Attempt.ensures_pure (keepsTo_writeEstimate ha i hx)
  dsimp only
  split
  · refine (Attempt.ensures_lift (ensures_addRounding _ _)).andThen fun g => ?_
    split
    · exact hown g
    · exact htaken g
  · rw [pure_bind]
    split
    · exact hown x.error
    · exact htaken x.error

omit hF in
lemma comparison_keepsTo (lhs rhs : Value R) :
    (b.comparison a i lhs rhs).Ensures fun a' => a'.store.KeepsTo F :=
  (Attempt.ensures_both (ensures_operand _ _ _) (ensures_operand _ _ _)).andThen fun _ =>
    Attempt.ensures_pure ha

lemma select_keepsTo (ifTrue ifFalse : Value R) :
    (b.select a i ifTrue ifFalse).Ensures fun a' => a'.store.KeepsTo F :=
  (Attempt.ensures_both (ensures_operand _ _ _) (ensures_operand _ _ _)).andThen fun _ =>
    (Attempt.ensures_lift (Affine.ensures_withError 0 _)).andThen fun g =>
      Attempt.ensures_pure (keepsTo_write hF ha i g)

lemma phi_keepsTo (edges : PhiEdges) (incoming : List (Value R × BlockId)) :
    (b.phi a i edges incoming).Ensures fun a' => a'.store.KeepsTo F := by
  unfold phi
  refine (Attempt.ensures_lift (ensures_operandsWithData_format hF ha (mem_of_resultFormat ha)
    _)).bind fun os hos => ?_
  dsimp only
  split
  · refine (Attempt.ensures_lift (Affine.ensures_withError 0 _)).andThen fun g =>
      Attempt.ensures_pure (keepsTo_writeEstimate ha i ?_)
    -- the range is the one recorded, the hull of those that are read, or unknown
    cases hown : (b.resultRange? a.store i).filter fun r => !r.isUnknown with
    | some r => exact format_mem_of_resultRange? ha r (Option.filter_eq_some_iff.1 hown).1
    | none =>
      cases hhull : hull? os with
      | some r => exact format_mem_of_hull? hos hhull
      | none => exact hF
  · exact Attempt.ensures_failure

omit hF ha in
lemma ensures_loadedEstimate_format {own : Option (Range R)} {es : List (Estimate R)}
    (hown : ∀ r ∈ own, r.format ∈ F) (hes : ∀ e ∈ es, e.range.format ∈ F) :
    (loadedEstimate own es).Ensures fun e => e.range.format ∈ F := by
  have hfresh (r : Range R) (hr : r.format ∈ F) (x : R) : Attempt.Ensures (do
      let error ← Affine.withError 0 x
      return (⟨r, some error⟩ : Estimate R)) fun e => e.range.format ∈ F :=
    (Attempt.ensures_lift (Affine.ensures_withError 0 x)).andThen fun _ => Attempt.ensures_pure hr
  match es, own with
  | [e], own =>
    have he := hes e (List.mem_singleton_self e)
    refine Attempt.ensures_pure ?_
    dsimp only
    split
    · cases own with
      | some r => exact hown r rfl
      | none => exact he
    · exact he
  | [], none | _ :: _ :: _, none => exact Attempt.ensures_failure
  | [], some r => exact hfresh r (hown r rfl) _
  | _ :: _ :: _, some r => exact hfresh r (hown r rfl) _

omit hF in
lemma load_keepsTo (ptr : Value R) :
    (b.load a i ptr).Ensures fun a' => a'.store.KeepsTo F := by
  refine (ensures_loadedEstimate_format (fun r hr => ?_) fun e he => ?_).bind fun e he =>
    Attempt.ensures_pure (keepsTo_writeEstimate ha i he)
  · exact format_mem_of_resultRange? ha r (Option.filter_eq_some_iff.1 hr).1
  · exact Store.All.loadSources ha he

lemma store_keepsTo (value ptr : Value R) :
    (b.store a i value ptr).Ensures fun a' => a'.store.KeepsTo F := by
  have hstored : (b.storedEstimate a.store value ptr).Ensures fun e => e.range.format ∈ F := by
    refine Attempt.ensures_orElse ?_ (Fresh.ensures_pure fun e he => ?_)
    · exact (ensures_operand_format hF ha (mem_of_formatOf? ha)).bind fun o ho =>
        Attempt.ensures_pure ho
    · exact Store.All.record? ha (Option.filter_eq_some_iff.1 he).1
  unfold Body.store
  refine hstored.bind fun e he => Attempt.ensures_pure ?_
  have hset : (a.store.set (b.key i) e).KeepsTo F := Store.All.set ha _ he
  have hfield {s : Store R} (hs : s.KeepsTo F) :
      Store.KeepsTo F { s with objects := (s.objects.setField b.module b.function ptr e).2 } :=
    Store.All.withObjects hs (hs.objects.setField hF he)
  refine hfield ?_
  split
  · exact Store.All.raise (Estimate.isPartwise_format hF) hset _ he
  · exact hset

omit hF in
lemma element_keepsTo (base : Value R) :
    (b.element a i base).Ensures fun a' => a'.store.KeepsTo F := by
  unfold element
  cases h : b.record? a.store base with
  | none => exact Attempt.ensures_failure
  | some e => exact Attempt.ensures_pure (keepsTo_writeEstimate ha i (Store.All.record? ha h))

lemma ret_keepsTo (value : Option (Value R)) :
    (b.ret a i value).Ensures fun a' => a'.store.KeepsTo F := by
  intro n
  have hwrite (o : Operand R) : (b.write a i o.error).store.KeepsTo F := keepsTo_write hF ha i _
  refine (attains_ret (fun v _ => ((ensures_operand_format hF ha (by simp)).from n).attains)
    (fun o _ _ _ => hwrite o) fun o n' _ ho _ => ?_).ensuresFrom
  exact ((Affine.ensures_withError _ _).from n').attains.mono fun error _ _ _ =>
    Store.All.set (hwrite o) _ (e := ⟨o.range, some error⟩) ho

lemma libraryCall_keepsTo (f : Elementary) (arg : Value R) :
    (b.libraryCall a i f arg).Ensures fun a' => a'.store.KeepsTo F := by
  unfold libraryCall
  refine (ensures_operand_format hF ha (mem_of_or ha)).bind fun x hx => ?_
  refine (Attempt.ensures_mk (f.ensures_errorOf _ _)).andThen fun linear => ?_
  refine (Attempt.ensures_lift (ensures_addRounding _ _)).andThen fun g => ?_
  split
  · next r hr =>
    refine Attempt.ensures_pure (keepsTo_writeEstimate ha i ?_)
    rcases Option.or_eq_some_iff.1 hr with hr | ⟨-, hr⟩
    · exact format_mem_of_resultRange? ha r hr
    · rw [Elementary.image] at hr
      split at hr
      · cases hr
        have himage (y z : R) : (Range.of x.range.format y z).format = x.range.format :=
          Range.format_of _ _ _
        exact (himage _ _).symm ▸ hx
      · cases hr
  · exact Attempt.ensures_pure (keepsTo_write hF ha i g)

/-- A stack slot may be annotated field by field. -/
lemma alloca_keepsTo
    (hi : ∀ v, i.info = some v → ∀ si, v.Mentions si → si.format ∈ F) (ty : Ty) (n : Symbol) :
    ExceptT.EnsuresFrom n (b.alloca a i ty) fun o => ∀ a', o = some a' → a'.store.KeepsTo F := by
  refine (attains_alloca_of_seed (Q := fun a' _ => a'.store.KeepsTo F)
    fun id infos _ hinfo => ?_).ensuresFrom
  have hseed := Objects.All.attains_seed (n := n) Estimate.lasts_format ha.objects b.module
    (b.key i) id fun si hsi => (ScalarInfo.attains_format hF (hi _ hinfo si hsi)).field
  exact hseed.mono fun _ _ _ ho => Store.All.withObjects ha ho

end Rules

end Body

/-! ## Visits -/

/-- The answers to calls of functions of the module keep the recorded formats in the set, and what
is wanted of the state of the analysis. -/
def CallHandler.KeepsTo (h : CallHandler R σ) (m : Module R) (F : Set Format) (W : σ → Prop) :
    Prop :=
  ∀ c : Call R σ, c.callee ∈ m.functions → c.store.KeepsTo F → W c.world →
    (h.answer c).1.1.KeepsTo F ∧ W (h.answer c).1.2

namespace CallHandler.KeepsTo

variable {h : CallHandler R σ} {m : Module R}

omit [Number R] in
/-- The calls in the log are made with stores whose formats are of the set. -/
lemma logged (hh : h.KeepsTo m F fun _ => True) : h.logged.KeepsTo m F fun v =>
    ∀ c ∈ v.2, c.callee ∈ m.functions ∧ c.store.KeepsTo F := by
  intro c hcallee hs hlog
  refine ⟨(hh ⟨c.world.1, c.caller, c.callee, c.args, c.store, c.supply⟩ hcallee hs trivial).1,
    fun d hd => ?_⟩
  rcases List.mem_append.1 hd with hd | hd
  · exact hlog d hd
  · obtain rfl := List.mem_singleton.1 hd
    exact ⟨hcallee, hs⟩

omit [Number R] in
/-- Calls that are left alone keep everything. -/
lemma none : (CallHandler.none : CallHandler R Unit).KeepsTo m F fun _ => True :=
  fun _ _ hs _ => ⟨hs, trivial⟩

end CallHandler.KeepsTo

/-- The recorded formats are of the set, and the state of the analysis is as wanted. -/
def Outcome.KeepsTo {α : Type} (F : Set Format) (W : σ → Prop) (o : Outcome R σ α) : Prop :=
  o.state.store.KeepsTo F ∧ W o.world

namespace Body

variable {b : Body R} {h : CallHandler R σ} {W : σ → Prop} {a : Activation R} {w : σ}
  {i : Instruction R} {edges : PhiEdges} {n : Symbol} {x y : Moment R σ}

omit [Number R] in
lemma attempt_keepsTo (ha : a.store.KeepsTo F) (hw : W w) {rule : Attempt (Activation R)}
    (hrule : rule.Ensures fun a' => a'.store.KeepsTo F) :
    (attempt a w rule).Always (Outcome.KeepsTo F W) := by
  refine Fresh.Always.bind hrule.always fun o ho => ?_
  cases o with
  | none => exact Fresh.always_pure ⟨ha, hw⟩
  | some a' => exact Fresh.always_pure ⟨ho a' rfl, hw⟩

section Visits

variable (hF : Format.none ∈ F) (hh : h.KeepsTo b.module F W) (ha : a.store.KeepsTo F) (hw : W w)

include hF hh ha hw

/-- The result of a call may get the range that is recorded for the callee. -/
lemma functionCall_keepsTo {callee : Function R} (hcallee : callee ∈ b.module.functions)
    (args : List (Value R)) :
    (b.functionCall h a w i callee args).Always fun r => r.2.1.store.KeepsTo F ∧ W r.2.2 := by
  have hanswer : (h.analyse w b.function callee args a.store).Always
      fun r => r.1.KeepsTo F ∧ W r.2 :=
    fun n => hh ⟨w, b.function, callee, args, a.store, n⟩ hcallee ha hw
  unfold functionCall
  refine hanswer.bind fun r ⟨hs, hv⟩ => ?_
  obtain ⟨s, v⟩ := r
  dsimp only at hs hv ⊢
  cases hreturned : returnedError? h v s callee.id with
  | none => exact Fresh.always_pure ⟨hs, hv⟩
  | some r =>
    obtain ⟨error, range⟩ := r
    refine Fresh.always_pure ⟨keepsTo_write hF ?_ i error, hv⟩
    dsimp only
    split
    · next range _ =>
      rcases returnedError?_eq_some hreturned with ⟨e, he, -, heq⟩ | ⟨-, heq⟩
      · cases heq
        have hrange : e.range.format ∈ F := hs.get? he
        exact Store.All.setRange (Estimate.isPartwise_format hF) hs _ hrange
      · cases heq
    · exact hs

lemma call_keepsTo (callee : Callee R) (args : List (Value R)) :
    (b.call h a w i callee args).Always (Outcome.KeepsTo F W) := by
  rw [Body.call]
  split
  · split
    · exact Fresh.always_pure ⟨ha, hw⟩
    · exact attempt_keepsTo ha hw (libraryCall_keepsTo hF ha _ _)
  · split
    · exact Fresh.always_pure ⟨ha, hw⟩
    · next f hf =>
      exact (functionCall_keepsTo hF hh ha hw (Module.mem_of_calleeBody? hf) args).bind fun r hr =>
        Fresh.always_pure hr

variable (hi : ∀ v, i.info = some v → ∀ si, v.Mentions si → si.format ∈ F)

include hi

lemma operate_keepsTo : (b.operate h edges a w i).Always (Outcome.KeepsTo F W) := by
  rw [operate]
  cases i.op with
  | binary op lhs rhs => exact attempt_keepsTo ha hw (binary_keepsTo hF ha op lhs rhs)
  | cast op v => exact attempt_keepsTo ha hw (cast_keepsTo hF ha op v)
  | icmp _ lhs rhs | fcmp _ lhs rhs => exact attempt_keepsTo ha hw (comparison_keepsTo ha lhs rhs)
  | select _ t f => exact attempt_keepsTo ha hw (select_keepsTo hF ha t f)
  | phi incoming => exact attempt_keepsTo ha hw (phi_keepsTo hF ha edges incoming)
  | load ptr => exact attempt_keepsTo ha hw (load_keepsTo ha ptr)
  | store value ptr => exact attempt_keepsTo ha hw (store_keepsTo hF ha value ptr)
  | element base _ => exact attempt_keepsTo ha hw (element_keepsTo ha base)
  | ret value => exact attempt_keepsTo ha hw (ret_keepsTo hF ha value)
  | call callee args | invoke callee args _ _ => exact call_keepsTo hF hh ha hw callee args
  | br | condBr | unreachable => exact Fresh.always_pure ⟨ha, hw⟩
  | alloca ty =>
    have hslot : (b.alloca a i ty).run.Always fun r => ∀ o, r = .ok o →
        ∀ a', o = some a' → a'.store.KeepsTo F := fun n => (alloca_keepsTo hF ha hi ty n).2
    refine Fresh.Always.bind hslot fun r hr => ?_
    cases r with
    | error fault => exact Fresh.always_pure ⟨ha, hw⟩
    | ok o =>
      cases o with
      | none => exact Fresh.always_pure ⟨ha, hw⟩
      | some a' => exact Fresh.always_pure ⟨hr _ rfl a' rfl, hw⟩

omit [Number R] hF hh ha hw in
/-- The annotation of a scalar result. -/
lemma format_mem_of_scalarInfo? {info : ScalarInfo R} (hinfo : i.scalarInfo? = some info) :
    info.format ∈ F := by
  obtain ⟨v, hv, hscalar⟩ := Option.bind_eq_some_iff.1 hinfo
  cases v with
  | scalar info' =>
    cases hscalar
    exact hi _ hv _ .scalar
  | struct infos => cases hscalar

omit hh hw in
/-- The range that an annotation gives takes the place of the one recorded. -/
lemma annotatedStore_keepsTo : (b.annotatedStore a.store i).KeepsTo F := by
  rw [annotatedStore]
  split
  · next info hinfo =>
    refine Store.All.setRange (Estimate.isPartwise_format hF) ha _ ?_
    exact info.format_rangeOrZero.symm ▸ format_mem_of_scalarInfo? hi hinfo
  · exact ha

/-- **A visit keeps to the formats.** -/
theorem visit_keepsTo : (b.visit h edges a w i).Always (Outcome.KeepsTo F W) := by
  have hannotated := annotatedStore_keepsTo (b := b) hF ha hi
  rw [annotatedStore] at hannotated
  rw [visit]
  split
  · exact Fresh.always_pure ⟨ha, hw⟩
  · cases hinfo : i.scalarInfo? with
    | none => exact operate_keepsTo hF hh ha hw hi
    | some info =>
      rw [hinfo] at hannotated
      dsimp only
      split
      · have hvalue := (ScalarInfo.attains_format hF (format_mem_of_scalarInfo? hi hinfo)).value
        have hseed : (a.store.seed (b.key i) info).Always (Store.KeepsTo F) :=
          Fresh.Always.bind (fun n => (hvalue n).2) fun e he =>
            Fresh.always_pure (Store.All.set ha _ he)
        exact hseed.bind fun s hs => Fresh.always_pure ⟨hs, hw⟩
      · exact operate_keepsTo (a := { a with store := _ }) hF hh hannotated hw hi

end Visits

/-! ## Closed forms -/

/-- Whenever an error is settled, the store keeps to the formats. -/
lemma keptBySettling_keepsTo (b : Body R) (hF : Format.none ∈ F) :
    b.KeptBySettling fun a _ => a.store.KeepsTo F where
  later _ _ _ _ ha := ha
  pin a n i k error _ _ _ ha := by
    have hpin : (pin a i k error).Ensures fun a' => a'.store.KeepsTo F :=
      (Affine.ensures_withError 0 error).andThen fun _ =>
        Fresh.ensures_pure (Store.All.setError (Estimate.isPartwise_format hF) ha k hF)
    exact (hpin n).attains
  setRange a n i k range _ _ hrange ha := by
    obtain ⟨e, he, rfl⟩ := Option.map_eq_some_iff.1 hrange
    have hformat : e.range.format ∈ F := Store.All.get? ha he
    exact Store.All.setRange (Estimate.isPartwise_format hF) ha _ hformat

/-! ## Runs -/

/-- **A run keeps to the formats.** -/
theorem Passes.keepsTo (hF : Format.none ∈ F) (hb : b.function.AnnotatesIn F)
    (hh : h.KeepsTo b.module F W) (hx : x.state.store.KeepsTo F) (hw : W x.world)
    (hy : b.Passes h x y) : y.state.store.KeepsTo F ∧ W y.world := by
  induction hy with
  | start => exact ⟨hx, hw⟩
  | visit _ edges hi ih => exact visit_keepsTo hF hh ih.1 ih.2 (hb.insts _ hi) _
  | bounded _ hbound ih => exact ⟨(keptBySettling_keepsTo b hF).of_closedForm ih.1 hbound, ih.2⟩
  | givenUp _ _ ih => exact ih

end Body

end Roundoff
