/-
# What the transfer rules do to a store

Every rule, and every loop that is bounded in closed form, makes a *step*: it takes symbols from the
supply, edits the store for what belongs to its function, and keeps a store well formed, so that the
errors it makes use no symbols but those taken so far.  There is one lemma for each rule.
-/
import Mathlib
import Roundoff.Proofs.Memory.Sources
import Roundoff.Proofs.Range.Hull
import Roundoff.Proofs.Store.Edits
import Roundoff.Proofs.Store.Estimates
import Roundoff.Proofs.Transfer.Runs

namespace Roundoff

variable {f : FunctionId} {n n' n'' : Symbol}

/-! ## Steps -/

/-- From the symbol `n` to the symbol `n'`, what belongs to the function `f` is edited. -/
structure Store.Step (f : FunctionId) (s : Store ℝ) (n : Symbol) (s' : Store ℝ) (n' : Symbol) :
    Prop where
  /-- Symbols are only taken from the supply. -/
  le : n ≤ n'
  /-- Only what belongs to the function is edited. -/
  edits : s.Edits {k | belongsTo f k = true} s'
  /-- Estimates stay well formed. -/
  wellFormed : s.IsWellFormed n → s'.IsWellFormed n'

namespace Store.Step

variable {s s' s'' : Store ℝ} {k : Key}

/-- Symbols are taken from the supply, and nothing else happens. -/
lemma later (f : FunctionId) (s : Store ℝ) (hn : n ≤ n') : Step f s n s n' :=
  ⟨hn, .refl, fun hs => hs.mono hn⟩

lemma trans (h : Step f s n s' n') (h' : Step f s' n' s'' n'') : Step f s n s'' n'' :=
  ⟨h.le.trans h'.le, h.edits.trans h'.edits, fun hs => h'.wellFormed (h.wellFormed hs)⟩

section Sets

variable (hn : n ≤ n') (hk : belongsTo f k = true)

include hn hk

lemma set {e : Estimate ℝ} (he : s.IsWellFormed n → e.IsWellFormed n') :
    Step f s n (s.set k e) n' :=
  ⟨hn, .set .refl hk e, fun hs => (hs.mono hn).set k (he hs)⟩

lemma setError {g : Affine ℝ} (hg : s.IsWellFormed n → g.IsWellFormed n') :
    Step f s n (s.setError k g) n' :=
  ⟨hn, .setError .refl hk g, fun hs => (hs.mono hn).setError k (hg hs)⟩

lemma setRange {r : Range ℝ} (hr : s.IsWellFormed n → r.lo ≤ r.hi) :
    Step f s n (s.setRange k r) n' :=
  ⟨hn, .setRange .refl hk r, fun hs => (hs.mono hn).setRange k (hr hs)⟩

end Sets

lemma objects (hn : n ≤ n') {o : Objects ℝ} (ho : s.IsWellFormed n → o.IsWellFormed n') :
    Step f s n { s with objects := o } n' :=
  ⟨hn, .objects .refl o, fun hs => (hs.mono hn).withObjects (ho hs)⟩

end Store.Step

/-! ## What is read -/

section Reads

variable {R : Type} [Number R] {b : Body R} {s : Store R} {P : Estimate R → Prop} {e : Estimate R}

omit [Number R] in
/-- The record of an operand is an estimate of the store. -/
lemma Store.All.record? {v : Value R} (hs : s.All P) (h : b.record? s v = some e) : P e := by
  obtain ⟨k, -, hk⟩ := Option.bind_eq_some_iff.1 h
  exact hs.get? hk

/-- So is whatever a load may read. -/
lemma Store.All.loadSources {load : InstId} {ptr : Value R} (hs : s.All P)
    (h : e ∈ b.loadSources s load ptr) : P e := by
  have hfound {e : Estimate R}
      (h : e ∈ (b.memory.sources b.function s.get? load).filter Estimate.hasError) : P e := by
    obtain ⟨k, hk⟩ := Memory.exists_key_of_mem_sources (List.mem_filter.1 h).1
    exact hs.get? hk
  rw [Body.loadSources] at h
  split at h
  · next field hfield =>
    have hfield : P field := hs.objects.getField? (Option.filter_eq_some_iff.1 hfield).1
    split at h
    · exact hfound h
    · rcases List.mem_append.1 h with h | h
      · exact hfound h
      · exact List.mem_singleton.1 h ▸ hfield
  · exact hfound h

end Reads

/-! ## Errors -/

lemma attains_mulError (r₁ r₂ : Range ℝ) {e₁ e₂ : Affine ℝ} (h₁ : e₁.IsWellFormed n)
    (h₂ : e₂.IsWellFormed n) :
    Fresh.Attains n (mulError r₁ e₁ r₂ e₂) fun e n' => e.IsWellFormed n' := by
  unfold mulError
  refine r₁.attains_toAffine.bind fun a₁ n₁ le₁ ha₁ => ?_
  refine r₂.attains_toAffine.bind fun a₂ n₂ le₂ ha₂ => ?_
  have le := le₁.trans le₂
  refine (Affine.attains_mul (ha₁.mono le₂) (h₂.mono le)).bind fun x n₃ le₃ hx => ?_
  refine (Affine.attains_mul (ha₂.mono le₃) (h₁.mono (le.trans le₃))).bind fun y n₄ le₄ hy => ?_
  replace le := le.trans (le₃.trans le₄)
  refine (Affine.attains_mul (h₁.mono le).terms (h₂.mono le)).bind fun z n₅ le₅ hz => ?_
  exact Fresh.attains_pure (((hx.mono (le₄.trans le₅)).add (hy.mono le₅)).add hz)

lemma attains_divError (r₁ r₂ : Range ℝ) {e₁ e₂ : Affine ℝ} (h₁ : e₁.IsWellFormed n)
    (h₂ : e₂.IsWellFormed n) :
    Attempt.Attains n (divError r₁ e₁ r₂ e₂) fun e n' => e.IsWellFormed n' := by
  unfold divError
  split
  · next inverse _ =>
    have hinverse : Attempt.Attains n (OptionT.mk (Elementary.reciprocal.errorOf r₂ e₂))
        fun e n' => e.IsWellFormed n' := Elementary.attains_errorOf _ r₂ h₂
    refine hinverse.bind fun e n₁ le₁ he => ?_
    refine (Attempt.attains_lift r₁.attains_toAffine).bind fun a n₂ le₂ ha => ?_
    refine (Attempt.attains_lift inverse.attains_toAffine).bind fun a' n₃ le₃ ha' => ?_
    refine (Attempt.attains_lift (Affine.attains_mul (ha.mono le₃)
      (he.mono (le₂.trans le₃)))).bind fun x n₄ le₄ hx => ?_
    have le := le₁.trans (le₂.trans (le₃.trans le₄))
    refine (Attempt.attains_lift (Affine.attains_mul (ha'.mono le₄) (h₁.mono le))).bind
      fun y n₅ le₅ hy => ?_
    refine (Attempt.attains_lift (Affine.attains_mul (h₁.mono (le.trans le₅)).terms
      (he.mono (le₂.trans (le₃.trans (le₄.trans le₅)))))).bind fun z n₆ le₆ hz => ?_
    exact Attempt.attains_pure (((hx.mono (le₅.trans le₆)).add (hy.mono le₆)).add hz)
  · exact Attempt.attains_failure

lemma attains_addRounding {e : Affine ℝ} (he : e.IsWellFormed n) (rounding : ℝ) :
    Fresh.Attains n (addRounding e rounding) fun e n' => e.IsWellFormed n' :=
  (Affine.attains_withError rounding).bind fun _ _ le hx => Fresh.attains_pure ((he.mono le).add hx)

namespace Body

variable {b : Body ℝ} {s : Store ℝ} {a : Activation ℝ} {i : Instruction ℝ} {v : Value ℝ}

/-! ## Operands -/

lemma isWellFormed_of_record? (hs : s.IsWellFormed n) {e : Estimate ℝ}
    (h : b.record? s v = some e) : e.IsWellFormed n := hs.all.record? h

lemma attains_operand (s : Store ℝ) (v : Value ℝ) (format : Option Format) (n : Symbol) :
    Attempt.Attains n (b.operand s v format) fun o n' =>
      s.IsWellFormed n → o.toEstimate.IsWellFormed n' := by
  have hrecord : Attempt.Attains n
      (OptionT.mk (return (b.record? s v).bind Estimate.toOperand?)) fun o n' =>
        s.IsWellFormed n → o.toEstimate.IsWellFormed n' := by
    refine Fresh.attains_pure fun o ho hs => ?_
    obtain ⟨e, he, ho⟩ := Option.bind_eq_some_iff.1 ho
    obtain ⟨g, hg, rfl⟩ := Option.map_eq_some_iff.1 ho
    have hwf := isWellFormed_of_record? hs he
    exact ⟨hwf.lo_le_hi, fun g' hg' => Option.some.inj hg' ▸ hwf.error g hg⟩
  cases v with
  | constInt raw =>
    cases format with
    | none => exact Attempt.attains_failure
    | some format =>
      refine (Attempt.attains_lift (Affine.attains_withError _)).bind fun g n' _ hg =>
        Attempt.attains_pure fun _ => ⟨Range.lo_le_hi_of _ _ _, fun g' hg' => ?_⟩
      exact Option.some.inj hg' ▸ hg
  | constFloat x =>
    refine Attempt.attains_pure fun _ => ⟨Range.lo_le_hi_of _ _ _, fun g' hg' => ?_⟩
    exact Option.some.inj hg' ▸ Affine.isWellFormed_zero
  | undef => exact Attempt.attains_failure
  | _ => exact hrecord

lemma attains_operandsWithData (s : Store ℝ) (format : Option Format) (vs : List (Value ℝ))
    (n : Symbol) : Fresh.Attains n (b.operandsWithData s format vs) fun os n' =>
      s.IsWellFormed n → ∀ o ∈ os, o.toEstimate.IsWellFormed n' := by
  induction vs generalizing n with
  | nil => exact Fresh.attains_pure nofun
  | cons v vs ih =>
    rw [operandsWithData]
    refine Fresh.Attains.bind (attains_operand s v format n) fun o n₁ le₁ ho => ?_
    refine (ih n₁).bind fun os n₂ le₂ hos => Fresh.attains_pure fun hs o' ho' => ?_
    rcases List.mem_append.1 ho' with ho' | ho'
    · exact (ho o' (Option.mem_toList.1 ho') hs).mono le₂
    · exact hos (hs.mono le₁) o' ho'

lemma attains_binaryError (hs : s.IsWellFormed n) (op : BinaryOp) (lhs rhs : Value ℝ)
    (result : Option (Range ℝ)) : Attempt.Attains n (b.binaryError s op lhs rhs result)
      fun e n' => e.IsWellFormed n' := by
  refine (attains_operand s lhs _ n).bind fun x n₁ le₁ hx => ?_
  have hx := (hx hs).error _ rfl
  have hsecond := attains_operand (b := b) s rhs (result.map Range.format) n₁
  cases op with
  | add | fadd =>
    refine hsecond.bind fun y n₂ le₂ hy => Attempt.attains_pure ?_
    exact (hx.mono le₂).add ((hy (hs.mono le₁)).error _ rfl)
  | sub | fsub =>
    refine hsecond.bind fun y n₂ le₂ hy => Attempt.attains_pure ?_
    exact (hx.mono le₂).sub ((hy (hs.mono le₁)).error _ rfl)
  | mul | fmul =>
    refine hsecond.bind fun y n₂ le₂ hy => Attempt.attains_lift ?_
    exact attains_mulError _ _ (hx.mono le₂) ((hy (hs.mono le₁)).error _ rfl)
  | fdiv =>
    refine hsecond.bind fun y n₂ le₂ hy => ?_
    exact attains_divError _ _ (hx.mono le₂) ((hy (hs.mono le₁)).error _ rfl)
  | sdiv | udiv =>
    refine hsecond.bind fun y n₂ le₂ hy => ?_
    refine (attains_divError _ _ (hx.mono le₂) ((hy (hs.mono le₁)).error _ rfl)).bind
      fun e n₃ le₃ he => Attempt.attains_lift (attains_addRounding he _)
  | shl => exact Attempt.attains_pure hx
  | lshr | ashr =>
    cases result with
    | none => exact Attempt.attains_failure
    | some range => exact Attempt.attains_lift (attains_addRounding hx _)
  | srem | urem | frem | and | or | xor => exact Attempt.attains_failure

/-! ## Rules -/

/-- A rule takes the store of an activation to that of its result by a step. -/
abbrev TakesStep (b : Body ℝ) (a : Activation ℝ) (n : Symbol) (rule : Attempt (Activation ℝ)) :
    Prop :=
  Attempt.Attains n rule fun a' n' => Store.Step b.function.id a.store n a'.store n'

lemma belongsTo_key (b : Body ℝ) (i : Instruction ℝ) :
    Store.belongsTo b.function.id (b.key i) = true := by
  simp [Store.belongsTo, key, Key.owner?]

lemma step_write (hn : n ≤ n') {g : Affine ℝ}
    (hg : a.store.IsWellFormed n → g.IsWellFormed n') :
    Store.Step b.function.id a.store n (b.write a i g).store n' :=
  .setError hn (b.belongsTo_key i) hg

lemma step_writeEstimate (hn : n ≤ n') {e : Estimate ℝ}
    (he : a.store.IsWellFormed n → e.IsWellFormed n') :
    Store.Step b.function.id a.store n (b.writeEstimate a i e).store n' :=
  .set hn (b.belongsTo_key i) he

lemma attains_seed (s : Store ℝ) (i : Instruction ℝ) (info : ScalarInfo ℝ) :
    Fresh.Attains n (s.seed (b.key i) info) fun s' n' => Store.Step b.function.id s n s' n' :=
  (Store.attains_annotated info).bind fun _ _ le he =>
    Fresh.attains_pure (.set le (b.belongsTo_key i) fun _ => he)

lemma lo_le_hi_of_resultRange? {r : Range ℝ} (hs : s.IsWellFormed n)
    (h : b.resultRange? s i = some r) : r.lo ≤ r.hi := hs.lo_le_hi h

lemma takesStep_binary (op : BinaryOp) (lhs rhs : Value ℝ) :
    b.TakesStep a n (b.binary a i op lhs rhs) :=
  ((ensures_binaryError _ _ _ _ _).attains fun hs => attains_binaryError hs op lhs rhs _).bind
    fun _ _ le he => Attempt.attains_pure (step_write le he)

lemma takesStep_cast (op : CastOp) (v : Value ℝ) : b.TakesStep a n (b.cast a i op v) := by
  unfold cast
  refine (attains_operand _ _ _ n).bind fun x n₁ le₁ hx => ?_
  have hexact : Attempt.Attains n₁ (pure x.error) fun e n' =>
      a.store.IsWellFormed n → e.IsWellFormed n' :=
    Attempt.attains_pure fun hs => (hx hs).error _ rfl
  have hrounded (rounding : ℝ) : Attempt.Attains n₁ (OptionT.lift (addRounding x.error rounding))
      fun e n' => a.store.IsWellFormed n → e.IsWellFormed n' :=
    (Attempt.ensures_lift (ensures_addRounding _ _)).attains fun hs =>
      Attempt.attains_lift (attains_addRounding ((hx hs).error _ rfl) _)
  cases b.resultRange? a.store i with
  | some r =>
    dsimp only
    split
    · exact (hrounded _).bind fun e n₂ le₂ he =>
        Attempt.attains_pure (step_write (le₁.trans le₂) he)
    · exact hexact.bind fun e n₂ le₂ he => Attempt.attains_pure (step_write (le₁.trans le₂) he)
  | none =>
    have hstep (e : Affine ℝ) (n₂ : Symbol) (le₂ : n₁ ≤ n₂)
        (he : a.store.IsWellFormed n → e.IsWellFormed n₂) : Store.Step b.function.id a.store n
          (b.writeEstimate a i ⟨x.range, some e⟩).store n₂ :=
      step_writeEstimate (le₁.trans le₂) fun hs => ((hx hs).mono le₂).withError (he hs)
    dsimp only
    split
    · exact (hrounded _).bind fun e n₂ le₂ he => Attempt.attains_pure (hstep e n₂ le₂ he)
    · exact hexact.bind fun e n₂ le₂ he => Attempt.attains_pure (hstep e n₂ le₂ he)

lemma takesStep_comparison (lhs rhs : Value ℝ) : b.TakesStep a n (b.comparison a i lhs rhs) :=
  ((Attempt.ensures_both (ensures_operand _ _ _) (ensures_operand _ _ _)).from n).attains.bind
    fun _ _ le _ => Attempt.attains_pure (.later _ _ le)

lemma takesStep_select (ifTrue ifFalse : Value ℝ) :
    b.TakesStep a n (b.select a i ifTrue ifFalse) :=
  ((Attempt.ensures_both (ensures_operand _ _ _) (ensures_operand _ _ _)).from n).attains.bind
    fun _ _ le _ => (Attempt.attains_lift (Affine.attains_withError _)).bind fun _ _ le' he =>
      Attempt.attains_pure (step_write (le.trans le') fun _ => he)

/-- The hull of ranges has its bounds in order if the ranges have. -/
lemma lo_le_hi_of_hull? {os : List (Operand ℝ)} {r : Range ℝ}
    (hos : ∀ o ∈ os, o.toEstimate.IsWellFormed n) (h : hull? os = some r) : r.lo ≤ r.hi := by
  refine (isHull_hull? h).lo_le_hi fun q hq => ?_
  obtain ⟨o, ho, rfl⟩ := List.mem_map.1 hq
  exact (hos o ho).lo_le_hi

lemma takesStep_phi (edges : PhiEdges) (incoming : List (Value ℝ × BlockId)) :
    b.TakesStep a n (b.phi a i edges incoming) := by
  unfold phi
  refine (Attempt.attains_lift (attains_operandsWithData _ _ _ n)).bind fun os n₁ le₁ hos => ?_
  dsimp only
  split
  · refine (Attempt.attains_lift (Affine.attains_withError _)).bind fun e n₂ le₂ he =>
      Attempt.attains_pure (step_writeEstimate (le₁.trans le₂) fun hs => ⟨?_, ?_⟩)
    · -- the range is the one recorded, the hull of those that are read, or unknown
      cases hown : (b.resultRange? a.store i).filter fun r => !r.isUnknown with
      | some r => exact lo_le_hi_of_resultRange? hs (Option.filter_eq_some_iff.1 hown).1
      | none =>
        cases hhull : hull? os with
        | some r => exact lo_le_hi_of_hull? (hos hs) hhull
        | none => exact le_rfl
    · exact fun g hg => Option.some.inj hg ▸ he
  · exact Attempt.attains_failure

/-! ### Memory -/

lemma isWellFormed_of_mem_loadSources (hs : s.IsWellFormed n) {load : InstId} {ptr : Value ℝ}
    {e : Estimate ℝ} (h : e ∈ b.loadSources s load ptr) : e.IsWellFormed n :=
  hs.all.loadSources h

lemma attains_loadedEstimate {own : Option (Range ℝ)} {es : List (Estimate ℝ)}
    (hown : ∀ r, own = some r → r.lo ≤ r.hi) (hes : ∀ e ∈ es, e.IsWellFormed n) :
    Attempt.Attains n (loadedEstimate own es) fun e n' => e.IsWellFormed n' := by
  have hfresh (r : Range ℝ) (hr : r.lo ≤ r.hi) (x : ℝ) : Attempt.Attains n (do
      let error ← Affine.withError 0 x
      return (⟨r, some error⟩ : Estimate ℝ)) fun e n' => e.IsWellFormed n' :=
    (Attempt.attains_lift (Affine.attains_withError x)).bind fun g _ _ hg =>
      Attempt.attains_pure ⟨hr, fun g' hg' => Option.some.inj hg' ▸ hg⟩
  match es, own with
  | [e], own =>
    have he := hes e (List.mem_singleton_self e)
    refine Attempt.attains_pure ⟨?_, he.error⟩
    dsimp only
    split
    · cases own with
      | some r => exact hown r rfl
      | none => exact he.lo_le_hi
    · exact he.lo_le_hi
  | [], none | _ :: _ :: _, none => exact Attempt.attains_failure
  | [], some r => exact hfresh r (hown r rfl) _
  | _ :: _ :: _, some r => exact hfresh r (hown r rfl) _

lemma takesStep_load (ptr : Value ℝ) : b.TakesStep a n (b.load a i ptr) :=
  ((ensures_loadedEstimate _ _).attains fun hs => attains_loadedEstimate
    (fun _ hr => lo_le_hi_of_resultRange? hs (Option.filter_eq_some_iff.1 hr).1)
    fun _ he => isWellFormed_of_mem_loadSources hs he).bind fun _ _ le he =>
      Attempt.attains_pure (step_writeEstimate le he)

lemma takesStep_element (base : Value ℝ) : b.TakesStep a n (b.element a i base) := by
  unfold element
  cases h : b.record? a.store base with
  | none => exact Attempt.attains_failure
  | some e =>
    exact Attempt.attains_pure (step_writeEstimate le_rfl fun hs => isWellFormed_of_record? hs h)

lemma attains_storedEstimate (s : Store ℝ) (value ptr : Value ℝ) (n : Symbol) :
    Attempt.Attains n (b.storedEstimate s value ptr) fun e n' =>
      s.IsWellFormed n → e.IsWellFormed n' := by
  refine Attempt.attains_orElse ?_ fun n' le => ?_
  · exact (attains_operand s value _ n).bind fun o n' _ ho => Attempt.attains_pure ho
  · refine Fresh.attains_pure fun e he hs => ?_
    exact isWellFormed_of_record? (hs.mono le) (Option.filter_eq_some_iff.1 he).1

lemma takesStep_store (value ptr : Value ℝ) : b.TakesStep a n (b.store a i value ptr) := by
  unfold Body.store
  refine (attains_storedEstimate a.store value ptr n).bind fun e n' le he => ?_
  have hset : Store.Step b.function.id a.store n (a.store.set (b.key i) e) n' :=
    .set le (b.belongsTo_key i) he
  have hraise (k : UInt32) : Store.Step b.function.id a.store n
      ((a.store.set (b.key i) e).raise (.arg b.function.id k) e).2 n' := by
    have hk : Store.belongsTo b.function.id (.arg b.function.id k) = true := by
      simp [Store.belongsTo, Key.owner?]
    exact ⟨le, hset.edits.trans (.raise .refl hk e),
      fun hs => (hset.wellFormed hs).raise _ (he hs)⟩
  have hfield {s : Store ℝ} (h : Store.Step b.function.id a.store n s n') :
      Store.Step b.function.id a.store n
        { s with objects := (s.objects.setField b.module b.function ptr e).2 } n' :=
    ⟨le, h.edits.trans (.objects .refl _), fun hs =>
      (h.wellFormed hs).withObjects ((h.wellFormed hs).objects.setField (he hs))⟩
  refine Attempt.attains_pure (hfield ?_)
  split
  · exact hraise _
  · exact hset

/-- What a stack slot does to the store. -/
lemma attains_alloca (ty : Ty) (n : Symbol) :
    ExceptT.Attains n (b.alloca a i ty) fun o n' => ∀ a', o = some a' →
      Store.Step b.function.id a.store n a'.store n' := by
  refine attains_alloca_of_seed fun id infos _ _ => ?_
  have hseed := (Objects.ensures_seed a.store.objects b.module (b.key i) id infos).attains
    fun hs : a.store.IsWellFormed n => hs.objects.attains_seed b.module (b.key i) id infos
  exact hseed.mono fun _ _ le ho => .objects le ho

/-! ### Calls of routines, and returns -/

lemma takesStep_libraryCall (f : Elementary) (arg : Value ℝ) :
    b.TakesStep a n (b.libraryCall a i f arg) := by
  unfold libraryCall
  refine (attains_operand _ _ _ n).bind fun x n₁ le₁ hx => ?_
  have hlinear : Attempt.Attains n₁ (OptionT.mk (f.errorOf x.range x.error)) fun e n' =>
      a.store.IsWellFormed n → e.IsWellFormed n' :=
    (Attempt.ensures_mk (f.ensures_errorOf _ _)).attains fun hs =>
      f.attains_errorOf x.range ((hx hs).error _ rfl)
  refine hlinear.bind fun linear n₂ le₂ hlinear => ?_
  refine ((Attempt.ensures_lift (ensures_addRounding _ _)).attains fun hs =>
    Attempt.attains_lift (attains_addRounding (hlinear hs) _)).bind fun e n₃ le₃ he => ?_
  have le := le₁.trans (le₂.trans le₃)
  split
  · next r hr =>
    refine Attempt.attains_pure (step_writeEstimate le fun hs =>
      ⟨?_, fun g hg => Option.some.inj hg ▸ he hs⟩)
    cases hresult : b.resultRange? a.store i with
    | some r' =>
      rw [hresult, Option.some_or] at hr
      cases hr
      exact lo_le_hi_of_resultRange? hs hresult
    | none =>
      rw [hresult, Option.none_or, Elementary.image] at hr
      split at hr
      · cases hr
        exact Range.lo_le_hi_of _ _ _
      · cases hr
  · exact Attempt.attains_pure (step_write le he)

lemma takesStep_ret (value : Option (Value ℝ)) : b.TakesStep a n (b.ret a i value) := by
  have hwrite {o : Operand ℝ} {n₁ : Symbol} (le : n ≤ n₁)
      (ho : a.store.IsWellFormed n → o.toEstimate.IsWellFormed n₁) :
      Store.Step b.function.id a.store n (b.write a i o.error).store n₁ :=
    step_write le fun hs => (ho hs).error _ rfl
  refine attains_ret (fun v _ => attains_operand _ v _ n) (fun o n₁ => hwrite)
    fun o n₁ le₁ ho _ => ?_
  have hflatten : Fresh.Attains n₁ o.error.flatten fun e n' =>
      a.store.IsWellFormed n → e.IsWellFormed n' :=
    (Affine.ensures_withError _ _).attains fun hs => ((ho hs).error _ rfl).attains_flatten
  refine hflatten.mono fun e n₂ le₂ he => ?_
  have hsummary : Store.belongsTo b.function.id (.function b.function.id) = true := by
    simp [Store.belongsTo]
  have hset : Store.Step b.function.id a.store n
      ((b.write a i o.error).store.set (.function b.function.id) ⟨o.range, some e⟩) n₂ :=
    ⟨le₁.trans le₂, (hwrite le₁ ho).edits.trans (.set .refl hsummary _), fun hs =>
      (((hwrite le₁ ho).wellFormed hs).mono le₂).set _ (((ho hs).mono le₂).withError (he hs))⟩
  exact hset

/-! ## Loops in closed form -/

/-- Whenever an error is settled, the store takes steps. -/
lemma keptBySettling_step (b : Body ℝ) (s : Store ℝ) (n : Symbol) :
    b.KeptBySettling fun a' n' => Store.Step b.function.id s n a'.store n' where
  later _ _ _ le h := h.trans (.later _ _ le)
  pin a' n' i k error _ _ hk h := by
    have hk : Store.belongsTo b.function.id k = true := by simp [Store.belongsTo, hk]
    exact (Affine.attains_withError error).bind fun e _ le he =>
      Fresh.attains_pure (h.trans (.setError le hk fun _ => he))
  setRange a' n' i k range _ _ hrange h :=
    h.trans (.setRange le_rfl (b.belongsTo_key i) fun hs => hs.lo_le_hi hrange)

/-- A closed form settles errors of the function. -/
lemma attains_closedForm (header : BlockId) (k : ℕ) :
    ExceptT.Attains n (b.closedForm a header k) fun r n' =>
      Store.Step b.function.id a.store n r.2.store n' :=
  (keptBySettling_step b a.store n).attains_closedForm (.later _ _ le_rfl) header k

end Body

end Roundoff
