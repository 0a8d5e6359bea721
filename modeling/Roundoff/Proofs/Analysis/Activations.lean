/-
# What a call does to the store of the caller

An activation starts with the data of the caller, without those of the callee, and with new formal
parameters.  When it is completed, the caller takes over what was returned, what is recorded for
arguments, and what is recorded for global variables.  So if a relation between stores is respected
by the bodies of a module, and by starting an activation and merging what it has found, then it is
respected by calls.

The activation for a call starts without an error recorded for the callee, so at its end the callee
has an error over symbols drawn since, or none.  Merging it into the data of the caller raises what
is recorded there: the new error counts if it is larger, and otherwise the caller keeps the error of
an earlier call.  So the error that a call gets is the one recorded for the callee before the call,
or the worst one of all activations, or it is over new symbols; two calls of which the second
returns no larger error get one and the same error.  This holds for functions that are not
themselves handed on as arguments, since what a formal parameter is given is recorded for the
argument.
-/
import Mathlib
import Roundoff.Proofs.Store
import Roundoff.Proofs.Transfer.Runs

namespace Roundoff

section Activations

variable {R : Type} [Number R] {m : Module R} {caller callee : Function R} {args : List (Value R)}

/-- Setting up an annotated value changes what is recorded for it.  The annotation of a scalar
replaces the record, and otherwise it stays. -/
inductive SetsUp : Option (ValueInfo R) → Option (Estimate R) → Option (Estimate R) → Prop
  /-- The annotation of a scalar is recorded. -/
  | scalar (info : ScalarInfo R) (n : Symbol) (old : Option (Estimate R)) :
    SetsUp (some (.scalar info)) old (some (Store.annotated info n).1)
  /-- The annotation of an aggregate is kept with its fields. -/
  | struct (infos : List (Option (ValueInfo R))) (old : Option (Estimate R)) :
    SetsUp (some (.struct infos)) old old
  /-- There is no annotation. -/
  | none (old : Option (Estimate R)) : SetsUp none old old

namespace Store

variable {s other : Store R}

/-! ## Starting an activation -/

omit [Number R] in
lemma get?_eraseFunction (s : Store R) (f : Function R) (k : Key) :
    (s.eraseFunction f).get? k = if belongsTo f.id k then none else s.get? k := by
  rw [get?, get?, eraseFunction, Table.get?_filterKeys]
  cases belongsTo f.id k <;> rfl

lemma ensures_seedValue (m : Module R) (s : Store R) (k : Key) (ty : Option StructId)
    (info : Option (ValueInfo R)) :
    (s.seedValue m k ty info).Ensures fun s' =>
      s.Writes {k} s' ∧ SetsUp info (s.get? k) (s'.get? k) := by
  unfold seedValue
  split
  · exact Fresh.ensures_pure ⟨.refl _ s, .none _⟩
  · next info =>
    have hannotated : (annotated info).Ensures fun e => ∃ n, (annotated info n).1 = e := by
      have h : (annotated info).Ensures fun _ => True :=
        info.ensures_error?.andThen fun _ => Fresh.ensures_pure trivial
      exact fun n => ⟨(h n).1, n, rfl⟩
    refine hannotated.bind fun e he => Fresh.ensures_pure ⟨s.writes_set k e, ?_⟩
    obtain ⟨n, rfl⟩ := he
    rw [get?_set, if_pos rfl]
    exact .scalar info n _
  · split
    · exact Fresh.ensures_pure ⟨.refl _ s, .struct _ _⟩
    · exact (Objects.ensures_seed _ _ _ _ _).andThen fun _ =>
        Fresh.ensures_pure ⟨.same rfl, .struct _ _⟩

/-- The keys of the formal parameters of a function. -/
def formals (f : Function R) : Set Key := {k | ∃ n, k = .arg f.id n}

/-- The keys of the formal parameters that a function declares. -/
def paramKeys (f : Function R) : Set Key :=
  {k | ∃ n < f.params.size, k = .arg f.id (UInt32.ofNat n)}

omit [Number R] in
lemma paramKeys_subset (f : Function R) : paramKeys f ⊆ formals f := by
  rintro k ⟨n, -, rfl⟩
  exact ⟨_, rfl⟩

/-- Setting up formal parameters sets estimates for those that are declared. -/
lemma ensures_seedArguments_paramKeys (m : Module R) (s : Store R) (f : Function R) :
    (s.seedArguments m f).Ensures fun s' => s.Writes (paramKeys f) s' := by
  rw [seedArguments]
  refine Fresh.ensures_foldlM (fun s' pn hpn hs' => ?_) (.refl _ s)
  refine (ensures_seedValue m s' _ _ _).mono fun s'' hs'' =>
    hs'.trans (hs''.1.mono ?_)
  exact Set.singleton_subset_iff.2 ⟨pn.2, List.snd_lt_of_mem_zipIdx hpn, rfl⟩

/-- Setting up formal parameters sets estimates for them only. -/
lemma ensures_seedArguments (m : Module R) (s : Store R) (f : Function R) :
    (s.seedArguments m f).Ensures fun s' => s.Writes (formals f) s' :=
  (ensures_seedArguments_paramKeys m s f).mono fun _ hs' => hs'.mono (paramKeys_subset f)

/-- Give the formal parameter `n` of a callee the data of an actual one. -/
def applyArgument (source : Store R) (caller : FunctionId) (callee : Function R) (s : Store R)
    (vn : Value R × ℕ) : Store R :=
  match (Key.of? caller vn.1).bind source.get? with
  | none => s
  | some e =>
    let formal := Key.arg callee.id (UInt32.ofNat vn.2)
    s.set formal (mergeArgument (s.get? formal) e)

lemma applyArguments_eq (s source : Store R) (caller : FunctionId) (callee : Function R)
    (args : List (Value R)) : s.applyArguments source caller callee args
      = (args.take callee.params.size).zipIdx.foldl (applyArgument source caller callee) s := rfl

lemma writes_applyArgument (source : Store R) (caller : FunctionId) (callee : Function R)
    (s : Store R) (vn : Value R × ℕ) :
    s.Writes {.arg callee.id (UInt32.ofNat vn.2)} (applyArgument source caller callee s vn) := by
  rw [applyArgument]
  split
  · exact .refl _ s
  · exact s.writes_set _ _

lemma writes_foldl_applyArgument (source : Store R) (caller : FunctionId) (callee : Function R)
    (s : Store R) (vns : List (Value R × ℕ)) :
    s.Writes {k | ∃ vn ∈ vns, k = .arg callee.id (UInt32.ofNat vn.2)}
      (vns.foldl (applyArgument source caller callee) s) := by
  induction vns generalizing s with
  | nil => exact .refl _ s
  | cons vn vns ih =>
    refine ((writes_applyArgument source caller callee s vn).mono ?_).trans ((ih _).mono ?_)
    · exact Set.singleton_subset_iff.2 ⟨vn, List.mem_cons_self, rfl⟩
    · rintro k ⟨vn', hvn', rfl⟩
      exact ⟨vn', List.mem_cons_of_mem _ hvn', rfl⟩

lemma writes_applyArguments (s source : Store R) (caller : FunctionId) (callee : Function R)
    (args : List (Value R)) :
    s.Writes (paramKeys callee) (s.applyArguments source caller callee args) := by
  rw [applyArguments_eq]
  refine (writes_foldl_applyArgument source caller callee s _).mono ?_
  rintro k ⟨vn, hvn, rfl⟩
  exact ⟨vn.2, (List.snd_lt_of_mem_zipIdx hvn).trans_le (List.length_take_le _ _), rfl⟩

/-- An activation starts with the data of the caller, without those of the callee, and with new
formal parameters as far as they are declared. -/
lemma ensures_atCall_paramKeys (m : Module R) (s : Store R) :
    (s.atCall m caller callee args).Ensures fun start =>
      (s.eraseFunction callee).Writes (paramKeys callee) start := by
  unfold atCall
  refine (ensures_seedArguments_paramKeys m _ callee).bind fun start hstart => Fresh.ensures_pure ?_
  exact (hstart.trans (writes_applyArguments start s caller.id callee args)).trans (.same rfl)

/-- An activation starts with the data of the caller, without those of the callee, and with new
formal parameters. -/
lemma ensures_atCall (m : Module R) (s : Store R) :
    (s.atCall m caller callee args).Ensures fun start =>
      (s.eraseFunction callee).Writes (formals callee) start :=
  (ensures_atCall_paramKeys m s).mono fun _ hstart => hstart.mono (paramKeys_subset callee)

/-! ## Merging what an activation has found -/

/-- The keys of the arguments of a call. -/
def actuals (caller : Function R) (args : List (Value R)) : Set Key :=
  {k | ∃ v ∈ args, Key.of? caller.id v = some k}

omit [Number R] in
lemma notMem_actuals {v : Value R} {k : Key} (hv : Key.of? caller.id v = some k) (h : v ∉ args) :
    k ∉ actuals caller args := by
  rintro ⟨v', hv', hk⟩
  have heq : v' = v := by
    cases v <;> cases hv <;> cases v' <;> cases hk <;> rfl
  exact h (heq ▸ hv')

lemma writes_raiseArgument (s : Store R) {n : ℕ} {param : Param R} {actual : Value R}
    (h : actual ∈ args) :
    s.Writes (actuals caller args) (raiseArgument caller callee other s (n, param, actual)) := by
  unfold raiseArgument
  dsimp only
  split
  · split
    · next hk => exact (s.writes_raise _ _).mono (Set.singleton_subset_iff.2 ⟨actual, h, hk⟩)
    · exact .refl _ s
  · exact .refl _ s

lemma writes_foldl_raiseArgument (s : Store R) {params : List (ℕ × Param R × Value R)}
    (h : ∀ p ∈ params, p.2.2 ∈ args) :
    s.Writes (actuals caller args) (params.foldl (raiseArgument caller callee other) s) := by
  induction params generalizing s with
  | nil => exact .refl _ s
  | cons p params ih =>
    rw [List.foldl_cons]
    exact (writes_raiseArgument s (h p List.mem_cons_self)).trans
      (ih _ fun p' hp' => h p' (List.mem_cons_of_mem _ hp'))

omit [Number R] in
lemma writes_mergeGlobals (s other : Store R) :
    s.Writes {k | k.isGlobal = true} (s.mergeGlobals other) :=
  writes_update (t := other.entries.filterKeys Key.isGlobal)
    (fun _ hq => (List.mem_filter.1 hq).2) rfl

/-- What an activation has returned is merged into the data of the caller. -/
def withReturned (s other : Store R) (callee : Function R) : Store R :=
  (other.get? (.function callee.id)).elim s fun e => (s.raise (.function callee.id) e).2

lemma writes_withReturned (s other : Store R) (callee : Function R) :
    s.Writes {.function callee.id} (s.withReturned other callee) := by
  rw [withReturned]
  cases other.get? (.function callee.id) with
  | none => exact .refl _ s
  | some e => exact s.writes_raise _ e

/-- After what was returned, what is recorded for arguments is merged, and then what is recorded for
global variables. -/
lemma exists_entries_afterCall (s other : Store R) (m : Module R) (caller callee : Function R)
    (args : List (Value R)) : ∃ s', (s.withReturned other callee).Writes (actuals caller args) s' ∧
      (s.afterCall other m caller callee args).entries = (s'.mergeGlobals other).entries := by
  let params := (callee.params.toList.zip args).zipIdx.map fun p => (p.2, p.1.1, p.1.2)
  refine ⟨params.foldl (raiseArgument caller callee other) (s.withReturned other callee),
    writes_foldl_raiseArgument _ fun p hp => ?_, ?_⟩
  · obtain ⟨⟨⟨param, v⟩, n⟩, hmem, rfl⟩ := List.mem_map.1 hp
    exact (List.of_mem_zip (List.fst_mem_of_mem_zipIdx hmem)).2
  · unfold afterCall withReturned
    cases other.get? (.function callee.id) <;> rfl

end Store

/-! ## Activations -/

/-- The changes that the functions of a module make to a store, and their callers for them, are of
the kind `P`, if the arguments of calls are as wanted. -/
structure Module.Respects (m : Module R) (Q : List (Value R) → Prop) (P : Change R) : Prop where
  /-- The arguments of calls are as wanted. -/
  callsWith : ∀ f ∈ m.functions, ∀ i ∈ f.insts, i.CallsWith Q
  /-- The changes that the bodies make are of the kind. -/
  body : ∀ settings f, f ∈ m.functions → (Body.of m settings f).Respects P
  /-- Starting an activation and merging what it has found make a change of the kind. -/
  activation : ∀ n n' s start other caller callee args, n ≤ n' → callee ∈ m.functions → Q args →
    (s.eraseFunction callee).Writes (Store.formals callee) start → P n' start other →
    P n s (s.afterCall other m caller callee args)

namespace Plan

variable {settings : Settings} {s : Store R} {w : Findings R} {h : CallHandler R (Findings R)}
  {Q : List (Value R) → Prop} {P : Change R}

omit [Number R] in
lemma exists_body_eq {f : Function R} (hf : f ∈ m.functions) (settings : Settings) :
    ∃ f' ∈ m.functions, (Plan.of m settings).body f = Body.of m settings f' := by
  rw [body, Plan.of, Array.getElem?_map]
  cases hget : m.functions[f.id.val.toNat]? with
  | none => exact ⟨f, hf, rfl⟩
  | some f' => exact ⟨f', Array.mem_of_getElem? hget, rfl⟩

lemma run_respects (hm : m.Respects Q P) (hh : h.Respects m Q P) {f : Function R}
    (hf : f ∈ m.functions) (a : Activation R) (n : Symbol) :
    Fresh.EnsuresFrom n ((Plan.of m settings).run h f a w) fun o => P n a.store o.state.store := by
  obtain ⟨f', hf', hbody⟩ := exists_body_eq hf settings
  rw [run, hbody]
  dsimp only
  have hcalls : (Body.of m settings f').CallsWith Q := hm.callsWith f' hf'
  have hP : (Body.of m settings f').Respects P := hm.body settings f' hf'
  split
  · exact Body.runSchedule_respects hP hh hcalls _ n
  · exact Body.runSchedule_respects hP hh hcalls _ n

lemma activate_respects (hm : m.Respects Q P) (hh : h.Respects m Q P)
    (hcallee : callee ∈ m.functions) (hargs : Q args) (s : Store R) (n : Symbol) :
    Fresh.EnsuresFrom n ((Plan.of m settings).activate h w caller callee args s) fun r =>
      P n s r.1 := by
  have hP : (Body.of m settings callee).Respects P := hm.body settings callee hcallee
  unfold activate
  refine ((Store.ensures_atCall m s).from n).bind fun start n₁ h₁ hstart => ?_
  refine (run_respects hm hh hcallee _ n₁).bind fun o n₂ _ ho => ?_
  split
  · exact Fresh.ensuresFrom_pure (hP.refl n s)
  · refine Fresh.ensuresFrom_pure (hm.activation n n₁ s start _ caller callee args h₁ hcallee hargs
      hstart ?_)
    -- at last the bindings of formal parameters to aggregates are dropped, which are no entries
    exact hP.trans n₁ n₁ _ _ _ le_rfl ho (hP.own n₁ _ _ (.same rfl))

/-- **Calls change a store as the functions of the module do.** -/
theorem call_respects (hm : m.Respects Q P) (settings : Settings) (depth : ℕ) :
    (⟨(Plan.of m settings).call depth, Findings.returned?⟩ :
      CallHandler R (Findings R)).Respects m Q P := by
  -- the calls of an activation are followed to a smaller depth
  induction depth with
  | zero =>
    intro w caller callee args s n hcallee _
    exact Fresh.ensuresFrom_pure ((hm.body settings callee hcallee).refl n s)
  | succ depth ih =>
    intro w caller callee args s n hcallee hargs
    change Fresh.EnsuresFrom n ((Plan.of m settings).call (depth + 1) w caller callee args s) _
    rw [call]
    split
    · -- too many activations of the callee are under way
      exact Fresh.ensuresFrom_pure ((hm.body settings callee hcallee).refl n s)
    · exact (activate_respects hm ih hcallee hargs s n).bind fun r n' _ hr =>
        Fresh.ensuresFrom_pure hr

end Plan

end Activations

section Returns

variable {R : Type} [Number R] {m : Module R} {caller callee : Function R} {g : FunctionId}
  {args : List (Value R)} {n : Symbol}

/-! ## Merging what an activation has returned -/

namespace Store

variable {s other : Store R}

lemma error?_function_of_writes {start : Store R}
    (h : (s.eraseFunction callee).Writes (formals callee) start) :
    start.error? (.function g) = if g = callee.id then none else s.error? (.function g) := by
  have hformal : Key.function g ∉ formals callee := nofun
  rw [h.error?_eq hformal, error?, get?_eraseFunction, error?]
  by_cases hg : g = callee.id
  · simp [belongsTo, hg]
  · simp [belongsTo, Key.owner?, hg]

/-- Of the errors of functions that are no arguments, only that of the callee may be raised. -/
lemma error?_afterCall (hargs : .function g ∉ args) :
    (s.afterCall other m caller callee args).error? (.function g)
      = (s.withReturned other callee).error? (.function g) := by
  obtain ⟨s', hs', heq⟩ := s.exists_entries_afterCall other m caller callee args
  have hglobal : (s'.mergeGlobals other).error? (.function g) = s'.error? (.function g) :=
    (s'.writes_mergeGlobals other).error?_eq nofun
  rw [← hs'.error?_eq (notMem_actuals rfl hargs), ← hglobal]
  rw [error?, get?, heq, error?, get?]

/-- A call merges the error that its activation has returned, if it is larger than the one recorded
for the callee; otherwise the caller keeps the latter. -/
lemma error?_afterCall_callee (hargs : .function callee.id ∉ args) {e : Estimate R}
    (he : other.get? (.function callee.id) = some e) :
    (s.afterCall other m caller callee args).error? (.function callee.id)
      = if e.absError.any fun bound => !s.hasErrorAtLeast (.function callee.id) bound then e.error
        else s.error? (.function callee.id) := by
  rw [error?_afterCall hargs, withReturned, he, Option.elim_some, error?_raise]

/-- Merging an error over new symbols keeps the error recorded for a function, or replaces it by one
over new symbols. -/
lemma renews_afterCall (hargs : .function g ∉ args)
    (hother : callee.id = g → ∀ e, other.error? (.function g) = some e → e.IsDrawnFrom n) :
    s.Renews n g (s.afterCall other m caller callee args) := by
  intro e he
  rw [error?_afterCall hargs, withReturned] at he
  cases hreturned : other.get? (.function callee.id) with
  | none =>
    rw [hreturned] at he
    exact Or.inl he
  | some returned =>
    rw [hreturned, Option.elim_some] at he
    by_cases hg : callee.id = g
    · subst hg
      rw [error?_raise] at he
      split at he
      · exact Or.inr (hother rfl e (by rw [error?, hreturned]; exact he))
      · exact Or.inl he
    · rw [error?_raise_of_ne _ _ _ _ fun h => hg (Key.function.inj h)] at he
      exact Or.inl he

end Store

/-! ## Errors after an activation -/

/-- No instruction of the module passes the function `g` on as an argument. -/
def Module.Spares (m : Module R) (g : FunctionId) : Prop :=
  ∀ f ∈ m.functions, ∀ i ∈ f.insts, i.Spares g

/-- The functions of a module, and their callers for them, keep the error recorded for a function or
replace it by one over new symbols: an activation starts without an error of the callee. -/
lemma Module.respects_renews (hm : m.Spares g) :
    m.Respects (fun args => .function g ∉ args) fun n s s' => s.Renews n g s' where
  callsWith := hm
  body settings f _ := (Body.of m settings f).respects_renews g
  activation n n' s start other caller callee args hn _ hargs hstart hother := by
    refine Store.renews_afterCall hargs fun hg e he => ?_
    rcases hother e he with hold | hnew
    · rw [Store.error?_function_of_writes hstart, if_pos hg.symm] at hold
      cases hold
    · exact hnew.mono hn

/-- **Calls keep the error recorded for a function, or replace it by one over new symbols.** -/
theorem Plan.call_renews (hm : m.Spares g) (settings : Settings) (depth : ℕ) :
    (⟨(Plan.of m settings).call depth, Findings.returned?⟩ :
      CallHandler R (Findings R)).Renews m g :=
  call_respects (Module.respects_renews hm) settings depth

/-! ## Errors of calls -/

omit [Number R] in
/-- The error of a call is the one recorded for the callee, or, if there is none, the worst one
returned. -/
lemma Body.error?_of_returnedError? {σ : Type} {h : CallHandler R σ} {world : σ} {s : Store R}
    {id : FunctionId} {e : Affine R} {range : Option (Range R)}
    (hreturned : returnedError? h world s id = some (e, range)) :
    s.error? (.function id) = some e ∨
      s.error? (.function id) = none ∧ h.returned? world id = some e := by
  rw [returnedError?] at hreturned
  rw [Store.error?]
  cases hget : s.get? (.function id) with
  | none => simp_all
  | some r => cases herror : r.error <;> simp_all [Estimate.toOperand?]

/-- **The error of a call is an old one or over new symbols.**  What a call of a function records
for its result is the error that was recorded for the function before the call, or an error over
symbols drawn during the call, or, if the caller knows of no error of the function, the worst error
that all activations so far have returned. -/
theorem Body.functionCall_records (hm : m.Spares callee.id) (settings : Settings)
    (hcallee : callee ∈ m.functions) (hargs : .function callee.id ∉ args) (b : Body R)
    (a : Activation R) (w : Findings R) (i : Instruction R) (n : Symbol) :
    Fresh.EnsuresFrom n (b.functionCall (Plan.of m settings).calls a w i callee args) fun r =>
      r.1 = true → ∃ e, r.2.1.store.error? (b.key i) = some e ∧
        (a.store.error? (.function callee.id) = some e ∨ e.IsDrawnFrom n ∨
          Findings.returned? r.2.2 callee.id = some e) := by
  unfold functionCall
  refine (Plan.call_renews hm settings _ w b.function callee args a.store n hcallee hargs).bind
    fun r n' _ hr => ?_
  dsimp only
  split
  · exact Fresh.ensuresFrom_pure nofun
  · next e range hreturned =>
    refine Fresh.ensuresFrom_pure fun _ => ⟨e, ?_, ?_⟩
    · rw [write, Store.error?_setError, if_pos rfl]
    · rcases error?_of_returnedError? hreturned with he | ⟨-, he⟩
      · exact (hr e he).imp id Or.inl
      · exact Or.inr (Or.inr he)

end Returns

end Roundoff
