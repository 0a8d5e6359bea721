/-
# What is recorded for global variables

What is stored to a global variable is recorded for the store.  For the variable itself no function
records anything unless it is passed on as an argument: an activation starts with what the caller
has recorded for it, and when it is completed, the caller takes over the same.  So throughout the
analysis the record of a global variable is the one of its annotation, and this is what a load after
a call is given, whatever the callee has stored.
-/
import Mathlib
import Roundoff.Analysis.Session
import Roundoff.Proofs.Analysis.Activations
import Roundoff.Proofs.Memory.Calls

namespace Roundoff

variable {R : Type} {m : Module R} {g : GlobalId} {n : Symbol}

/-! ## Keeping a record -/

namespace Store

/-- If the entries are sorted, then they remain so, and what is recorded for the global variable `g`
is kept. -/
def KeepsGlobal (g : GlobalId) (s s' : Store R) : Prop :=
  s.entries.IsSorted → s'.entries.IsSorted ∧ s'.get? (.global g) = s.get? (.global g)

variable {s s' s'' other : Store R} {ks : Set Key}

namespace KeepsGlobal

lemma refl (g : GlobalId) (s : Store R) : s.KeepsGlobal g s := fun hs => ⟨hs, rfl⟩

lemma trans (h : s.KeepsGlobal g s') (h' : s'.KeepsGlobal g s'') : s.KeepsGlobal g s'' := by
  intro hs
  obtain ⟨hs', heq⟩ := h hs
  obtain ⟨hs'', heq'⟩ := h' hs'
  exact ⟨hs'', heq'.trans heq⟩

lemma of_writes [Number R] (h : s.Writes ks s') (hg : .global g ∉ ks) : s.KeepsGlobal g s' :=
  fun hs => ⟨h.isSorted hs, h.get?_eq hg⟩

end KeepsGlobal

/-- Of a global variable the other store is preferred. -/
lemma get?_mergeGlobals (hother : other.entries.IsSorted) (s : Store R) (g : GlobalId) :
    (s.mergeGlobals other).get? (.global g) = (other.get? (.global g)).or (s.get? (.global g)) := by
  rw [get?, mergeGlobals]
  dsimp only
  rw [Table.get?_update (hother.filterKeys _), Table.get?_filterKeys]
  rfl

/-- If both stores have recorded the same for a global variable, then it is kept. -/
lemma keepsGlobal_mergeGlobals (hother : other.entries.IsSorted)
    (hg : other.get? (.global g) = s.get? (.global g)) :
    s.KeepsGlobal g (s.mergeGlobals other) := by
  refine fun hs => ⟨hs.update _, ?_⟩
  rw [get?_mergeGlobals hother, hg, Option.or_self]

lemma keepsGlobal_eraseFunction (s : Store R) (f : Function R) :
    s.KeepsGlobal g (s.eraseFunction f) := by
  refine fun hs => ⟨hs.filterKeys _, ?_⟩
  rw [get?_eraseFunction, if_neg]
  simp [belongsTo, Key.owner?]

end Store

/-! ## Activations -/

variable [Number R]

/-- No instruction of the module passes the global variable `g` on as an argument. -/
def Module.SparesGlobal (m : Module R) (g : GlobalId) : Prop :=
  ∀ f ∈ m.functions, ∀ i ∈ f.insts, i.CallsWith fun args => .global g ∉ args

/-- The functions of a module, and their callers for them, keep what is recorded for a global
variable. -/
lemma Module.respects_keepsGlobal (hm : m.SparesGlobal g) :
    m.Respects (fun args => .global g ∉ args) fun _ s s' => s.KeepsGlobal g s' where
  callsWith := hm
  body settings f _ :=
    { own := fun _ s s' h => .of_writes h nofun
      returned := fun _ s _ _ _ => .of_writes (s.writes_set _ _) nofun
      trans := fun _ _ _ _ _ _ h h' => h.trans h' }
  activation _ _ s start other caller callee args _ _ hargs hstart hother := by
    intro hs
    -- the activation has the record of the caller, from its start to its end
    have hbegin : s.KeepsGlobal g start :=
      (s.keepsGlobal_eraseFunction callee).trans (.of_writes hstart nofun)
    obtain ⟨hsorted, hsame⟩ := (hbegin.trans hother) hs
    -- so what is merged is what the caller has recorded already
    obtain ⟨s', hs', heq⟩ := s.exists_entries_afterCall other m caller callee args
    have hraised : s.KeepsGlobal g s' :=
      (Store.KeepsGlobal.of_writes (s.writes_withReturned other callee) nofun).trans
        (.of_writes hs' (Store.notMem_actuals rfl hargs))
    have hmerged : s'.KeepsGlobal g (s'.mergeGlobals other) :=
      Store.keepsGlobal_mergeGlobals hsorted (hsame.trans (hraised hs).2.symm)
    have hend := (hraised.trans hmerged) hs
    rwa [Store.get?, ← heq] at hend

namespace Plan

variable {settings : Settings}

/-- **Calls keep what is recorded for a global variable** that is passed on by no instruction. -/
theorem call_keepsGlobal (hm : m.SparesGlobal g) (settings : Settings) (depth : ℕ) :
    (⟨(Plan.of m settings).call depth, Findings.returned?⟩ : CallHandler R (Findings R)).Respects m
      (fun args => .global g ∉ args) fun _ s s' => s.KeepsGlobal g s' :=
  call_respects (Module.respects_keepsGlobal hm) settings depth

/-! ## The whole analysis -/

lemma analyseFunction_keepsGlobal (hm : m.SparesGlobal g) (s : Session R) {f : Function R}
    (hf : f ∈ m.functions) (n : Symbol) :
    Fresh.EnsuresFrom n ((Plan.of m settings).analyseFunction s f) fun r =>
      s.globals.KeepsGlobal g r.2.globals := by
  unfold analyseFunction
  refine ((Store.ensures_seedArguments m s.globals f).from n).bind fun store n₁ _ hstore => ?_
  refine (run_respects (Module.respects_keepsGlobal hm)
    (call_keepsGlobal hm settings _) hf _ n₁).bind
    fun o n₂ _ ho => ?_
  dsimp only
  split
  · -- after a fault the globals are those from before
    exact Fresh.ensuresFrom_pure (.refl g _)
  · refine Fresh.ensuresFrom_pure fun hs => ?_
    have hrun : s.globals.KeepsGlobal g o.state.store := .trans (.of_writes hstore nofun) ho
    obtain ⟨hsorted, hsame⟩ := hrun hs
    exact Store.keepsGlobal_mergeGlobals hsorted hsame hs

lemma analyse_keepsGlobal (hm : m.SparesGlobal g) (s : Session R) (id : FunctionId) (n : Symbol) :
    Fresh.EnsuresFrom n ((Plan.of m settings).analyse s id) fun r =>
      s.globals.KeepsGlobal g r.2.globals := by
  rw [analyse]
  split
  · exact Fresh.ensuresFrom_pure (.refl g _)
  · next f hf =>
    split
    · exact Fresh.ensuresFrom_pure (.refl g _)
    · exact analyseFunction_keepsGlobal hm s (Array.mem_of_getElem? hf) n

lemma analyseAll_keepsGlobal (hm : m.SparesGlobal g) (s : Session R) (ids : List FunctionId)
    (n : Symbol) :
    Fresh.EnsuresFrom n ((Plan.of m settings).analyseAll s ids) fun r =>
      s.globals.KeepsGlobal g r.2.2.globals := by
  induction ids generalizing s n with
  | nil => exact Fresh.ensuresFrom_pure (.refl g _)
  | cons id ids ih =>
    rw [analyseAll]
    refine (analyse_keepsGlobal hm s id n).bind fun r n₁ _ hr => ?_
    refine (ih r.2 n₁).bind fun r' n₂ _ hr' => ?_
    dsimp only
    split
    · exact Fresh.ensuresFrom_pure (hr.trans hr')
    · exact Fresh.ensuresFrom_pure (hr.trans hr')

end Plan

/-- The estimate `e` is the one of an annotation of the global variable `g`, as a scalar. -/
def Module.Annotates (m : Module R) (g : GlobalId) (e : Estimate R) : Prop :=
  ∃ d ∈ m.globals, d.id = g ∧ ∃ info n, d.info = some (.scalar info) ∧
    (Store.annotated info n).1 = e

namespace Store

/-- The entries are sorted, and what is recorded for the global variable `g` is an annotation. -/
def IsAsAnnotated (m : Module R) (g : GlobalId) (s : Store R) : Prop :=
  s.entries.IsSorted ∧ ∀ e, s.get? (.global g) = some e → m.Annotates g e

variable {s s' : Store R}

lemma IsAsAnnotated.of_keepsGlobal (h : s.IsAsAnnotated m g) (h' : s.KeepsGlobal g s') :
    s'.IsAsAnnotated m g := by
  obtain ⟨hsorted, hget⟩ := h' h.1
  exact ⟨hsorted, fun e he => h.2 e (hget ▸ he)⟩

/-- The annotation of one global variable is recorded. -/
lemma IsAsAnnotated.ensures_seedValue (h : s.IsAsAnnotated m g) {d : Global R}
    (hd : d ∈ m.globals) :
    (s.seedValue m (.global d.id) d.ty.struct? d.info).Ensures fun s' => s'.IsAsAnnotated m g := by
  refine (Store.ensures_seedValue m s _ _ _).mono fun s' hs' => ?_
  obtain ⟨hwrites, hsetsUp⟩ := hs'
  by_cases hg : d.id = g
  · subst hg
    refine ⟨hwrites.isSorted h.1, fun e he => ?_⟩
    rw [he] at hsetsUp
    generalize hold : s.get? (.global d.id) = old at hsetsUp
    generalize hinfo : d.info = info at hsetsUp
    cases hsetsUp with
    | scalar info n => exact ⟨d, hd, rfl, info, n, hinfo, rfl⟩
    | struct | none => exact h.2 e hold
  · -- another global variable is set up
    refine h.of_keepsGlobal (.of_writes hwrites fun heq => hg ?_)
    exact (Key.global.inj heq).symm

/-- At the beginning of the analysis annotations are recorded for global variables. -/
lemma ensures_seedGlobals (m : Module R) (g : GlobalId) :
    ((forModule m).seedGlobals m).Ensures fun s => s.IsAsAnnotated m g := by
  have hempty : (forModule m).IsAsAnnotated m g := by
    refine ⟨Table.isSorted_empty, fun e he => ?_⟩
    rw [get?, forModule, Table.get?_empty] at he
    cases he
  refine Fresh.ensures_foldlM (fun s d hd hs => ?_) hempty
  exact hs.ensures_seedValue (Array.mem_toList_iff.1 hd)

end Store

/-- **Nothing but its annotation is recorded for a global variable** that no instruction passes on
as an argument, whatever the functions of the module store to it. -/
theorem Module.analyse_global (hm : m.SparesGlobal g) (settings : Settings) (n : Symbol) :
    Fresh.EnsuresFrom n (m.analyse settings) fun a =>
      ∀ e, a.globals.get? (.global g) = some e → m.Annotates g e := by
  unfold Module.analyse
  have hstart : (Session.start m).Ensures fun s => s.globals.IsAsAnnotated m g :=
    (Store.ensures_seedGlobals m g).bind fun s hs => Fresh.ensures_pure hs
  refine (hstart.from n).bind fun s n₁ _ hs => ?_
  refine (Plan.analyseAll_keepsGlobal hm s _ n₁).bind fun r n₂ _ hr => ?_
  exact Fresh.ensuresFrom_pure (hs.of_keepsGlobal hr).2

/-! ## Loads after calls -/

section Loads

variable {f : Function R} {load : Instruction R} {b : BlockId} {before after : List (Instruction R)}

/-- **A load of a global variable after a call** is given what was recorded for the variable when
the activation began, whatever has been stored to it since then, also by the callee. -/
theorem Body.sources_global_of_calls (hm : m.SparesGlobal g) (hf : f ∈ m.functions)
    (hplace : f.InstsInPlace) (honce : f.ListedOnce) (hreach : ∃ bs, (FlowGraph.of f).Path b bs)
    (hblock : f.blockInsts b = before ++ load :: after) (hload : load.op = .load (.global g))
    (hcalls : ∀ bs, (FlowGraph.of f).Path b bs → ∀ i,
      f.lastWrite? m (Origin.of f (.global g)) (Memory.passed f bs ++ before) = some i →
        i.isCall = true)
    (settings : Settings) (schedule : Schedule) (a : Activation R) (w : Findings R) (n : Symbol)
    (hsorted : a.store.entries.IsSorted) :
    Fresh.EnsuresFrom n
      ((Body.of m settings f).runSchedule (Plan.of m settings).calls a w schedule) fun o =>
        ∀ e, e ∈ (Memory.of m f).sources f o.state.store.get? load.id ↔
          a.store.get? (.global g) = some e := by
  have hP : (Body.of m settings f).Respects fun _ s s' => s.KeepsGlobal g s' :=
    (Module.respects_keepsGlobal hm).body settings f hf
  have hh := Plan.call_keepsGlobal hm settings (Plan.of m settings).depth
  refine (Body.runSchedule_respects hP hh (hm f hf) schedule n).mono fun o ho e => ?_
  rw [Memory.mem_sources_iff_of_definition?_eq_none hplace honce hreach hblock hload rfl hcalls,
    ← (ho hsorted).2]
  rfl

end Loads

end Roundoff
