/-
# Activations that stop at a fault

What an activation finds is merged only when it is completed, into the store of its caller or into
what is known of the global variables, and into the findings.  So an activation that stops at a
fault, wherever this happens, leaves nothing of its own behind.  The calls that it has made before
are not taken back: those of their activations that were completed have been taken into the
findings.

The outcomes of the completed activations are listed here by following the calls of an activation,
and the findings at its end turn out to be those at its beginning with the outcomes of the list
taken in, one after the other, up to the counts and the schedules that summaries keep.
-/
import Mathlib
import Roundoff.Proofs.Analysis.Termination

namespace Roundoff

variable {R : Type} [Number R]

/-! ## Findings that agree -/

/-- Findings that know of the same results and of the same worst returned values. -/
structure Findings.Agrees (w w' : Findings R) : Prop where
  /-- The results are the same. -/
  results_eq : w.results = w'.results
  /-- The worst returned values are the same. -/
  error_eq : ∀ f, (w.summary f).error = (w'.summary f).error

/-- Whether a returned value is kept depends on the worst one before. -/
lemma Summary.error_raise_congr {s s' : Summary R} (h : s.error = s'.error) (e : Estimate R) :
    (s.raise e).2.error = (s'.raise e).2.error := by
  rw [raise, raise, absError, absError, h]
  split
  · exact h
  · split
    · exact h
    · rfl

namespace Findings

variable {w w' w'' : Findings R} {f g : FunctionId} {ys : List (FunctionId × Activation R)}

omit [Number R] in
lemma Agrees.refl (w : Findings R) : w.Agrees w := ⟨rfl, fun _ => rfl⟩

omit [Number R] in
lemma Agrees.trans (h : w.Agrees w') (h' : w'.Agrees w'') : w.Agrees w'' :=
  ⟨h.results_eq.trans h'.results_eq, fun f => (h.error_eq f).trans (h'.error_eq f)⟩

omit [Number R] in
/-- A summary with the same worst returned value makes no difference. -/
lemma agrees_setSummary {s : Summary R} (hs : s.error = (w.summary f).error) :
    (w.setSummary f s).Agrees w where
  results_eq := rfl
  error_eq g := by
    rw [summary_setSummary]
    split
    · next hg => rw [hs, hg]
    · rfl

omit [Number R] in
lemma agrees_enter (w : Findings R) (f : FunctionId) : (w.enter f).2.Agrees w :=
  agrees_setSummary rfl

omit [Number R] in
lemma agrees_leave (w : Findings R) (f : FunctionId) (before : ℕ) : (w.leave f before).Agrees w :=
  agrees_setSummary rfl

omit [Number R] in
lemma agrees_skip (w : Findings R) (f : FunctionId) : (w.skip f).Agrees w := agrees_setSummary rfl

lemma summary_finish (w : Findings R) (f g : FunctionId) (a : Activation R) :
    (w.finish f a).summary g = if f = g then
      (a.store.get? (.function f)).elim (w.summary g) fun e => ((w.summary g).raise e).2
      else w.summary g := by
  rw [finish]
  cases a.store.get? (.function f) with
  | none => exact (ite_self _).symm
  | some e =>
    change (w.setSummary f ((w.summary f).raise e).2).summary g = _
    rw [summary_setSummary]
    split
    · next hg => rw [hg]; rfl
    · rfl

lemma results_finish (w : Findings R) (f : FunctionId) (a : Activation R) :
    (w.finish f a).results = w.results.absorb f a := by
  rw [finish]
  split <;> rfl

/-- Findings that agree still do so when an outcome has been taken in. -/
lemma Agrees.finish (h : w.Agrees w') (f : FunctionId) (a : Activation R) :
    (w.finish f a).Agrees (w'.finish f a) where
  results_eq := by rw [results_finish, results_finish, h.results_eq]
  error_eq g := by
    rw [summary_finish, summary_finish]
    split
    · cases a.store.get? (.function f) with
      | none => exact h.error_eq g
      | some e => exact Summary.error_raise_congr (h.error_eq g) e
    · exact h.error_eq g

/-- Take outcomes of completed activations into the findings, one after the other. -/
def takeIn (w : Findings R) (ys : List (FunctionId × Activation R)) : Findings R :=
  ys.foldl (fun w y => w.finish y.1 y.2) w

lemma takeIn_append (w : Findings R) (ys zs : List (FunctionId × Activation R)) :
    w.takeIn (ys ++ zs) = (w.takeIn ys).takeIn zs := List.foldl_append

lemma Agrees.takeIn (h : w.Agrees w') (ys : List (FunctionId × Activation R)) :
    (w.takeIn ys).Agrees (w'.takeIn ys) := by
  induction ys generalizing w w' with
  | nil => exact h
  | cons y ys ih => exact ih (h.finish y.1 y.2)

end Findings

/-- If every answer to a call takes some outcomes into the findings, then the answers to several
calls take in all of them. -/
lemma CallHandler.Leads.agrees {h : CallHandler R (Findings R)} {w w' : Findings R}
    {cs : List (Call R (Findings R))} (hcs : h.Leads w cs w')
    (g : Call R (Findings R) → List (FunctionId × Activation R))
    (hg : ∀ c ∈ cs, (h.answer c).1.2.Agrees (c.world.takeIn (g c))) :
    w'.Agrees (w.takeIn (cs.flatMap g)) := by
  induction hcs with
  | nil => exact .refl w
  | @snoc cs c _ ih =>
    rw [List.flatMap_append, List.flatMap_singleton, Findings.takeIn_append]
    have hcs := ih fun d hd => hg d (List.mem_append_left _ hd)
    exact (hg c (List.mem_append_right _ (List.mem_singleton_self c))).trans (hcs.takeIn (g c))

namespace Plan

variable {m : Module R} {settings : Settings} {x : Start R} {xs : List (Start R)}
  {c : Call R (Findings R)} {s : Session R} {n : Symbol} {f : Function R}

omit [Number R] in
/-- Keeping a schedule makes no difference. -/
lemma agrees_prepared (p : Plan R) (f : Function R) (w : Findings R) :
    (p.prepared f w).2.Agrees w := by
  rw [prepared]
  split
  · exact .refl w
  · exact Findings.agrees_setSummary rfl

/-! ## Completed activations -/

/-- The outcome of the activation for a call, if it is completed. -/
def completed (c : Call R (Findings R)) (o : Outcome R (Findings R) Unit) :
    List (FunctionId × Activation R) :=
  match o.answer with
  | .error _ => []
  | .ok _ => [(c.callee.id, released c o.state)]

/-- The end of an activation takes its outcome into the findings if it is completed. -/
lemma finished_eq (c : Call R (Findings R)) (o : Outcome R (Findings R) Unit) :
    finished c o = o.world.takeIn (completed c o) := by
  rw [finished, completed]
  cases o.answer with
  | error fault => rfl
  | ok _ => rfl

/-- The outcome of the activation for a call. -/
def outcomeOf (p : Plan R) (c : Call R (Findings R)) : Outcome R (Findings R) Unit :=
  (p.outcome p.calls (p.begin c)).1

/-- The outcomes of the completed activations for the calls of an activation, and for the calls of
these, in the order in which they are completed. -/
def completedWithin (m : Module R) (settings : Settings) (x : Start R) :
    List (FunctionId × Activation R) :=
  ((Plan.of m settings).callsOf x).attach.flatMap fun c =>
    if _ : (Plan.of m settings).IsFollowed c.1 then
      completedWithin m settings ((Plan.of m settings).begin c.1)
        ++ completed c.1 ((Plan.of m settings).outcomeOf c.1)
    else []
termination_by (Plan.of m settings).budget x.findings
decreasing_by exact budget_begin_lt c.2 ‹_›

/-- What a call takes into the findings. -/
def completedFor (m : Module R) (settings : Settings) (c : Call R (Findings R)) :
    List (FunctionId × Activation R) :=
  if (Plan.of m settings).IsFollowed c then
    completedWithin m settings ((Plan.of m settings).begin c)
      ++ completed c ((Plan.of m settings).outcomeOf c)
  else []

lemma completedWithin_eq (m : Module R) (settings : Settings) (x : Start R) :
    completedWithin m settings x
      = ((Plan.of m settings).callsOf x).flatMap (completedFor m settings) := by
  rw [completedWithin, List.flatMap_subtype (g := completedFor m settings) fun _ _ => rfl,
    List.unattach_attach]

/-- An activation is listed if it is completed and is for a call, or for a call made in the
activation for a call, whether that one is completed or not. -/
lemma mem_completedWithin {y : FunctionId × Activation R} :
    y ∈ completedWithin m settings x ↔
      ∃ c ∈ (Plan.of m settings).callsOf x, (Plan.of m settings).IsFollowed c ∧
        (y ∈ completedWithin m settings ((Plan.of m settings).begin c) ∨
          ((Plan.of m settings).outcomeOf c).answer = .ok () ∧
            y = (c.callee.id, released c ((Plan.of m settings).outcomeOf c).state)) := by
  have hcompleted (c : Call R (Findings R)) (o : Outcome R (Findings R) Unit) :
      y ∈ completed c o ↔ o.answer = .ok () ∧ y = (c.callee.id, released c o.state) := by
    rw [completed]
    cases o.answer with
    | error fault => simp
    | ok _ => simp
  rw [completedWithin_eq, List.mem_flatMap]
  refine exists_congr fun c => and_congr_right fun _ => ?_
  rw [completedFor]
  by_cases hf : (Plan.of m settings).IsFollowed c
  · rw [if_pos hf, List.mem_append, hcompleted, and_iff_right hf]
  · rw [if_neg hf]
    exact iff_of_false List.not_mem_nil fun h => hf h.1

/-! ## What activations take into the findings -/

/-- **The findings at the end of an activation** are those at its beginning, and the outcomes of the
activations that have been completed in between. -/
theorem IsStack.outcome_agrees (hm : m.validate = .ok ())
    (hx : (Plan.of m settings).IsStack x xs) :
    ((Plan.of m settings).outcome (Plan.of m settings).calls x).1.world.Agrees
      (x.findings.takeIn (completedWithin m settings x)) := by
  -- the activations for calls have less of the bounds before them
  induction hbudget : (Plan.of m settings).budget x.findings using Nat.strong_induction_on
    generalizing x xs with
  | _ k ih =>
    subst hbudget
    rw [completedWithin_eq, outcome, run_eq]
    refine (CallHandler.Leads.agrees (Body.callsOf_leads _ _ _ _ _ _) _ fun c hc => ?_).trans
      ((agrees_prepared _ _ _).takeIn _)
    rw [hx.answer_eq hm hc, respond, completedFor]
    split
    · next hf =>
      have hbegin := ih _ (budget_begin_lt hc hf) (hx.call hc hf) rfl
      refine (Findings.agrees_leave _ _ _).trans ?_
      rw [finished_eq, Findings.takeIn_append]
      exact (hbegin.trans ((Findings.agrees_enter _ _).takeIn _)).takeIn _
    · exact Findings.agrees_skip _ _

/-! ## Faults -/

/-- An activation that stops at a fault leaves nothing of its own behind. -/
structure FailsAtomically (m : Module R) (settings : Settings) : Prop where
  /-- Calls of functions meet no fault, whatever their activations meet. -/
  call_ok : ∀ x xs, (Plan.of m settings).IsStack x xs → ∀ a w i callee args n,
    ((Plan.of m settings).body x.function).routine? callee = none →
    ∃ found, (((Plan.of m settings).body x.function).call (Plan.of m settings).calls a w i callee
      args n).1.answer = .ok found
  /-- If the activation for a call stops at a fault, then the store of the caller is exactly as
  before, and the findings have taken in the completed activations for calls made meanwhile, and
  nothing else. -/
  answer : ∀ x xs, (Plan.of m settings).IsStack x xs → ∀ c ∈ (Plan.of m settings).callsOf x,
    (Plan.of m settings).IsFollowed c →
    ∀ fault, ((Plan.of m settings).outcomeOf c).answer = .error fault →
      ((Plan.of m settings).calls.answer c).1.1 = c.store ∧
      ((Plan.of m settings).calls.answer c).1.2.Agrees
        (c.world.takeIn (completedWithin m settings ((Plan.of m settings).begin c)))
  /-- If the analysis of a function from which the analysis starts stops at a fault, then what is
  known of global variables is exactly as before, and the same holds of the findings. -/
  entry : ∀ s n, (Plan.of m settings).Between s n → ∀ id f, m.function? id = some f →
    f.isDeclaration = false → ∀ fault, ((Plan.of m settings).outcome (Plan.of m settings).calls
      ((Plan.of m settings).beginEntry s f n)).1.answer = .error fault →
    ((Plan.of m settings).analyse s id n).1.1 = .error fault ∧
    ((Plan.of m settings).analyse s id n).1.2.globals = s.globals ∧
    ((Plan.of m settings).analyse s id n).1.2.findings.Agrees
      (s.findings.takeIn
        (completedWithin m settings ((Plan.of m settings).beginEntry s f n)))
  /-- The activations that are taken in are all those that are completed, however deep. -/
  mem_completed : ∀ x y, y ∈ completedWithin m settings x ↔
    ∃ c ∈ (Plan.of m settings).callsOf x, (Plan.of m settings).IsFollowed c ∧
      (y ∈ completedWithin m settings ((Plan.of m settings).begin c) ∨
        ((Plan.of m settings).outcomeOf c).answer = .ok () ∧
          y = (c.callee.id, released c ((Plan.of m settings).outcomeOf c).state))

/-- A call of a function meets no fault. -/
lemma call_ok {σ : Type} {b : Body R} {h : CallHandler R σ} {callee : Callee R}
    (hroutine : b.routine? callee = none) (a : Activation R) (w : σ) (i : Instruction R)
    (args : List (Value R)) (n : Symbol) :
    ∃ found, (b.call h a w i callee args n).1.answer = .ok found := by
  rw [Body.call, hroutine]
  dsimp only
  cases b.module.calleeBody? callee with
  | none => exact ⟨_, rfl⟩
  | some f => exact ⟨_, rfl⟩

/-- **Activations that stop at a fault leave nothing of their own behind.** -/
theorem failsAtomically (hm : m.validate = .ok ()) (settings : Settings) :
    FailsAtomically m settings where
  call_ok _ _ _ _ _ _ _ _ _ hroutine := call_ok hroutine _ _ _ _ _
  answer x xs hx c hc hf fault hfault := by
    have hbegin := (hx.call hc hf).outcome_agrees hm
    have hanswer : ((Plan.of m settings).outcome (Plan.of m settings).calls
        ((Plan.of m settings).begin c)).1.answer = .error fault := hfault
    rw [hx.answer_eq hm hc, respond, if_pos hf, conclude, merged, finished, hanswer]
    exact ⟨rfl, (Findings.agrees_leave _ _ _).trans
      (hbegin.trans ((Findings.agrees_enter _ _).takeIn _))⟩
  entry s n hs id f hf hbody fault hfault := by
    have hbegin := (IsStack.entry hs hf hbody).outcome_agrees hm
    have hanalyse : (Plan.of m settings).analyse s id n
        = (Plan.of m settings).analyseFunction s f n := by
      rw [analyse, show (Plan.of m settings).module.function? id = some f from hf]
      dsimp only
      rw [hbody]
      rfl
    rw [hanalyse, analyseFunction_eq]
    dsimp only
    rw [hfault]
    exact ⟨rfl, rfl, (Findings.agrees_leave _ _ _).trans
      (hbegin.trans ((Findings.agrees_enter _ _).takeIn _))⟩
  mem_completed _ _ := mem_completedWithin

end Plan

/-! ## A call that stops after a call -/

namespace BrokenSlot

/-- The function does nothing. -/
def helper : Function ℝ where
  id := ⟨0⟩
  name := "helper"
  params := #[]
  retTy := .void
  blocks := #[⟨⟨0⟩, "entry", [⟨0⟩], none, none⟩]
  insts := #[⟨⟨0⟩, ⟨0⟩, "", .void, .ret none, none, none⟩]
  maxRecursion := none
  entryPoint := false

/-- The function calls the one before, and reserves a stack slot whose annotation is wrong. -/
def broken : Function ℝ where
  id := ⟨1⟩
  name := "broken"
  params := #[]
  retTy := .void
  blocks := #[⟨⟨0⟩, "entry", [⟨0⟩, ⟨1⟩, ⟨2⟩], none, none⟩]
  insts := #[⟨⟨0⟩, ⟨0⟩, "", .void, .call (.direct ⟨0⟩) [], none, none⟩,
    ⟨⟨1⟩, ⟨0⟩, "a", .pointer (.float 64), .alloca (.float 64), some (.struct []), none⟩,
    ⟨⟨2⟩, ⟨0⟩, "", .void, .ret none, none, none⟩]
  maxRecursion := none
  entryPoint := false

/-- The function calls the broken one. -/
def outer : Function ℝ where
  id := ⟨2⟩
  name := "outer"
  params := #[]
  retTy := .void
  blocks := #[⟨⟨0⟩, "entry", [⟨0⟩, ⟨1⟩], none, none⟩]
  insts := #[⟨⟨0⟩, ⟨0⟩, "", .void, .call (.direct ⟨1⟩) [], none, none⟩,
    ⟨⟨1⟩, ⟨0⟩, "", .void, .ret none, none, none⟩]
  maxRecursion := none
  entryPoint := false

/-- The module of the three functions. -/
def program : Module ℝ := ⟨"m", #[helper, broken, outer], #[], #[]⟩

/-- The analysis of the module. -/
def plan : Plan ℝ := Plan.of program {}

/-- The activation from which the analysis starts. -/
noncomputable def first : Start ℝ := plan.beginEntry (Session.start program 0).1 outer 0

/-- The call of the broken function is followed and stops, and the call that it makes before is
followed and completed. -/
lemma exists_call : ∃ c ∈ plan.callsOf first, plan.IsFollowed c ∧
    (plan.outcomeOf c).answer = .error (.aggregateOnSlot "broken" "a") ∧
    ∃ d ∈ plan.callsOf (plan.begin c), plan.IsFollowed d ∧ (plan.outcomeOf d).answer = .ok () := by
  decide +kernel

/-- The store of the caller is as before, although a nested activation has been taken in. -/
theorem failsAtomically_program : program.validate = .ok () ∧ Plan.FailsAtomically program {} ∧
    ∃ c ∈ plan.callsOf first, (plan.calls.answer c).1.1 = c.store ∧
      Plan.completedWithin program {} (plan.begin c) ≠ [] := by
  have hatomic : Plan.FailsAtomically program {} := Plan.failsAtomically rfl {}
  obtain ⟨c, hc, hfollowed, hfault, d, hd, hfollowed', hok⟩ := exists_call
  have hfirst : plan.IsStack first [] :=
    .entry (.start 0) (show program.function? ⟨2⟩ = some outer from rfl) rfl
  refine ⟨rfl, hatomic, c, hc, (hatomic.answer _ _ hfirst c hc hfollowed _ hfault).1, ?_⟩
  exact List.ne_nil_of_mem ((hatomic.mem_completed _ _).2 ⟨d, hd, hfollowed', .inr ⟨hok, rfl⟩⟩)

end BrokenSlot

end Roundoff
