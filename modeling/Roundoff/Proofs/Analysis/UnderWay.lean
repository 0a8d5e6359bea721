/-
# Activations under way

The summary of a function counts its activations that are under way: the count goes up when one
begins, and goes back to what it was before when it ends, whether it is completed or stops at a
fault.  So a call leaves all counts as it finds them.  By the same induction a call keeps whatever
the single steps of the analysis keep: keeping a schedule, beginning and ending an activation,
taking its outcome into the findings, and leaving a call alone.

The equation for a call followed to a depth refers to calls followed to the depth below.
-/
import Mathlib
import Roundoff.Proofs.Program.Positions
import Roundoff.Proofs.Store
import Roundoff.Proofs.Transfer.CallLog

namespace Roundoff

variable {R : Type} [Number R]

/-! ## Counts -/

namespace Findings

/-- How many activations of a function are under way. -/
def underWay (w : Findings R) (f : FunctionId) : ℕ := (w.summary f).recursion

variable {w : Findings R} {f g : FunctionId} {before : ℕ} {a : Activation R}

omit [Number R] in
@[simp] lemma summary_setSummary (w : Findings R) (f g : FunctionId) (s : Summary R) :
    (w.setSummary f s).summary g = if f = g then s else w.summary g := by
  rw [setSummary, summary, Table.get?_insert]
  split
  · rfl
  · rfl

omit [Number R] in
lemma summary_enter : (w.enter f).2.summary g
    = if f = g then (w.summary f).enter.2 else w.summary g := w.summary_setSummary f g _

omit [Number R] in
lemma summary_leave : (w.leave f before).summary g
    = if f = g then (w.summary f).leave before else w.summary g := w.summary_setSummary f g _

omit [Number R] in
lemma summary_skip : (w.skip f).summary g
    = if f = g then { w.summary f with skipped := (w.summary f).skipped + 1 } else w.summary g :=
  w.summary_setSummary f g _

/-- The outcome of an activation changes no more of a summary than the worst returned error. -/
lemma exists_summary_finish (w : Findings R) (f g : FunctionId) (a : Activation R) :
    ∃ e, (w.finish f a).summary g = { w.summary g with error := e } := by
  have hraise (s : Summary R) (e : Estimate R) : ∃ e', (s.raise e).2 = { s with error := e' } := by
    rw [Summary.raise]
    split
    · exact ⟨s.error, rfl⟩
    · split
      · exact ⟨s.error, rfl⟩
      · exact ⟨_, rfl⟩
  rw [finish]
  cases a.store.get? (.function f) with
  | none => exact ⟨_, rfl⟩
  | some e =>
    change ∃ e', (w.setSummary f ((w.summary f).raise e).2).summary g = _
    obtain ⟨e', he'⟩ := hraise (w.summary f) e
    rw [summary_setSummary]
    split
    · next h =>
      subst h
      exact ⟨e', he'⟩
    · exact ⟨_, rfl⟩

omit [Number R] in
@[simp] lemma underWay_enter : (w.enter f).2.underWay g
    = if f = g then w.underWay g + 1 else w.underWay g := by
  rw [underWay, summary_enter]
  split
  · next h => rw [h]; rfl
  · rfl

omit [Number R] in
@[simp] lemma underWay_leave : (w.leave f before).underWay g
    = if f = g then before else w.underWay g := by
  rw [underWay, summary_leave]
  split
  · rfl
  · rfl

omit [Number R] in
@[simp] lemma underWay_skip : (w.skip f).underWay = w.underWay := by
  funext g
  rw [underWay, summary_skip]
  split
  · next h => rw [h]; rfl
  · rfl

@[simp] lemma underWay_finish : (w.finish f a).underWay = w.underWay := by
  funext g
  obtain ⟨e, he⟩ := w.exists_summary_finish f g a
  rw [underWay, he]
  rfl

end Findings

/-! ## Activations and calls -/

/-- The beginning of an activation. -/
structure Start (R : Type) where
  /-- The function. -/
  function : Function R
  /-- The state of the activation. -/
  state : Activation R
  /-- The findings, in which the activation is counted. -/
  findings : Findings R
  /-- The first symbol in supply. -/
  supply : Symbol

namespace Plan

variable {p : Plan R} {h : CallHandler R (Findings R)} {x : Start R}
  {c : Call R (Findings R)} {f : Function R} {w : Findings R}

/-- The schedule of a function, and the findings in which it is kept. -/
def prepared (p : Plan R) (f : Function R) (w : Findings R) : Schedule × Findings R :=
  match (w.summary f.id).schedule with
  | some schedule => (schedule, w)
  | none =>
    let schedule := (p.body f).flow.schedule p.settings f
    (schedule, w.setSummary f.id { w.summary f.id with schedule := some schedule })

lemma run_eq (p : Plan R) (h : CallHandler R (Findings R)) (f : Function R) (a : Activation R)
    (w : Findings R) :
    p.run h f a w = (p.body f).runSchedule h a (p.prepared f w).2 (p.prepared f w).1 := by
  unfold run prepared
  dsimp only
  cases (w.summary f.id).schedule with
  | some schedule => rfl
  | none => rfl

omit [Number R] in
@[simp] lemma underWay_prepared (p : Plan R) (f : Function R) (w : Findings R) :
    (p.prepared f w).2.underWay = w.underWay := by
  unfold prepared
  split
  · rfl
  · funext g
    rw [Findings.underWay, Findings.summary_setSummary]
    split
    · next h => rw [← h]; rfl
    · rfl

/-- The outcome of an activation. -/
def outcome (p : Plan R) (h : CallHandler R (Findings R)) (x : Start R) :
    Outcome R (Findings R) Unit × Symbol :=
  p.run h x.function x.state x.findings x.supply

/-- A call is followed if fewer activations of the callee are under way than its bound allows. -/
def IsFollowed (p : Plan R) (c : Call R (Findings R)) : Prop :=
  c.world.underWay c.callee.id < p.recursionBound c.callee

instance (p : Plan R) (c : Call R (Findings R)) : Decidable (p.IsFollowed c) :=
  inferInstanceAs (Decidable (_ < _))

/-- The beginning of the activation for a call. -/
def begin (p : Plan R) (c : Call R (Findings R)) : Start R :=
  let start := c.store.atCall p.module c.caller c.callee c.args c.supply
  ⟨c.callee, { store := start.1 }, (c.world.enter c.callee.id).2, start.2⟩

/-- The outcome of a completed activation for a call as it is taken into the findings: formal
parameters no longer stand for aggregates of the caller. -/
def released (c : Call R (Findings R)) (a : Activation R) : Activation R :=
  { a with store := { a.store with objects := a.store.objects.clearBindings c.callee } }

/-- The findings at the end of the activation for a call, before it is left. -/
def finished (c : Call R (Findings R)) (o : Outcome R (Findings R) Unit) : Findings R :=
  match o.answer with
  | .error _ => o.world
  | .ok _ => o.world.finish c.callee.id (released c o.state)

/-- The store of the caller after a call. -/
def merged (p : Plan R) (c : Call R (Findings R)) (o : Outcome R (Findings R) Unit) : Store R :=
  match o.answer with
  | .error _ => c.store
  | .ok _ => c.store.afterCall (released c o.state).store p.module c.caller c.callee c.args

/-- The answer to a call by an activation of its callee. -/
def conclude (p : Plan R) (c : Call R (Findings R)) (o : Outcome R (Findings R) Unit × Symbol) :
    (Store R × Findings R) × Symbol :=
  ((p.merged c o.1, (finished c o.1).leave c.callee.id (c.world.underWay c.callee.id)), o.2)

/-- The answer to a call: an activation that hands its own calls to `h`, if the call is followed. -/
def respond (p : Plan R) (h : CallHandler R (Findings R)) (c : Call R (Findings R)) :
    (Store R × Findings R) × Symbol :=
  if p.IsFollowed c then p.conclude c (p.outcome h (p.begin c))
  else ((c.store, c.world.skip c.callee.id), c.supply)

/-- Calls that are followed to a given depth. -/
def follow (p : Plan R) (depth : ℕ) : CallHandler R (Findings R) :=
  ⟨p.call depth, Findings.returned?⟩

lemma activate_apply (p : Plan R) (h : CallHandler R (Findings R)) (c : Call R (Findings R)) :
    p.activate h (c.world.enter c.callee.id).2 c.caller c.callee c.args c.store c.supply
      = ((p.merged c (p.outcome h (p.begin c)).1, finished c (p.outcome h (p.begin c)).1),
        (p.outcome h (p.begin c)).2) := by
  rw [activate, Fresh.bind_apply, Fresh.bind_apply]
  generalize hr : p.outcome h (p.begin c) = r
  unfold outcome begin at hr
  dsimp only at hr
  rw [hr]
  obtain ⟨⟨answer, a, w⟩, n⟩ := r
  cases answer with
  | error fault => rfl
  | ok _ => rfl

/-- **A call is answered by an activation** that hands its own calls to the depth below. -/
lemma answer_follow_succ (p : Plan R) (depth : ℕ) (c : Call R (Findings R)) :
    (p.follow (depth + 1)).answer c = p.respond (p.follow depth) c := by
  rw [CallHandler.answer, follow, respond]
  dsimp only
  rw [call]
  by_cases hc : p.recursionBound c.callee ≤ (c.world.summary c.callee.id).recursion
  · rw [if_pos hc, if_neg fun hf : p.IsFollowed c => absurd hc (Nat.not_le.2 hf)]
    rfl
  · have hf : p.IsFollowed c := Nat.not_le.1 hc
    rw [if_neg hc, if_pos hf]
    dsimp only
    rw [Fresh.bind_apply]
    change (fun r : (Store R × Findings R) × Symbol => ((r.1.1, r.1.2.leave _ _), r.2))
      (p.activate (p.follow depth) _ _ _ _ _ _) = _
    rw [activate_apply]
    rfl

/-! ## What calls keep -/

/-- What the single steps of an analysis keep of the findings. -/
structure Maintains (p : Plan R) (J : Findings R → Prop) : Prop where
  /-- A schedule is kept. -/
  prepared : ∀ f ∈ p.module.functions, ∀ w, J w → J (p.prepared f w).2
  /-- An activation begins. -/
  enter : ∀ f ∈ p.module.functions, ∀ w, w.underWay f.id < max 1 (p.recursionBound f) → J w →
    J (w.enter f.id).2
  /-- An activation ends. -/
  leave : ∀ f ∈ p.module.functions, ∀ w before, J w → J (w.leave f.id before)
  /-- A call is not followed. -/
  skip : ∀ f ∈ p.module.functions, ∀ w, J w → J (w.skip f.id)
  /-- The outcome of an activation is taken into the findings. -/
  finish : ∀ f ∈ p.module.functions, ∀ w a, J w → J (w.finish f.id a)

/-- Nothing in particular is kept. -/
lemma maintains_true (p : Plan R) : p.Maintains fun _ => True :=
  ⟨fun _ _ _ _ => trivial, fun _ _ _ _ _ => trivial, fun _ _ _ _ _ => trivial,
    fun _ _ _ _ => trivial, fun _ _ _ _ _ => trivial⟩

/-- What the single steps of an analysis keep of the summary of a function. -/
structure MaintainsSummaries (p : Plan R) (Q : Function R → Summary R → Prop) : Prop where
  /-- A schedule is kept. -/
  schedule : ∀ f s, Q f s →
    Q f { s with schedule := some ((p.body f).flow.schedule p.settings f) }
  /-- An activation begins. -/
  enter : ∀ f s, s.recursion < max 1 (p.recursionBound f) → Q f s → Q f s.enter.2
  /-- An activation ends. -/
  leave : ∀ f s before, Q f s → Q f (s.leave before)
  /-- A call is not followed. -/
  skip : ∀ f s, Q f s → Q f { s with skipped := s.skipped + 1 }
  /-- A returned value is kept. -/
  error : ∀ f s e, Q f s → Q f { s with error := e }

/-- What the steps keep of summaries, they keep of the findings, if the functions are told apart by
their positions. -/
lemma MaintainsSummaries.maintains {Q : Function R → Summary R → Prop}
    (hQ : p.MaintainsSummaries Q) (hids : p.module.DistinctIds) :
    p.Maintains fun w => ∀ f ∈ p.module.functions, Q f (w.summary f.id) := by
  -- only the summary of the function in question is set
  have hset : ∀ f ∈ p.module.functions, ∀ (w : Findings R) s, Q f s →
      (∀ g ∈ p.module.functions, Q g (w.summary g.id)) →
      ∀ g ∈ p.module.functions, Q g ((w.setSummary f.id s).summary g.id) := by
    intro f hf w s hs hw g hg
    rw [Findings.summary_setSummary]
    split
    · next hid =>
      obtain rfl := hids f hf g hg hid
      exact hs
    · exact hw g hg
  refine ⟨fun f hf w hw => ?_, fun f hf w hlt hw => ?_, fun f hf w before hw => ?_,
    fun f hf w hw => ?_, fun f hf w a hw g hg => ?_⟩
  · rw [prepared]
    split
    · exact hw
    · exact hset f hf w _ (hQ.schedule f _ (hw f hf)) hw
  · exact hset f hf w _ (hQ.enter f _ hlt (hw f hf)) hw
  · exact hset f hf w _ (hQ.leave f _ before (hw f hf)) hw
  · exact hset f hf w _ (hQ.skip f _ (hw f hf)) hw
  · obtain ⟨e, he⟩ := w.exists_summary_finish f.id g.id a
    rw [he]
    exact hQ.error g _ e (hw g hg)

end Plan

/-- Calls leave as many activations under way as they find, and keep `J`. -/
def CallHandler.Restores (h : CallHandler R (Findings R)) (m : Module R)
    (J : Findings R → Prop) : Prop :=
  ∀ c : Call R (Findings R), c.callee ∈ m.functions → J c.world →
    (h.answer c).1.2.underWay = c.world.underWay ∧ J (h.answer c).1.2

namespace Plan

variable {m : Module R} {settings : Settings} {J : Findings R → Prop}
  {h : CallHandler R (Findings R)} {x : Start R} {c : Call R (Findings R)} {depth : ℕ}

omit [Number R] in
@[simp] lemma module_body (m : Module R) (settings : Settings) (f : Function R) :
    ((Plan.of m settings).body f).module = m := by
  rw [body, Plan.of, Array.getElem?_map]
  cases m.functions[f.id.val.toNat]? with
  | none => rfl
  | some f' => rfl

omit [Number R] in
/-- Calls keep the counts as they were at the beginning of an activation. -/
lemma restores_keeps (hh : h.Restores m J) (f : Function R)
    (r : FunctionId → ℕ) :
    ((Plan.of m settings).body f).Keeps h fun w => w.underWay = r ∧ J w := by
  rintro c - hcallee ⟨hr, hJ⟩
  rw [module_body] at hcallee
  obtain ⟨hcount, hJ'⟩ := hh c hcallee hJ
  exact ⟨hcount.trans hr, hJ'⟩

section Keeps

variable (hJ : (Plan.of m settings).Maintains J)

include hJ

/-- At the end of an activation as many activations are under way as at its beginning. -/
lemma outcome_restores (hh : h.Restores m J) (hx : x.function ∈ m.functions)
    (hJx : J x.findings) :
    ((Plan.of m settings).outcome h x).1.world.underWay = x.findings.underWay ∧
      J ((Plan.of m settings).outcome h x).1.world := by
  rw [outcome, run_eq]
  exact Body.runSchedule_keeps (restores_keeps hh x.function x.findings.underWay)
    ⟨underWay_prepared _ _ _, hJ.prepared _ hx _ hJx⟩ _ _

lemma enter_maintains (hcallee : c.callee ∈ m.functions) (hJc : J c.world)
    (hf : (Plan.of m settings).IsFollowed c) : J ((Plan.of m settings).begin c).findings :=
  hJ.enter _ hcallee _ (lt_max_of_lt_right hf) hJc

/-- Taking the outcome of an activation into the findings leaves the counts alone. -/
lemma finished_restores {o : Outcome R (Findings R) Unit} (hcallee : c.callee ∈ m.functions)
    (hJo : J o.world) : (finished c o).underWay = o.world.underWay ∧ J (finished c o) := by
  rw [finished]
  split
  · exact ⟨rfl, hJo⟩
  · exact ⟨Findings.underWay_finish, hJ.finish _ hcallee _ _ hJo⟩

lemma respond_restores (hh : h.Restores m J) (hcallee : c.callee ∈ m.functions)
    (hJc : J c.world) : ((Plan.of m settings).respond h c).1.2.underWay = c.world.underWay ∧
      J ((Plan.of m settings).respond h c).1.2 := by
  rw [respond]
  split
  · next hf =>
    obtain ⟨hcount, hJo⟩ := outcome_restores hJ hh (x := (Plan.of m settings).begin c) hcallee
      (enter_maintains hJ hcallee hJc hf)
    obtain ⟨hcount', hJ'⟩ := finished_restores hJ hcallee hJo
    refine ⟨?_, hJ.leave _ hcallee _ _ hJ'⟩
    funext g
    rw [conclude, Findings.underWay_leave, hcount', hcount, begin, Findings.underWay_enter]
    split
    · next hg => rw [hg]
    · rfl
  · exact ⟨Findings.underWay_skip, hJ.skip _ hcallee _ hJc⟩

/-- **Calls leave as many activations under way as they find**, and keep what the steps of the
analysis keep. -/
theorem follow_restores (depth : ℕ) : ((Plan.of m settings).follow depth).Restores m J := by
  induction depth with
  | zero => exact fun c _ hJc => ⟨rfl, hJc⟩
  | succ depth ih =>
    intro c hcallee hJc
    rw [answer_follow_succ]
    exact respond_restores hJ ih hcallee hJc

end Keeps

end Plan

end Roundoff
