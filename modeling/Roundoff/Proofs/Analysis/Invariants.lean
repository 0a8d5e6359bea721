/-
# Invariants of the analysis

What holds of the stores of activations, and of the findings, holds whenever an activation begins,
at every moment of its run, and between the analyses of functions, if it is kept by the steps of
transfer rules, by beginning the activation for a call, by merging its outcome into the store of the
caller and into the findings, and by the same for a function from which the analysis starts.

The stores of activations that wait for others are left alone in the meantime.
-/
import Mathlib
import Roundoff.Proofs.Analysis.Atomicity
import Roundoff.Proofs.Transfer.Moments

namespace Roundoff

variable {S : Store ℝ → Symbol → Prop} {W : Findings ℝ → Symbol → Prop}

/-- What holds of stores, and of the findings, is kept by the answers to calls. -/
structure CallHandler.Preserves (h : CallHandler ℝ (Findings ℝ)) (S : Store ℝ → Symbol → Prop)
    (W : Findings ℝ → Symbol → Prop) : Prop where
  /-- Returned errors are those of the findings. -/
  returned_eq : h.returned? = Findings.returned?
  /-- A call is answered. -/
  answer : ∀ c : Call ℝ (Findings ℝ), S c.store c.supply → W c.world c.supply →
    c.supply ≤ (h.answer c).2 ∧ S (h.answer c).1.1 (h.answer c).2 ∧
      W (h.answer c).1.2 (h.answer c).2

/-- What is wanted of stores and of the findings holds when an activation begins. -/
structure Start.Holds (S : Store ℝ → Symbol → Prop) (W : Findings ℝ → Symbol → Prop)
    (x : Start ℝ) : Prop where
  /-- The store is as wanted. -/
  store : S x.state.store x.supply
  /-- The findings are as wanted. -/
  findings : W x.findings x.supply

namespace Plan

variable {p : Plan ℝ} {h : CallHandler ℝ (Findings ℝ)} {x : Start ℝ} {xs : List (Start ℝ)}
  {c : Call ℝ (Findings ℝ)} {s : Session ℝ} {f : Function ℝ} {n : Symbol} {depth : ℕ}

/-! ## Calls -/

/-- What holds of stores, and of the findings, is kept by the analysis of calls. -/
structure Preserves (p : Plan ℝ) (S : Store ℝ → Symbol → Prop) (W : Findings ℝ → Symbol → Prop) :
    Prop where
  /-- Rules make steps. -/
  step : ∀ f s n s' n', Store.Step f s n s' n' → S s n → S s' n'
  /-- The error that a function has returned is recorded for a call of it. -/
  returned : ∀ f s w n id e k, Store.belongsTo f k = true → Findings.returned? w id = some e →
    S s n → W w n → S (s.setError k e) n
  /-- An activation for a call begins. -/
  atCall : ∀ caller callee args s n, S s n →
    Fresh.Attains n (s.atCall p.module caller callee args) S
  /-- Its outcome is merged. -/
  afterCall : ∀ caller callee args s n other n', n ≤ n' → S s n → S other n' →
    S (s.afterCall other p.module caller callee args) n'
  /-- Symbols are taken from the supply. -/
  later : ∀ w n n', n ≤ n' → W w n → W w n'
  /-- Nothing depends on what else summaries keep. -/
  agrees : ∀ w w' n, w'.Agrees w → W w n → W w' n
  /-- The outcome of an activation is taken into the findings. -/
  finish : ∀ f a w n, S a.store n → W w n → W (w.finish f a) n

/-- The moment from which an activation runs through its schedule. -/
def firstMoment (p : Plan ℝ) (x : Start ℝ) : Moment ℝ (Findings ℝ) :=
  ⟨x.state, (p.prepared x.function x.findings).2, x.supply⟩

/-- The moments that an activation may pass through. -/
def Passes (p : Plan ℝ) (x : Start ℝ) (y : Moment ℝ (Findings ℝ)) : Prop :=
  (p.body x.function).Passes p.calls (p.firstMoment x) y

lemma passes_outcome (p : Plan ℝ) (x : Start ℝ) : p.Passes x (.after (p.outcome p.calls x)) := by
  rw [outcome, run_eq]
  exact Body.Passes.start.runSchedule _

namespace Preserves

variable (hp : p.Preserves S W)

include hp

/-- A store that is left alone stays as wanted while symbols are taken from the supply. -/
lemma rests {s : Store ℝ} {n' : Symbol} (hn : n ≤ n') (hs : S s n) : S s n' :=
  hp.step ⟨0⟩ s n s n' (.later _ _ hn) hs

lemma body (hh : h.Preserves S W) (f : Function ℝ) : (p.body f).Preserves h S W where
  step := hp.step _
  later := hp.later
  returned s w n id e k hk he := hp.returned _ s w n id e k hk (hh.returned_eq ▸ he)
  answer := hh.answer

lemma world_firstMoment (hx : x.Holds S W) : W (p.firstMoment x).world x.supply :=
  hp.agrees _ _ _ (agrees_prepared _ _ _) hx.findings

lemma outcome (hh : h.Preserves S W) (hx : x.Holds S W) :
    (p.firstMoment x).Holds S W (.after (p.outcome h x)) := by
  rw [Plan.outcome, run_eq]
  exact (hp.body hh x.function).runSchedule hx.store (hp.world_firstMoment hx) _

/-- What is kept holds when the activation for a call begins. -/
lemma begin (hs : S c.store c.supply) (hw : W c.world c.supply) :
    c.supply ≤ (p.begin c).supply ∧ (p.begin c).Holds S W := by
  obtain ⟨le, hstart⟩ := hp.atCall c.caller c.callee c.args c.store c.supply hs
  exact ⟨le, hstart, hp.agrees _ _ _ (Findings.agrees_enter _ _) (hp.later _ _ _ le hw)⟩

/-- The end of an activation for a call keeps the same of the store of the caller. -/
lemma conclude {r : Outcome ℝ (Findings ℝ) Unit × Symbol} (le : c.supply ≤ r.2)
    (hs : S c.store c.supply) (hstore : S r.1.state.store r.2) (hworld : W r.1.world r.2) :
    S (p.conclude c r).1.1 r.2 ∧ W (p.conclude c r).1.2 r.2 := by
  have hreleased : S (released c r.1.state).store r.2 := by
    refine hp.step c.callee.id _ _ _ _ (.objects le_rfl fun hwf => ?_) hstore
    exact hwf.objects
  have hleave {w : Findings ℝ} (hw : W w r.2) :
      W (w.leave c.callee.id (c.world.underWay c.callee.id)) r.2 :=
    hp.agrees _ _ _ (Findings.agrees_leave _ _ _) hw
  rw [Plan.conclude, merged, finished]
  cases r.1.answer with
  | error fault => exact ⟨hp.rests le hs, hleave hworld⟩
  | ok _ =>
    exact ⟨hp.afterCall _ _ _ _ _ _ _ le hs hreleased, hleave (hp.finish _ _ _ _ hreleased hworld)⟩

lemma respond (hh : h.Preserves S W) (hs : S c.store c.supply) (hw : W c.world c.supply) :
    c.supply ≤ (p.respond h c).2 ∧ S (p.respond h c).1.1 (p.respond h c).2 ∧
      W (p.respond h c).1.2 (p.respond h c).2 := by
  rw [Plan.respond]
  split
  · obtain ⟨le, hbegin⟩ := hp.begin hs hw
    have hend := hp.outcome hh hbegin
    exact ⟨le.trans hend.le, hp.conclude (le.trans hend.le) hs hend.store hend.world⟩
  · exact ⟨le_rfl, hs, hp.agrees _ _ _ (Findings.agrees_skip _ _) hw⟩

/-- **The answers to calls keep what the analysis of calls keeps.** -/
theorem follow (depth : ℕ) : (p.follow depth).Preserves S W := by
  -- the calls of an activation are followed to a smaller depth
  induction depth with
  | zero => exact ⟨rfl, fun c hs hw => ⟨le_rfl, hs, hw⟩⟩
  | succ depth ih =>
    refine ⟨rfl, fun c hs hw => ?_⟩
    rw [answer_follow_succ]
    exact hp.respond ih hs hw

/-- What is kept holds at every moment of an activation. -/
lemma passes (hx : x.Holds S W) {y : Moment ℝ (Findings ℝ)} (hy : p.Passes x y) :
    (p.firstMoment x).Holds S W y :=
  Body.Passes.holds (hp.body (hp.follow p.depth) x.function) hy hx.store (hp.world_firstMoment hx)

/-- What is kept holds whenever a call comes up. -/
lemma call_holds (hx : x.Holds S W) (hc : c ∈ p.callsOf x) : c.Holds S W x.supply :=
  (hp.body (hp.follow p.depth) x.function).call_holds hx.store (hp.world_firstMoment hx) hc

end Preserves

/-! ## Sessions -/

/-- What holds of stores, and of the findings, is kept by the analysis of a module. -/
structure PreservesSessions (p : Plan ℝ) (S : Store ℝ → Symbol → Prop)
    (W : Findings ℝ → Symbol → Prop) : Prop extends p.Preserves S W where
  /-- Global variables are set up. -/
  globals : ∀ n, Fresh.Attains n ((Store.forModule p.module).seedGlobals p.module) S
  /-- Nothing has been found. -/
  empty : ∀ n, W Findings.empty n
  /-- The activation of a function begins from which the analysis starts. -/
  entry : ∀ f s n, S s n → Fresh.Attains n (s.seedArguments p.module f) S
  /-- Its outcome is merged. -/
  merge : ∀ s n other n', n ≤ n' → S s n → S other n' →
    S ((s.mergeGlobals other).mergeTargets other) n'

/-- A store that waits for an activation: that of a caller, or what is known of global variables. -/
inductive Suspends (p : Plan ℝ) : Start ℝ → List (Start ℝ) → Store ℝ → Prop
  /-- A function is analysed from which the analysis starts. -/
  | entry {s : Session ℝ} {n : Symbol} {id : FunctionId} {f : Function ℝ} (hs : p.Between s n)
    (hf : p.module.function? id = some f) (hbody : f.isDeclaration = false) :
    Suspends p (p.beginEntry s f n) [] s.globals
  /-- A call is followed, and its caller waits. -/
  | caller {x : Start ℝ} {xs : List (Start ℝ)} {c : Call ℝ (Findings ℝ)} (hx : p.IsStack x xs)
    (hc : c ∈ p.callsOf x) (hfollowed : p.IsFollowed c) : Suspends p (p.begin c) (x :: xs) c.store
  /-- What waits for the caller waits for the call. -/
  | deeper {x : Start ℝ} {xs : List (Start ℝ)} {c : Call ℝ (Findings ℝ)} {s : Store ℝ}
    (hx : Suspends p x xs s) (hc : c ∈ p.callsOf x) (hfollowed : p.IsFollowed c) :
    Suspends p (p.begin c) (x :: xs) s

lemma Suspends.isStack {s : Store ℝ} (h : p.Suspends x xs s) : p.IsStack x xs := by
  induction h with
  | entry hs hf hbody => exact .entry hs hf hbody
  | caller hx hc hfollowed => exact hx.call hc hfollowed
  | deeper _ hc hfollowed ih => exact ih.call hc hfollowed

namespace PreservesSessions

variable (hp : p.PreservesSessions S W)

include hp

/-- What is kept holds when the activation begins of a function from which the analysis starts. -/
lemma beginEntry (f : Function ℝ) (hs : S s.globals n) (hw : W s.findings n) :
    n ≤ (p.beginEntry s f n).supply ∧ (p.beginEntry s f n).Holds S W := by
  obtain ⟨le, hstart⟩ := hp.entry f s.globals n hs
  exact ⟨le, hstart, hp.agrees _ _ _ (Findings.agrees_enter _ _) (hp.later _ _ _ le hw)⟩

lemma analyseFunction (f : Function ℝ) (hs : S s.globals n) (hw : W s.findings n) :
    S (p.analyseFunction s f n).1.2.globals (p.analyseFunction s f n).2 ∧
      W (p.analyseFunction s f n).1.2.findings (p.analyseFunction s f n).2 := by
  obtain ⟨le, hbegin⟩ := hp.beginEntry f hs hw
  have hend : (p.firstMoment (p.beginEntry s f n)).Holds S W
      (.after (p.outcome p.calls (p.beginEntry s f n))) :=
    hp.outcome (hp.follow p.depth) hbegin
  rw [analyseFunction_eq]
  generalize p.outcome p.calls (p.beginEntry s f n) = r at hend
  obtain ⟨⟨answer, a, w⟩, n'⟩ := r
  have le : n ≤ n' := le.trans hend.le
  have hleave : W (w.leave f.id (s.findings.underWay f.id)) n' :=
    hp.agrees _ _ _ (Findings.agrees_leave _ _ _) hend.world
  cases answer with
  | error fault => exact ⟨hp.rests le hs, hleave⟩
  | ok _ => exact ⟨hp.merge _ _ _ _ le hs hend.store, hp.finish _ _ _ _ hend.store hleave⟩

/-- **What is kept holds between the analyses of functions.** -/
theorem between (hs : p.Between s n) : S s.globals n ∧ W s.findings n := by
  induction hs with
  | start n => exact ⟨(hp.globals n).2, hp.empty _⟩
  | @next s n _ id ih =>
    rw [analyse]
    cases p.module.function? id with
    | none => exact ih
    | some f =>
      dsimp only
      split
      · exact ih
      · exact hp.analyseFunction f ih.1 ih.2

/-- **What is kept holds whenever an activation begins.** -/
theorem isStack (hx : p.IsStack x xs) : x.Holds S W := by
  induction hx with
  | entry hs _ _ =>
    obtain ⟨hglobals, hfindings⟩ := hp.between hs
    exact (hp.beginEntry _ hglobals hfindings).2
  | call _ hc _ ih =>
    have hcall := hp.call_holds ih hc
    exact (hp.begin hcall.store hcall.world).2

/-- What holds of a store that waits for an activation goes on to hold while symbols are taken from
the supply. -/
theorem suspends {s : Store ℝ} (h : p.Suspends x xs s) : S s x.supply := by
  induction h with
  | @entry s n id f hs _ _ =>
    obtain ⟨hglobals, hfindings⟩ := hp.between hs
    exact hp.rests (hp.beginEntry f hglobals hfindings).1 hglobals
  | caller hx hc _ =>
    have hcall := hp.call_holds (hp.isStack hx) hc
    exact hp.rests (hp.begin hcall.store hcall.world).1 hcall.store
  | deeper hx hc _ ih =>
    have hcall := hp.call_holds (hp.isStack hx.isStack) hc
    exact hp.rests (hcall.le.trans (hp.begin hcall.store hcall.world).1) ih

end PreservesSessions

end Plan

end Roundoff
