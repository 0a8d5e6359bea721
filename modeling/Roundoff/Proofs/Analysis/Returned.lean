/-
# What activations return

An activation begins without an error recorded for its function.  In its course returns raise this
error, and so do its calls of the same function, each by what its activation records at its end, if
it is completed.  So at its end an activation records the largest error among those that its own
returns have returned and those that completed activations of the same function have recorded on top
of it.  All of these are returned in some completed activation of the function, so the error
recorded at the end is the largest one returned in several activations, and no smaller than those
returned in its own.

As long as functions are not handed on as arguments nothing else changes the error recorded for a
function.
-/
import Mathlib
import Roundoff.Proofs.Analysis.Activations
import Roundoff.Proofs.Analysis.Beginnings
import Roundoff.Proofs.Analysis.Completed
import Roundoff.Proofs.Transfer.Returns

namespace Roundoff

/-! ## Records of functions -/

namespace Store

variable {m : Module ℝ} {s s' other : Store ℝ} {caller callee : Function ℝ} {args : List (Value ℝ)}
  {g : FunctionId}

/-- The raised error is the larger one. -/
lemma absError?_raise (s : Store ℝ) (k : Key) (e : Estimate ℝ) :
    (s.raise k e).2.absError? k = (s.absError? k).merge max e.absError := by
  rw [raise]
  cases hbound : e.absError with
  | none => exact Option.merge_none_right.symm
  | some bound =>
    have hlarger : s.hasErrorAtLeast k bound
        = (s.absError? k).any fun old => decide (bound ≤ old) := by
      rw [hasErrorAtLeast, ← absError?]
      cases s.absError? k <;> rfl
    dsimp only
    rw [hlarger, merge_max_some]
    split
    · rfl
    · rw [absError?, get?_set, if_pos rfl]
      exact hbound

/-- A call raises the error recorded for its callee, and that of no other function. -/
lemma absError?_afterCall (hargs : .function g ∉ args) :
    (s.afterCall other m caller callee args).absError? (.function g)
      = (s.absError? (.function g)).merge max
        (if callee.id = g then other.absError? (.function g) else none) := by
  rw [absError?_eq_map, error?_afterCall hargs, ← absError?_eq_map]
  by_cases hg : callee.id = g
  · subst hg
    rw [if_pos rfl, withReturned, absError?.eq_def other]
    cases other.get? (.function callee.id) with
    | none => exact Option.merge_none_right.symm
    | some e => exact absError?_raise _ _ e
  · rw [if_neg hg, Option.merge_none_right]
    refine (s.writes_withReturned other callee).absError?_eq fun hkey => hg ?_
    exact (Key.function.inj hkey).symm

end Store

namespace Plan

variable {m : Module ℝ} {settings : Settings} {x y : Start ℝ} {xs : List (Start ℝ)}
  {c : Call ℝ (Findings ℝ)} {s : Session ℝ} {n : Symbol} {f : FunctionId}

/-- An activation begins without an error recorded for its function. -/
lemma IsStack.absError?_function {p : Plan ℝ} (hx : p.IsStack x xs) :
    x.state.store.absError? (.function x.function.id) = none := by
  have hformal : Key.function x.function.id ∉ Store.formals x.function := nofun
  rw [Store.absError?, hx.get?_eq_none rfl hformal (by simp [Store.belongsTo])]
  rfl

/-! ## Errors at the end of an activation -/

section Errors

variable {R : Type} [Number R]

/-- The visits of an activation. -/
def visitsOf (p : Plan R) (x : Start R) : List (InstVisit R) :=
  let prepared := p.prepared x.function x.findings
  (p.body x.function).visitsOf p.calls.logged x.state (prepared.2, []) x.supply prepared.1

/-- The errors that the visits of an activation return. -/
def returnsOf (p : Plan R) (x : Start R) : List R :=
  (p.visitsOf x).filterMap (p.body x.function).returns?

/-- What a call contributes to the error recorded for the function `f`: what its activation records
at its end, if it is one of this function and is completed. -/
def contributes? (p : Plan R) (f : FunctionId) (c : Call R (Findings R)) : Option R :=
  if p.IsFollowed c ∧ p.isCompleted (p.begin c) = true ∧ c.callee.id = f then
    (p.outcome p.calls (p.begin c)).1.state.store.absError? (.function f)
  else none

end Errors

lemma absError?_answer (hm : m.validate = .ok ()) (hx : (Plan.of m settings).IsStack x xs)
    (hc : c ∈ (Plan.of m settings).callsOf x) (hargs : .function f ∉ c.args) :
    ((Plan.of m settings).calls.answer c).1.1.absError? (.function f)
      = (c.store.absError? (.function f)).merge max ((Plan.of m settings).contributes? f c) := by
  rw [hx.answer_eq hm hc, respond, contributes?]
  by_cases hf : (Plan.of m settings).IsFollowed c
  · rw [if_pos hf, conclude, merged, isCompleted]
    dsimp only
    cases ((Plan.of m settings).outcome (Plan.of m settings).calls
        ((Plan.of m settings).begin c)).1.answer with
    | error fault =>
      rw [if_neg fun h => Bool.noConfusion h.2.1]
      exact Option.merge_none_right.symm
    | ok _ =>
      refine (Store.absError?_afterCall hargs).trans (congrArg _ ?_)
      by_cases hcallee : c.callee.id = f
      · rw [if_pos hcallee, if_pos ⟨hf, rfl, hcallee⟩]
        rfl
      · rw [if_neg hcallee, if_neg fun h => hcallee h.2.2]
  · rw [if_neg hf, if_neg fun h => hf h.1]
    exact Option.merge_none_right.symm

/-- **The error recorded at the end of an activation** is the largest among those that it has
returned and those that its calls of the same function have recorded. -/
theorem IsStack.absError?_outcome (hm : m.validate = .ok ())
    (hx : (Plan.of m settings).IsStack x xs) (hspares : m.Spares x.function.id) :
    ((Plan.of m settings).outcome (Plan.of m settings).calls x).1.state.store.absError?
        (.function x.function.id)
      = ((Plan.of m settings).returnsOf x).max?.merge max
        (((Plan.of m settings).callsOf x).filterMap
          ((Plan.of m settings).contributes? x.function.id)).max? := by
  have hmem := (hx.schedule_eq hm).1
  have hbody : (Plan.of m settings).body x.function = Body.of m settings x.function :=
    body_eq_of_validate hm hmem
  have hplace : ∀ i ∈ x.function.insts, x.function.inst? i.id = some i :=
    fun i hi => inst?_id_of_validate hm hmem hi
  have hcalls : (Body.of m settings x.function).CallsWith fun args =>
    .function x.function.id ∉ args := hspares x.function hmem
  have hpinned : x.state.pinned = ∅ := by cases hx <;> rfl
  have hanswer : ∀ c ∈ (Plan.of m settings).callsOf x, .function x.function.id ∉ c.args → _ :=
    fun c hc hargs => absError?_answer hm hx hc hargs
  rw [callsOf, hbody] at hanswer
  rw [outcome, run_eq, returnsOf, visitsOf, callsOf, hbody]
  exact Body.absError?_runSchedule hplace hcalls hpinned hx.absError?_function _ _ hanswer

/-- The error recorded at the end of an activation is at least those that it has returned. -/
lemma IsStack.exists_le_absError? (hm : m.validate = .ok ())
    (hx : (Plan.of m settings).IsStack x xs) (hspares : m.Spares x.function.id) {e : ℝ}
    (he : e ∈ (Plan.of m settings).returnsOf x) :
    ∃ e', ((Plan.of m settings).outcome (Plan.of m settings).calls x).1.state.store.absError?
      (.function x.function.id) = some e' ∧ e ≤ e' := by
  obtain ⟨e', he', hle⟩ := exists_le_max? he
  rw [hx.absError?_outcome hm hspares, he']
  exact exists_le_merge_max hle _

/-- The error recorded at the end of an activation is returned in it, or in a completed activation
of the same function on top of it. -/
lemma IsStack.exists_returned (hm : m.validate = .ok ())
    (hx : (Plan.of m settings).IsStack x xs) (hspares : m.Spares x.function.id) {e : ℝ}
    (he : ((Plan.of m settings).outcome (Plan.of m settings).calls x).1.state.store.absError?
      (.function x.function.id) = some e) :
    ∃ y, (y = x ∨ y ∈ activationsWithin m settings x) ∧ y.function.id = x.function.id ∧
      e ∈ (Plan.of m settings).returnsOf y := by
  induction x using activationsWithin.induct m settings generalizing xs with
  | case1 x ih =>
    rw [hx.absError?_outcome hm hspares] at he
    rcases eq_some_or_of_merge_max he with he | he
    · exact ⟨x, .inl rfl, rfl, (List.max?_eq_some_iff.1 he).1⟩
    · obtain ⟨c, hc, hcontributes⟩ := List.mem_filterMap.1 (List.max?_eq_some_iff.1 he).1
      rw [contributes?] at hcontributes
      split at hcontributes
      · next hcall =>
        obtain ⟨hf, hcompleted, hcallee⟩ := hcall
        rw [← hcallee] at hspares hcontributes ⊢
        obtain ⟨y, hy, hfunction, hey⟩ := ih ⟨c, hc⟩ hf (hx.call hc hf) hspares hcontributes
        refine ⟨y, .inr (mem_activationsWithin.2 ⟨c, hc, hf, ?_⟩), hfunction, hey⟩
        exact hy.symm.imp id fun hy => ⟨hcompleted, hy⟩
      · cases hcontributes

/-- **The errors recorded at the ends of completed activations** have the largest error as their
maximum that is returned in any of them. -/
theorem Completes.max?_absError? (hm : m.validate = .ok ()) {zs : List (Start ℝ)}
    (h : Completes m settings s n zs) (hspares : m.Spares f) :
    ((zs.filter fun x => x.function.id = f).filterMap fun x =>
        ((Plan.of m settings).outcome (Plan.of m settings).calls x).1.state.store.absError?
          (.function f)).max?
      = ((zs.filter fun x => x.function.id = f).flatMap (Plan.of m settings).returnsOf).max? := by
  refine max?_eq_of_bounds (fun e he => ?_) fun e he => ?_
  · obtain ⟨x, hfiltered, hex⟩ := List.mem_filterMap.1 he
    obtain ⟨hx, hfunction⟩ := List.mem_filter.1 hfiltered
    obtain rfl := of_decide_eq_true hfunction
    obtain ⟨-, xs, hstack⟩ := h.isStack hx
    obtain ⟨y, hy, hy', hey⟩ := hstack.exists_returned hm hspares hex
    refine List.mem_flatMap.2 ⟨y, List.mem_filter.2 ⟨?_, decide_eq_true hy'⟩, hey⟩
    rcases hy with rfl | hy
    · exact hx
    · exact h.subset hx y hy
  · obtain ⟨x, hfiltered, hex⟩ := List.mem_flatMap.1 he
    obtain ⟨hx, hfunction⟩ := List.mem_filter.1 hfiltered
    obtain rfl := of_decide_eq_true hfunction
    obtain ⟨-, xs, hstack⟩ := h.isStack hx
    obtain ⟨e', he', hle⟩ := hstack.exists_le_absError? hm hspares hex
    exact ⟨e', List.mem_filterMap.2 ⟨x, hfiltered, he'⟩, hle⟩

end Plan

end Roundoff
