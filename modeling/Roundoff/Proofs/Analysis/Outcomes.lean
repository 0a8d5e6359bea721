/-
# Taking outcomes into the findings

The findings keep the largest error of each instruction, of each label and of what each function has
returned, and for each comparison the smallest tolerance and whether it may flip in any activation.
Taking the outcome of an activation into the findings makes them cover it, and nothing else: what
they keep is a maximum, a minimum or a disjunction over the outcomes that have been taken in, and so
it does not depend on the order in which these come.
-/
import Mathlib
import Roundoff.Proofs.Analysis.Atomicity
import Roundoff.Proofs.Store.Targets

namespace Roundoff

/-! ## Results -/

/-- The verdict that covers several ones: the smallest tolerance, and whether any comparison may
flip. -/
noncomputable def Verdict.worst? (vs : List (Verdict ℝ)) : Option (Verdict ℝ) :=
  (vs.map Verdict.tolerance).min?.map fun tolerance => ⟨tolerance, vs.any Verdict.mayFlip⟩

lemma Verdict.worst?_concat (vs : List (Verdict ℝ)) (v : Verdict ℝ) :
    worst? (vs ++ [v]) = (worst? vs).merge Verdict.merge (some v) := by
  rw [worst?, worst?, List.map_append, List.map_singleton, min?_concat, List.any_append]
  cases h : (vs.map Verdict.tolerance).min? with
  | none =>
    obtain rfl := List.map_eq_nil_iff.1 (List.min?_eq_none_iff.1 h)
    simp
  | some t => simp [Verdict.merge]

lemma Verdict.worst?_filterMap_concat {α : Type} (f : α → Option (Verdict ℝ)) (as : List α)
    (a : α) :
    worst? ((as ++ [a]).filterMap f) = (worst? (as.filterMap f)).merge Verdict.merge (f a) := by
  rw [List.filterMap_append]
  cases h : f a with
  | none => simp [h]
  | some v => rw [List.filterMap_cons_some h, List.filterMap_nil, worst?_concat]

lemma Verdict.worst?_perm {vs ws : List (Verdict ℝ)} (h : vs.Perm ws) : worst? vs = worst? ws := by
  rw [worst?, worst?, min?_perm (h.map _), h.any_eq]

/-- The tables in which an activation keeps its records are sorted. -/
structure Activation.IsSorted (a : Activation ℝ) : Prop where
  /-- The estimates of values. -/
  entries : a.store.entries.IsSorted
  /-- The errors of labels. -/
  targets : a.store.targets.errors.IsSorted
  /-- The verdicts on comparisons. -/
  verdicts : a.verdicts.IsSorted

namespace Results

variable {r : Results ℝ} {a : Activation ℝ} {f g : FunctionId} {id : InstId}

lemma absError_absorbValue (t : Table Key (Estimate ℝ)) (k l : Key) (e : Estimate ℝ) :
    ((absorbValue t k e).get? l).bind Estimate.absError
      = if k = l then ((t.get? l).bind Estimate.absError).merge max e.absError
        else (t.get? l).bind Estimate.absError := by
  have hinsert : ((t.insert k e).get? l).bind Estimate.absError
      = if k = l then e.absError else (t.get? l).bind Estimate.absError := by
    rw [Table.get?_insert]
    split <;> rfl
  rw [absorbValue]
  cases hbound : e.absError with
  | none => rw [Option.merge_none_right, ite_self]
  | some bound =>
    rw [hbound] at hinsert
    dsimp only
    by_cases hk : k = l
    · subst hk
      rw [if_pos rfl] at hinsert ⊢
      cases hold : (t.get? k).bind Estimate.absError with
      | none => exact hinsert
      | some old =>
        rw [merge_max_some, Option.any_some]
        dsimp only
        split
        · next hlt => rw [hinsert, decide_eq_false (not_le.2 hlt), if_neg Bool.false_ne_true]
        · next hlt => rw [hold, decide_eq_true (not_lt.1 hlt), if_pos rfl]
    · rw [if_neg hk] at hinsert ⊢
      split
      · split
        · exact hinsert
        · rfl
      · exact hinsert

/-- The worst error of an instruction is raised by that of the activation that is taken in. -/
lemma errorOf?_absorb (ha : a.IsSorted) (r : Results ℝ) (f g : FunctionId) (id : InstId) :
    (r.absorb f a).errorOf? (.inst g id) = (r.errorOf? (.inst g id)).merge max
      (if f = g then a.store.absError? (.inst g id) else none) := by
  refine ((ha.entries.filterKeys (isInstOf f)).foldl_eq
    (fun t : Table Key (Estimate ℝ) => (t.get? (.inst g id)).bind Estimate.absError)
    (fun old e => old.merge max e.absError)
    (fun t q => absError_absorbValue t q.1 _ q.2) r.values).trans ?_
  rw [Table.get?_filterKeys, isInstOf, errorOf?]
  by_cases hf : f = g
  · rw [if_pos (decide_eq_true hf.symm), if_pos hf, Store.absError?, Store.get?]
    cases a.store.entries.get? (.inst g id) with
    | none => exact Option.merge_none_right.symm
    | some e => rfl
  · rw [if_neg fun h => hf (of_decide_eq_true h).symm, if_neg hf]
    exact Option.merge_none_right.symm

lemma get?_absorbVerdict (t : Table Key (Verdict ℝ)) (k l : Key) (v : Verdict ℝ) :
    (absorbVerdict t k v).get? l
      = if k = l then (t.get? l).merge Verdict.merge (some v) else t.get? l := by
  rw [absorbVerdict]
  by_cases hk : k = l
  · subst hk
    cases t.get? k with
    | none => simp
    | some seen => simp
  · cases t.get? k with
    | none => simp [hk]
    | some seen => simp [hk]

/-- The verdict on a comparison is merged with that of the activation that is taken in. -/
lemma get?_verdicts_absorb (ha : a.IsSorted) (r : Results ℝ) (f g : FunctionId) (id : InstId) :
    (r.absorb f a).verdicts.get? (.inst g id)
      = (r.verdicts.get? (.inst g id)).merge Verdict.merge
        (if f = g then a.verdicts.get? id else none) := by
  by_cases hf : f = g
  · subst hf
    refine (ha.verdicts.foldl_eq (fun t : Table Key (Verdict ℝ) => t.get? (.inst f id))
      (fun old v => old.merge Verdict.merge (some v)) (k := id) (fun t q => ?_)
      r.verdicts).trans ?_
    · simp only [get?_absorbVerdict, Key.inst.injEq, true_and]
    · rw [if_pos rfl]
      cases a.verdicts.get? id with
      | none => exact Option.merge_none_right.symm
      | some v => rfl
  · -- the verdicts of another function are left alone
    rw [if_neg hf, Option.merge_none_right]
    refine List.foldlRecOn (motive := fun t : Table Key (Verdict ℝ) => t.get? (.inst g id)
      = r.verdicts.get? (.inst g id)) _ _ rfl fun t ht q _ => ?_
    rw [get?_absorbVerdict, if_neg fun h => hf (Key.inst.inj h).1, ht]

end Results

/-- The worst error returned is raised by a returned one. -/
lemma Summary.absError_raise (s : Summary ℝ) (e : Estimate ℝ) :
    (s.raise e).2.absError = s.absError.merge max e.absError := by
  rw [raise]
  cases hbound : e.absError with
  | none => exact Option.merge_none_right.symm
  | some bound =>
    dsimp only
    rw [merge_max_some]
    split
    · rfl
    · exact hbound

/-! ## Sequences of outcomes -/

namespace Findings

variable {w w' : Findings ℝ} {ys zs : List (FunctionId × Activation ℝ)} {f : FunctionId}
  {a : Activation ℝ}

/-- What is kept for instructions, comparisons, labels and functions are the worst cases of some
outcomes of activations, each of which comes with the function of the activation. -/
structure IsWorstOf (w : Findings ℝ) (ys : List (FunctionId × Activation ℝ)) : Prop where
  /-- The largest error of an instruction over all activations that have data for it. -/
  errorOf?_eq : ∀ f id, w.results.errorOf? (.inst f id)
    = ((ys.filter fun y => y.1 = f).filterMap fun y => y.2.store.absError? (.inst f id)).max?
  /-- The smallest tolerance of a comparison, and whether it may flip in any activation. -/
  get?_verdicts_eq : ∀ f id, w.results.verdicts.get? (.inst f id)
    = Verdict.worst? ((ys.filter fun y => y.1 = f).filterMap fun y => y.2.verdicts.get? id)
  /-- The largest error of a label. -/
  get?_targets_eq : ∀ label, w.results.targets.errors.get? label
    = (ys.filterMap fun y => y.2.store.targets.errors.get? label).max?
  /-- The largest error recorded for a function at the end of its activations. -/
  absError_eq : ∀ f, (w.summary f).absError
    = ((ys.filter fun y => y.1 = f).filterMap fun y => y.2.store.absError? (.function f)).max?

/-- The bounds kept for instructions, comparisons, labels and functions are the same. -/
structure SameBounds (w w' : Findings ℝ) : Prop where
  /-- The errors of instructions. -/
  errorOf?_eq : ∀ f id, w.results.errorOf? (.inst f id) = w'.results.errorOf? (.inst f id)
  /-- The verdicts on comparisons. -/
  get?_verdicts_eq : ∀ f id,
    w.results.verdicts.get? (.inst f id) = w'.results.verdicts.get? (.inst f id)
  /-- The errors of labels. -/
  get?_targets_eq : ∀ label,
    w.results.targets.errors.get? label = w'.results.targets.errors.get? label
  /-- The errors returned by functions. -/
  absError_eq : ∀ f, (w.summary f).absError = (w'.summary f).absError

namespace IsWorstOf

lemma empty : Findings.empty.IsWorstOf [] :=
  ⟨fun _ _ => rfl, fun _ _ => rfl, fun _ => rfl, fun _ => rfl⟩

lemma congr (h : w.IsWorstOf ys) (hw : w'.Agrees w) : w'.IsWorstOf ys where
  errorOf?_eq f id := by rw [hw.results_eq, h.errorOf?_eq]
  get?_verdicts_eq f id := by rw [hw.results_eq, h.get?_verdicts_eq]
  get?_targets_eq label := by rw [hw.results_eq, h.get?_targets_eq]
  absError_eq f := by rw [Summary.absError, hw.error_eq, ← Summary.absError, h.absError_eq]

/-- The worst cases do not depend on the order of the outcomes. -/
lemma perm (h : w.IsWorstOf ys) (hys : ys.Perm zs) : w.IsWorstOf zs where
  errorOf?_eq f id := (h.errorOf?_eq f id).trans (max?_perm ((hys.filter _).filterMap _))
  get?_verdicts_eq f id :=
    (h.get?_verdicts_eq f id).trans (Verdict.worst?_perm ((hys.filter _).filterMap _))
  get?_targets_eq label := (h.get?_targets_eq label).trans (max?_perm (hys.filterMap _))
  absError_eq f := (h.absError_eq f).trans (max?_perm ((hys.filter _).filterMap _))

/-- The same outcomes have the same worst cases. -/
lemma sameBounds (h : w.IsWorstOf ys) (h' : w'.IsWorstOf ys) : w.SameBounds w' where
  errorOf?_eq f id := (h.errorOf?_eq f id).trans (h'.errorOf?_eq f id).symm
  get?_verdicts_eq f id := (h.get?_verdicts_eq f id).trans (h'.get?_verdicts_eq f id).symm
  get?_targets_eq label := (h.get?_targets_eq label).trans (h'.get?_targets_eq label).symm
  absError_eq f := (h.absError_eq f).trans (h'.absError_eq f).symm

/-- **Taking an outcome into the findings makes them cover it**, and nothing else. -/
theorem finish (h : w.IsWorstOf ys) (ha : a.IsSorted) (f : FunctionId) :
    (w.finish f a).IsWorstOf (ys ++ [(f, a)]) where
  errorOf?_eq g id := by
    rw [results_finish, Results.errorOf?_absorb ha, h.errorOf?_eq, List.filterMap_filter,
      List.filterMap_filter, max?_filterMap_concat]
    simp only [decide_eq_true_eq]
  get?_verdicts_eq g id := by
    rw [results_finish, Results.get?_verdicts_absorb ha, h.get?_verdicts_eq, List.filterMap_filter,
      List.filterMap_filter, Verdict.worst?_filterMap_concat]
    simp only [decide_eq_true_eq]
  get?_targets_eq label := by
    rw [results_finish, max?_filterMap_concat, ← h.get?_targets_eq]
    exact Targets.get?_merge ha.targets _ _
  absError_eq g := by
    rw [summary_finish, List.filterMap_filter, max?_filterMap_concat, ← List.filterMap_filter,
      ← h.absError_eq]
    by_cases hf : f = g
    · subst hf
      rw [if_pos rfl, decide_eq_true rfl, if_pos rfl, Store.absError?]
      cases a.store.get? (.function f) with
      | none => exact Option.merge_none_right.symm
      | some e => exact Summary.absError_raise _ e
    · rw [if_neg hf, decide_eq_false hf, if_neg Bool.false_ne_true, Option.merge_none_right]

/-- Taking in several outcomes makes the findings cover all of them. -/
lemma takeIn (h : w.IsWorstOf ys) (hzs : ∀ z ∈ zs, z.2.IsSorted) :
    (w.takeIn zs).IsWorstOf (ys ++ zs) := by
  induction zs generalizing w ys with
  | nil => rwa [List.append_nil]
  | cons z zs ih =>
    have hfinish := h.finish (hzs z List.mem_cons_self) z.1
    rw [List.append_cons]
    exact ih hfinish fun z' hz' => hzs z' (List.mem_cons_of_mem _ hz')

end IsWorstOf

end Findings

end Roundoff
