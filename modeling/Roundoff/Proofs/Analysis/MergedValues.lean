/-
# Merged values

Selections, phis and loads merge values: the result is one of several, and it is not tracked which
one.  So the error that is recorded for the result is at least that of each source with error data,
and where a phi has no range of its own, its range contains the ranges of all sources.  If there are
different sources, then the result has a noise symbol of its own, which is drawn when all sources
have been read, so it shares no symbol with any of them.

A visit merges nothing if the error of the result is settled or given by an annotation.
-/
import Mathlib
import Roundoff.Proofs.Analysis.WellFormed
import Roundoff.Proofs.Loop.Rules
import Roundoff.Proofs.Range.Hull
import Roundoff.Proofs.Transfer.Products

namespace Roundoff

/-- Whether the result of an operation is one of several values. -/
def Operation.isMerge {R : Type} : Operation R → Bool
  | .select .. | .phi _ | .load _ => true
  | _ => false

namespace Body

variable {σ : Type} {b : Body ℝ} {h : CallHandler ℝ σ} {a a' : Activation ℝ} {w : σ} {n : Symbol}
  {i : Instruction ℝ} {edges : PhiEdges} {s : Store ℝ} {e : Estimate ℝ}

/-! ## Sources -/

/-- The values among them that have data, with ranges and errors as a visit reads them. -/
noncomputable def readEstimates (b : Body ℝ) (s : Store ℝ) (i : Instruction ℝ)
    (vs : List (Value ℝ)) (n : Symbol) : List (Estimate ℝ) :=
  (b.operandsWithData s ((b.resultRange? s i).map Range.format) vs n).1.map Operand.toEstimate

/-- What a load finds over the memory states, and in the field that it addresses. -/
noncomputable def loadCandidates (b : Body ℝ) (s : Store ℝ) (load : InstId) (ptr : Value ℝ) :
    List (Estimate ℝ) :=
  b.memory.sources b.function s.get? load ++ (s.objects.getField? b.module b.function ptr).toList

/-- The sources with error data of what a visit merges: both values of a selection, the values that
a phi reads on this visit, or what a load may read. -/
noncomputable def mergedSources (b : Body ℝ) (v : InstVisit ℝ) : List (Estimate ℝ) :=
  let s := b.annotatedStore v.state.store v.inst
  match v.inst.op with
  | .select _ ifTrue ifFalse => b.readEstimates s v.inst [ifTrue, ifFalse] v.supply
  | .phi incoming => b.readEstimates s v.inst (b.visible v.inst v.edges incoming) v.supply
  | .load ptr => (b.loadCandidates s v.inst.id ptr).filter Estimate.hasError
  | _ => []

/-- The sources of a load are the distinct ones among the candidates with error data. -/
lemma mem_loadSources_iff {load : InstId} {ptr : Value ℝ} :
    e ∈ b.loadSources s load ptr ↔ e ∈ (b.loadCandidates s load ptr).filter Estimate.hasError := by
  rw [loadSources, loadCandidates, List.filter_append, List.mem_append]
  have hfield (o : Option (Estimate ℝ)) :
      e ∈ o.toList.filter Estimate.hasError ↔ o.filter Estimate.hasError = some e := by
    rw [List.mem_filter, Option.mem_toList, Option.filter_eq_some_iff]
  rw [hfield]
  generalize (b.memory.sources b.function s.get? load).filter Estimate.hasError = found
  cases (s.objects.getField? b.module b.function ptr).filter Estimate.hasError with
  | none => simp
  | some field =>
    dsimp only
    split
    · next hmem =>
      have hmem := List.contains_iff_mem.1 hmem
      refine ⟨Or.inl, fun h => h.elim id fun heq => ?_⟩
      obtain rfl := Option.some.inj heq
      exact hmem
    · rw [List.mem_append, List.mem_singleton, Option.some_inj, eq_comm]

/-! ## Merged errors -/

/-- An error is that of the only estimate, or noise of the size of the largest error, over a symbol
that is no older than `n`. -/
structure IsMergeOf (n : Symbol) (es : List (Estimate ℝ)) (g : Affine ℝ) : Prop where
  /-- The error is at least that of each estimate. -/
  covers : ∀ e ∈ es, ∀ x, e.absError = some x → x ≤ g.noiseBound
  /-- If there are different estimates, then the symbol is a new one. -/
  isDrawnFrom : ∀ e₁ ∈ es, ∀ e₂ ∈ es, e₁ ≠ e₂ → g.IsDrawnFrom n

namespace IsMergeOf

variable {es : List (Estimate ℝ)} {g : Affine ℝ}

lemma single (he : e.error = some g) (hes : ∀ e' ∈ es, e' = e) : IsMergeOf n es g where
  covers e' he' x hx := by
    rw [hes e' he', Estimate.absError, he] at hx
    exact (Option.some.inj hx).ge
  isDrawnFrom e₁ h₁ e₂ h₂ hne := absurd ((hes e₁ h₁).trans (hes e₂ h₂).symm) hne

lemma withError {x : ℝ} (hes : ∀ e ∈ es, ∀ y, e.absError = some y → y ≤ x) :
    IsMergeOf n es (Affine.withError 0 x n).1 where
  covers e he y hy := by
    rw [Affine.noiseBound_withError]
    exact (hes e he y hy).trans (le_abs_self x)
  isDrawnFrom _ _ _ _ _ := (Affine.withError_isDrawnFrom 0 x n).2

end IsMergeOf

/-- The error recorded for the result is a merge of estimates that have been read when the next
symbol in supply is `m`. -/
structure RecordsMerge (b : Body ℝ) (i : Instruction ℝ) (s : Store ℝ) (n : Symbol)
    (es : List (Estimate ℝ)) (m : Symbol) (a' : Activation ℝ) : Prop where
  /-- The symbols of the estimates have been drawn by then. -/
  isWellFormed : s.IsWellFormed n → ∀ e ∈ es, e.IsWellFormed m
  /-- The error is a merge. -/
  error? : ∃ g, a'.store.error? (b.key i) = some g ∧ IsMergeOf m es g

/-! ## What is recorded -/

/-- What the analysis knows of the result of a merge. -/
structure Merges (b : Body ℝ) (v : InstVisit ℝ) (a' : Activation ℝ) : Prop where
  /-- The error of the result is at least that of each source. -/
  covers : ∀ e ∈ b.mergedSources v, ∀ x, e.absError = some x →
    ∃ y, a'.store.absError? (b.key v.inst) = some y ∧ x ≤ y
  /-- Where a phi has no range of its own, its range contains those of all sources. -/
  contains : v.inst.isPhi = true →
    (b.resultRange? (b.annotatedStore v.state.store v.inst) v.inst).all Range.isUnknown = true →
    ∀ e ∈ b.mergedSources v, ∃ r, a'.store.range? (b.key v.inst) = some r ∧ r.Contains e.range

/-- If there are different sources, then the result shares no noise symbol with any of them. -/
def KeepsApart (b : Body ℝ) (v : InstVisit ℝ) (a' : Activation ℝ) : Prop :=
  ∀ e₁ ∈ b.mergedSources v, ∀ e₂ ∈ b.mergedSources v, e₁ ≠ e₂ →
    ∀ g, a'.store.error? (b.key v.inst) = some g → ∀ e ∈ b.mergedSources v, ∀ f, e.error = some f →
      ∀ t ∈ g.terms, ∀ u ∈ f.terms, t.1 ≠ u.1

/-! ## Rules -/

/-- Two computations with data have been run one after the other. -/
lemma exists_of_both {α β : Type} {x : Attempt α} {y : Attempt β} {p : α × β} {m : Symbol}
    (h : (Attempt.both x y).run n = (some p, m)) :
    ∃ n', x.run n = (some p.1, n') ∧ y.run n' = (some p.2, m) := by
  have hboth : (Attempt.both x y).run n = (do
      let first ← x.run
      let second ← y.run
      return first.bind fun a => second.map fun b => (a, b) : Fresh (Option (α × β))) n := rfl
  rw [hboth, Fresh.bind_apply, Fresh.bind_apply] at h
  generalize hx : x.run n = r at h
  obtain ⟨_ | a, n'⟩ := r
  · cases h
  · generalize hy : y.run n' = r at h
    obtain ⟨_ | b, n''⟩ := r
    · cases h
    · cases h
      exact ⟨n', rfl, hy⟩

/-- A selection records noise of the size of the larger error. -/
lemma exists_select_run {ifTrue ifFalse : Value ℝ}
    (hrun : ((b.select a i ifTrue ifFalse).run n).1 = some a') :
    ∃ x y m, b.operandsWithData a.store ((b.resultRange? a.store i).map Range.format)
        [ifTrue, ifFalse] n = ([x, y], m) ∧
      a' = b.write a i (Affine.withError 0 (max x.absError y.absError) m).1 := by
  rw [select, OptionT.run_bind, Option.elimM, Fresh.bind_apply] at hrun
  generalize hreads : (Attempt.both _ _).run n = r at hrun
  obtain ⟨_ | ⟨x, y⟩, m⟩ := r
  · cases hrun
  obtain ⟨n', hx, hy⟩ := exists_of_both hreads
  refine ⟨x, y, m, ?_, ?_⟩
  · rw [operandsWithData, Fresh.bind_apply, hx]
    dsimp only
    rw [Fresh.bind_apply, operandsWithData, Fresh.bind_apply, hy]
    rfl
  · rw [← Number.max_real]
    exact (Option.some.inj hrun).symm

/-- A phi records noise of the size of the largest error. -/
lemma exists_of_phi_run {incoming : List (Value ℝ × BlockId)}
    (hrun : ((b.phi a i edges incoming).run n).1 = some a') :
    ∃ os m x, b.operandsWithData a.store ((b.resultRange? a.store i).map Range.format)
        (b.visible i edges incoming) n = (os, m) ∧ maxAbsError? os = some x ∧
      a' = b.writeEstimate a i
        ⟨(((b.resultRange? a.store i).filter fun r => !r.isUnknown).or (hull? os)).getD
          Range.unknown, some (Affine.withError 0 x m).1⟩ := by
  have hlift (m : Fresh (List (Operand ℝ))) :
      (liftM m : Attempt (List (Operand ℝ))).run n = (some (m n).1, (m n).2) := rfl
  rw [phi, OptionT.run_bind, Option.elimM, Fresh.bind_apply, hlift] at hrun
  dsimp only [Option.elim] at hrun
  rw [visible]
  generalize b.operandsWithData _ _ _ n = r at hrun ⊢
  obtain ⟨os, m⟩ := r
  cases hx : maxAbsError? os with
  | none =>
    simp only [hx] at hrun
    cases hrun
  | some x =>
    simp only [hx] at hrun
    exact ⟨os, m, x, rfl, hx, (Option.some.inj hrun).symm⟩

/-- The estimate of a loaded value is that of the only source, or has noise of the size of the
largest error. -/
lemma loadedEstimate_run {own : Option (Range ℝ)} {es : List (Estimate ℝ)} {r : Estimate ℝ}
    (hrun : ((loadedEstimate own es).run n).1 = some r) :
    (∃ e, es = [e] ∧ r.error = e.error) ∨
    ∃ x, (es ≠ [] → x = (es.filterMap Estimate.absError).foldl Number.max 0) ∧
      r.error = some (Affine.withError 0 x n).1 := by
  match es, own with
  | [e], _ =>
    cases hrun
    exact .inl ⟨e, rfl, rfl⟩
  | [], none | _ :: _ :: _, none => cases hrun
  | [], some range =>
    cases hrun
    exact .inr ⟨_, fun h => absurd rfl h, rfl⟩
  | _ :: _ :: _, some range =>
    cases hrun
    exact .inr ⟨_, fun _ => rfl, rfl⟩

/-- The operands that have been read are well formed when they have been read. -/
lemma isWellFormed_readEstimates {vs : List (Value ℝ)} {os : List (Operand ℝ)} {m : Symbol}
    (hreads : b.operandsWithData s ((b.resultRange? s i).map Range.format) vs n = (os, m))
    (hs : s.IsWellFormed n) : ∀ e ∈ b.readEstimates s i vs n, e.IsWellFormed m := by
  have hos := (attains_operandsWithData (b := b) s ((b.resultRange? s i).map Range.format) vs n).2
  rw [hreads] at hos
  rw [readEstimates, hreads]
  intro e he
  obtain ⟨o, ho, rfl⟩ := List.mem_map.1 he
  exact hos hs o ho

lemma exists_recordsMerge_select {ifTrue ifFalse : Value ℝ}
    (hrun : ((b.select a i ifTrue ifFalse).run n).1 = some a') :
    ∃ m, b.RecordsMerge i a.store n (b.readEstimates a.store i [ifTrue, ifFalse] n) m a' := by
  obtain ⟨x, y, m, hreads, rfl⟩ := exists_select_run hrun
  refine ⟨m, isWellFormed_readEstimates hreads, _,
    (Store.error?_setError _ _ _ _).trans (if_pos rfl), .withError fun e he z hz => ?_⟩
  rw [readEstimates, hreads] at he
  rcases List.mem_pair.1 he with rfl | rfl
  · exact Option.some.inj hz ▸ le_max_left _ _
  · exact Option.some.inj hz ▸ le_max_right _ _

lemma exists_recordsMerge_phi {incoming : List (Value ℝ × BlockId)}
    (hrun : ((b.phi a i edges incoming).run n).1 = some a') :
    ∃ m, b.RecordsMerge i a.store n
      (b.readEstimates a.store i (b.visible i edges incoming) n) m a' := by
  obtain ⟨os, m, x, hreads, hx, rfl⟩ := exists_of_phi_run hrun
  refine ⟨m, isWellFormed_readEstimates hreads, _,
    (Store.error?_set _ _ _ _).trans (if_pos rfl), .withError fun e he z hz => ?_⟩
  rw [readEstimates, hreads] at he
  obtain ⟨o, ho, rfl⟩ := List.mem_map.1 he
  obtain ⟨x', hx', hle⟩ := exists_maxAbsError? ho
  obtain rfl := Option.some.inj (hx.symm.trans hx')
  exact Option.some.inj hz ▸ hle

lemma exists_recordsMerge_load {ptr : Value ℝ} (hrun : ((b.load a i ptr).run n).1 = some a') :
    ∃ m, b.RecordsMerge i a.store n
      ((b.loadCandidates a.store i.id ptr).filter Estimate.hasError) m a' := by
  rw [load, OptionT.run_bind, Option.elimM, Fresh.bind_apply] at hrun
  generalize hloaded : (loadedEstimate ((b.resultRange? a.store i).filter fun r => !r.isUnknown)
    (b.loadSources a.store i.id ptr)).run n = r at hrun
  obtain ⟨_ | r, m⟩ := r
  · cases hrun
  obtain rfl := Option.some.inj hrun
  have herror : (b.writeEstimate a i r).store.error? (b.key i) = r.error :=
    (Store.error?_set _ _ _ _).trans (if_pos rfl)
  refine ⟨n, fun hs e he => isWellFormed_of_mem_loadSources hs (mem_loadSources_iff.2 he), ?_⟩
  rw [herror]
  rcases loadedEstimate_run (congrArg Prod.fst hloaded) with ⟨e, hes, her⟩ | ⟨x, hx, her⟩
  · -- there is one source, and all candidates are equal to it
    have hall : ∀ e' ∈ (b.loadCandidates a.store i.id ptr).filter Estimate.hasError, e' = e :=
      fun e' he' => List.mem_singleton.1 (hes ▸ mem_loadSources_iff.2 he')
    have hmem : e ∈ b.loadSources a.store i.id ptr := hes ▸ List.mem_singleton_self e
    obtain ⟨g, hg⟩ := Option.isSome_iff_exists.1 (List.mem_filter.1 (mem_loadSources_iff.1 hmem)).2
    exact ⟨g, her.trans hg, .single hg hall⟩
  · refine ⟨_, her, .withError fun e he y hy => ?_⟩
    have hmem := mem_loadSources_iff.2 he
    rw [hx (List.ne_nil_of_mem hmem)]
    exact (le_foldl_max _ _).2 y (List.mem_filterMap.2 ⟨e, hmem, hy⟩)

/-! ## Visits -/

/-- A rule that has data leaves the state that it computes. -/
lemma run_of_attempt {rule : Attempt (Activation ℝ)}
    (hanswer : (attempt a w rule n).1.answer = .ok true) :
    (rule.run n).1 = some (attempt a w rule n).1.state := by
  rw [attempt, Fresh.bind_apply] at hanswer ⊢
  generalize rule.run n = r at hanswer ⊢
  obtain ⟨_ | a', n'⟩ := r
  · cases hanswer
  · rfl

/-- The visit of a selection, a phi or a load that writes a result records a merge of its sources,
unless the error is settled or given. -/
lemma exists_recordsMerge_visit (hmerge : i.op.isMerge = true)
    (hpinned : a.pinned.contains i.id = false) (hgiven : i.isGiven = false)
    (hanswer : (b.visit h edges a w i n).1.answer = .ok true) :
    ∃ m, b.RecordsMerge i (b.annotatedStore a.store i) n (b.mergedSources ⟨edges, i, a, n⟩) m
      (b.visit h edges a w i n).1.state := by
  rw [visit_eq_operate hpinned hgiven, operate] at hanswer ⊢
  rw [mergedSources]
  dsimp only
  cases hop : i.op with
  | select c t f =>
    rw [hop] at hanswer
    exact exists_recordsMerge_select (run_of_attempt hanswer)
  | phi incoming =>
    rw [hop] at hanswer
    exact exists_recordsMerge_phi (run_of_attempt hanswer)
  | load ptr =>
    rw [hop] at hanswer
    exact exists_recordsMerge_load (run_of_attempt hanswer)
  | _ =>
    rw [hop] at hmerge
    cases hmerge

/-- A phi without a range of its own takes the hull of what it reads. -/
lemma contains_phi {incoming : List (Value ℝ × BlockId)}
    (hrun : ((b.phi a i edges incoming).run n).1 = some a')
    (hunknown : (b.resultRange? a.store i).all Range.isUnknown = true)
    (he : e ∈ b.readEstimates a.store i (b.visible i edges incoming) n) :
    ∃ r, a'.store.range? (b.key i) = some r ∧ r.Contains e.range := by
  obtain ⟨os, m, x, hreads, -, rfl⟩ := exists_of_phi_run hrun
  rw [readEstimates, hreads] at he
  obtain ⟨o, ho, rfl⟩ := List.mem_map.1 he
  obtain ⟨r, hr, hcontains⟩ := exists_hull? ho
  have hown : (b.resultRange? a.store i).filter (fun r => !r.isUnknown) = none :=
    Option.filter_eq_none_iff.2 fun r hr => by
      rw [hr, Option.all_some] at hunknown
      rw [hunknown]
      exact nofun
  refine ⟨r, ?_, hcontains⟩
  rw [Store.range?, writeEstimate, Store.get?_set, if_pos rfl, hown, hr]
  rfl

/-- **A visit that merges covers its sources**, whatever the state. -/
theorem visit_merges (hmerge : i.op.isMerge = true)
    (hpinned : a.pinned.contains i.id = false) (hgiven : i.isGiven = false)
    (hanswer : (b.visit h edges a w i n).1.answer = .ok true) :
    b.Merges ⟨edges, i, a, n⟩ (b.visit h edges a w i n).1.state := by
  refine ⟨fun e he x hx => ?_, fun hphi hunknown e he => ?_⟩
  · obtain ⟨m, hrecords⟩ := exists_recordsMerge_visit hmerge hpinned hgiven hanswer
    obtain ⟨g, hg, hg'⟩ := hrecords.error?
    exact ⟨g.noiseBound, by rw [Store.absError?_eq_map, hg]; rfl, hg'.covers e he x hx⟩
  · obtain ⟨incoming, hincoming⟩ := Option.isSome_iff_exists.1 hphi
    have hop := Operation.eq_phi_of_incoming? hincoming
    rw [visit_eq_operate hpinned hgiven, operate, hop] at hanswer ⊢
    rw [mergedSources] at he
    dsimp only at he
    rw [hop] at he
    exact contains_phi (run_of_attempt hanswer) hunknown he

/-- **A visit that merges different sources** records an error that shares no symbol with them, if
the symbols in use have been drawn from the supply. -/
lemma visit_keepsApart (hs : a.store.IsWellFormed n) (hmerge : i.op.isMerge = true)
    (hpinned : a.pinned.contains i.id = false) (hgiven : i.isGiven = false)
    (hanswer : (b.visit h edges a w i n).1.answer = .ok true) :
    b.KeepsApart ⟨edges, i, a, n⟩ (b.visit h edges a w i n).1.state := by
  obtain ⟨m, hrecords⟩ := exists_recordsMerge_visit hmerge hpinned hgiven hanswer
  obtain ⟨g, hg, hg'⟩ := hrecords.error?
  intro e₁ h₁ e₂ h₂ hne g' heq e he f hf t ht u hu
  obtain rfl := Option.some.inj (hg.symm.trans heq)
  have hnew : m ≤ t.1 := hg'.isDrawnFrom e₁ h₁ e₂ h₂ hne t ht
  have hsource := hrecords.isWellFormed (isWellFormed_annotatedStore hs i) e he
  exact ((hsource.error f hf).ne_of_mem hnew hu).symm

/-- What is said of the merges that are made at a moment: where the rule is applied and has data,
its sources are covered, and the result shares no symbol with them. -/
def MergesAt (b : Body ℝ) (h : CallHandler ℝ σ) (y : Moment ℝ σ) : Prop :=
  ∀ edges, ∀ i ∈ b.function.insts, i.op.isMerge = true → y.state.pinned.contains i.id = false →
    i.isGiven = false →
      let visited := (b.visit h edges y.state y.world i y.supply).1
      visited.answer = .ok true →
        b.Merges ⟨edges, i, y.state, y.supply⟩ visited.state ∧
        b.KeepsApart ⟨edges, i, y.state, y.supply⟩ visited.state

lemma mergesAt (h : CallHandler ℝ σ) {y : Moment ℝ σ} (hs : y.state.store.IsWellFormed y.supply) :
    b.MergesAt h y := fun _ _ _ hmerge hpinned hgiven hanswer =>
  ⟨visit_merges hmerge hpinned hgiven hanswer, visit_keepsApart hs hmerge hpinned hgiven hanswer⟩

end Body

/-! ## The analysis -/

namespace Plan

/-- Merges cover their sources in the whole analysis of a module, and even if a visit starts from
any other state. -/
structure MergesSources (m : Module ℝ) (settings : Settings) : Prop where
  /-- At every moment of an activation. -/
  passes : ∀ x xs, (Plan.of m settings).IsStack x xs → ∀ y, (Plan.of m settings).Passes x y →
    ((Plan.of m settings).body x.function).MergesAt (Plan.of m settings).calls y
  /-- In the copy with zero errors in which the rounding errors of a loop are found, at every moment
  of visits of instructions in it. -/
  zeroed : ∀ x xs, (Plan.of m settings).IsStack x xs → ∀ y, (Plan.of m settings).Passes x y →
    ∀ z, ((Plan.of m settings).body x.function).Passes CallHandler.none
      ⟨{ store := y.state.store.zeroed }, (), y.supply⟩ z →
        ((Plan.of m settings).body x.function).MergesAt CallHandler.none z
  /-- From any state, whatever the symbols in use. -/
  covers : ∀ (f : Function ℝ) (h : CallHandler ℝ (Findings ℝ)) (v : InstVisit ℝ) w,
    v.inst.op.isMerge = true → v.state.pinned.contains v.inst.id = false → v.inst.isGiven = false →
      let visited := (((Plan.of m settings).body f).visit h v.edges v.state w v.inst v.supply).1
      visited.answer = .ok true → ((Plan.of m settings).body f).Merges v visited.state

/-- **Merged values are no more certain than their sources.** -/
theorem mergesSources (m : Module ℝ) (settings : Settings) : MergesSources m settings := by
  have hp := preserves_isWellFormed (Plan.of m settings)
  refine ⟨fun x xs hx y hy => Body.mergesAt _ (hp.passes (hp.isStack hx) hy).store,
    fun x xs hx y hy z hz => ?_, fun f h v w hmerge hpinned hgiven hanswer =>
      Body.visit_merges hmerge hpinned hgiven hanswer⟩
  have hstart := (hp.passes (hp.isStack hx) hy).store.zeroed
  have hzeroed := Body.Passes.holds (preserves_isWellFormed_none _) hz hstart trivial
  exact Body.mergesAt _ hzeroed.store

end Plan

/-! ## A selection with an annotated error -/

namespace AnnotatedSelection

variable (given err : ℝ)

/-- The annotation of a number between zero and one. -/
def info : ScalarInfo ℝ := ⟨Format.none, some (0, 1), some err⟩

/-- One of the parameters is selected, and the error of the result is given. -/
def selection : Instruction ℝ :=
  ⟨⟨0⟩, ⟨0⟩, "s", .float 64, .select (.arg 0) (.arg 0) (.arg 1), some (.scalar (info given)),
    none⟩

/-- The function that selects one of its parameters. -/
def function : Function ℝ where
  id := ⟨0⟩
  name := "f"
  params := #[⟨"x", .float 64, some (.scalar (info err))⟩,
    ⟨"y", .float 64, some (.scalar (info err))⟩]
  retTy := .float 64
  blocks := #[⟨⟨0⟩, "entry", [⟨0⟩, ⟨1⟩], none, none⟩]
  insts := #[selection given, ⟨⟨1⟩, ⟨0⟩, "", .void, .ret (some (.inst ⟨0⟩)), none, none⟩]
  maxRecursion := none
  entryPoint := false

/-- The body of the function. -/
def body : Body ℝ := .of ⟨"m", #[function given err], #[], #[]⟩ {} (function given err)

/-- The visit of the selection in the state from which the function starts. -/
noncomputable def visit : InstVisit ℝ :=
  let start := (Store.forModule (body given err).module).seedArguments (body given err).module
    (function given err) 0
  ⟨.all, selection given, { store := start.1 }, start.2⟩

/-- What the visit leaves. -/
noncomputable def visited : Outcome ℝ Unit Bool :=
  let v := visit given err
  ((body given err).visit CallHandler.none v.edges v.state () v.inst v.supply).1

/-- The parameters are sources of the selection. -/
lemma mergedSources_visit : (body given err).mergedSources (visit given err) =
    [⟨Range.of Format.none 0 1, some (Affine.withError 0 err 0).1⟩,
      ⟨Range.of Format.none 0 1,
        some (Affine.withError 0 err (Affine.withError 0 err 0).2).1⟩] := by
  with_unfolding_all rfl

/-- The annotated error is recorded. -/
lemma absError?_visited :
    (visited given err).state.store.absError? ((body given err).key (selection given))
      = some (Affine.withError 0 given (visit given err).supply).1.noiseBound := by
  with_unfolding_all rfl

/-- The annotated error is recorded, although it is less than that of a parameter. -/
theorem absError?_lt_source :
    let v := visit (1 / 8) (1 / 2)
    let b := body (1 / 8) (1 / 2)
    v.inst.op.isMerge = true ∧ v.state.pinned.contains v.inst.id = false ∧
      (visited (1 / 8) (1 / 2)).answer = .ok true ∧
      ∃ e ∈ b.mergedSources v, ∃ x y, e.absError = some x ∧
        (visited (1 / 8) (1 / 2)).state.store.absError? (b.key v.inst) = some y ∧ y < x := by
  refine ⟨rfl, rfl, by with_unfolding_all rfl, _,
    mergedSources_visit (1 / 8) (1 / 2) ▸ List.mem_cons_self, _, _, rfl,
    absError?_visited (1 / 8) (1 / 2), ?_⟩
  rw [Affine.noiseBound_withError, Affine.noiseBound_withError]
  norm_num [abs_of_pos]

end AnnotatedSelection

end Roundoff
