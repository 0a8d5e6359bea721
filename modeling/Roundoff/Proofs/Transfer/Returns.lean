/-
# What a run records for its function

A return raises what is recorded for its function to the error that it returns.  Apart from returns,
only calls change this record, and they raise it to what they contribute.  So at every moment of a
run the error recorded for the function is the largest among those returned so far and those that
calls have contributed, in whatever order returns and calls come.

A return whose error is given by an annotation returns nothing: the annotation takes the place of
the rule.
-/
import Mathlib
import Roundoff.Proofs.Affine.Order
import Roundoff.Proofs.Number.Exact
import Roundoff.Proofs.Transfer.CallLog
import Roundoff.Proofs.Transfer.Verdicts

namespace Roundoff

namespace Operation

variable {R : Type}

/-- The value that an operation returns. -/
def returned? : Operation R → Option (Value R)
  | .ret value => value
  | _ => none

lemma reading_of_returned? {o : Operation R} {v : Value R} (h : o.returned? = some v) :
    o.reading = .unsupported := by
  cases o <;> first | rfl | cases h

end Operation

namespace Body

variable {R σ : Type} [Number R] {b : Body R} {h : CallHandler R σ} {a : Activation R} {w : σ}
  {n : Symbol} {i : Instruction R} {edges : PhiEdges}

/-- The error of the value that the visited return returns, if there are data for the value. -/
def errorAtReturn? (b : Body R) (v : InstVisit R) : Option R :=
  v.inst.op.returned?.bind fun value =>
    ((b.operand (b.annotatedStore v.state.store v.inst) value none).run v.supply).1.map
      Operand.absError

lemma errorAtReturn?_eq_none {v : InstVisit R} (hop : v.inst.op.returned? = none) :
    b.errorAtReturn? v = none := by
  rw [errorAtReturn?, hop, Option.bind_none]

/-- The error that a visit returns.  A return whose error is given by an annotation returns none. -/
def returns? (b : Body R) (v : InstVisit R) : Option R :=
  if v.inst.isGiven then none else b.errorAtReturn? v

omit [Number R] in
lemma function_notMem_key (b : Body R) (i : Instruction R) (f : FunctionId) :
    .function f ∉ ({b.key i} : Set Key) := by
  intro hkey
  cases hkey

/-- What is recorded for functions is not changed by an annotated range. -/
lemma absError?_annotatedStore (s : Store R) (i : Instruction R) (f : FunctionId) :
    (b.annotatedStore s i).absError? (.function f) = s.absError? (.function f) := by
  rw [annotatedStore]
  split
  · exact (s.writes_setRange _ _).absError?_eq (b.function_notMem_key i f)
  · rfl

end Body

/-! ## Returns -/

namespace Body

variable {σ : Type} {b : Body ℝ} {h : CallHandler ℝ σ} {a : Activation ℝ} {w : σ} {n : Symbol}
  {i : Instruction ℝ} {edges : PhiEdges} {x y : Moment ℝ (σ × List (Call ℝ σ))}
  {vs : List (InstVisit ℝ)} {Q : List (Value ℝ) → Prop}

/-- A return raises what is recorded for its function to the error of the returned value. -/
lemma absError?_ret (value : Value ℝ) (n : Symbol) :
    (attempt a w (b.ret a i (some value)) n).1.state.store.absError? (.function b.function.id)
      = (a.store.absError? (.function b.function.id)).merge max
        (((b.operand a.store value none).run n).1.map Operand.absError) := by
  have hwrite (e : Affine ℝ) : (b.write a i e).store.error? (.function b.function.id)
      = a.store.error? (.function b.function.id) :=
    (write_estimates a i e).writes.error?_eq (b.function_notMem_key i b.function.id)
  rw [ret, attempt, Fresh.bind_apply, OptionT.run_bind, Option.elimM, Fresh.bind_apply,
    Store.absError?_eq_map, Store.absError?_eq_map]
  generalize (b.operand a.store value none).run n = r
  obtain ⟨_ | o, n'⟩ := r
  · exact (Option.merge_none_right ..).symm
  dsimp only
  rw [Option.elim_some, hwrite]
  have hset : ((b.write a i o.error).store.set (.function b.function.id)
      ⟨o.range, some (o.error.flatten n').1⟩).error? (.function b.function.id)
        = some (o.error.flatten n').1 := by
    rw [Store.error?_set, if_pos rfl]
  cases hold : a.store.error? (.function b.function.id) with
  | none =>
    change Option.map _ (Store.error? (Store.set _ _ ⟨o.range, some (o.error.flatten n').1⟩) _) = _
    rw [hset]
    exact congrArg some (Affine.noiseBound_flatten _ _)
  | some old =>
    by_cases hlt : old.noiseBound < o.absError
    · simp only [hlt, decide_true, if_true]
      change Option.map _ (Store.error?
        (Store.set _ _ ⟨o.range, some (o.error.flatten n').1⟩) _) = _
      rw [hset]
      exact congrArg some ((Affine.noiseBound_flatten _ _).trans (max_eq_right hlt.le).symm)
    · simp only [hlt, decide_false, Bool.false_eq_true, if_false]
      change Option.map _ ((b.write a i o.error).store.error? _) = _
      rw [hwrite, hold]
      exact congrArg some (max_eq_left (not_lt.1 hlt)).symm

/-- Only returns write to the result of the function. -/
lemma notMem_written (hop : ∀ value, i.op ≠ .ret value) (f : FunctionId) :
    .function f ∉ b.written i := by
  rw [written]
  split
  · rintro (hkey | ⟨m, -, hkey⟩)
    · cases hkey
    · cases hkey
  · next value hret => exact absurd hret (hop value)
  · exact b.function_notMem_key i f

/-- What a visit does to the record of the function: it raises the record to what it returns, and
leaves the analysis of the program alone. -/
structure RaisesTo (b : Body ℝ) (a : Activation ℝ) (w : σ) (v : InstVisit ℝ) {α : Type}
    (o : Outcome ℝ σ α) : Prop where
  /-- The analysis of the whole program goes on as before. -/
  world_eq : o.world = w
  /-- The larger error is recorded. -/
  absError?_eq : o.state.store.absError? (.function b.function.id)
    = (a.store.absError? (.function b.function.id)).merge max (b.returns? v)

/-- A visit that applies no rule returns nothing. -/
lemma visit_raisesTo_of_given (hpinned : a.pinned.contains i.id = true → i.op.returned? = none)
    (hrule : a.pinned.contains i.id = true ∨ i.isGiven = true) (n : Symbol) :
    b.RaisesTo a w ⟨edges, i, a, n⟩ (b.visit h edges a w i n).1 := by
  have hvisit : LeavesAlone a w {b.key i} (b.visit h edges a w i n).1 := visit_leavesAlone hrule n
  have hnone : b.returns? ⟨edges, i, a, n⟩ = none := by
    rw [returns?]
    rcases hrule with hp | hgiven
    · rw [errorAtReturn?_eq_none (hpinned hp), ite_self]
    · exact if_pos hgiven
  refine ⟨hvisit.world_eq, ?_⟩
  rw [hnone, Option.merge_none_right]
  exact hvisit.frame.writes.absError?_eq nofun

/-- A visit that follows no call raises what is recorded for the function to what it returns. -/
lemma visit_raisesTo (hpinned : a.pinned.contains i.id = true → i.op.returned? = none)
    (hbody : b.calledBody? i = none) (n : Symbol) :
    b.RaisesTo a w ⟨edges, i, a, n⟩ (b.visit h edges a w i n).1 := by
  by_cases hrule : a.pinned.contains i.id = true ∨ i.isGiven = true
  · exact visit_raisesTo_of_given hpinned hrule n
  · obtain ⟨hp, hgiven⟩ := not_or.1 hrule
    rw [visit_eq_operate (Bool.not_eq_true _ ▸ hp) (Bool.not_eq_true _ ▸ hgiven)]
    obtain ⟨hworld, hframe⟩ : (b.operate h edges _ w i n).1.world = w ∧ _ :=
      operate_frame_of_calledBody? (a := { a with store := b.annotatedStore a.store i }) hbody n
    refine ⟨hworld, ?_⟩
    rw [returns?, if_neg hgiven, ← b.absError?_annotatedStore a.store i]
    by_cases hop : ∀ value, i.op ≠ .ret value
    · have hnone : i.op.returned? = none := by
        cases hkind : i.op <;> first | rfl | exact absurd hkind (hop _)
      rw [errorAtReturn?_eq_none hnone, Option.merge_none_right]
      exact hframe.writes.absError?_eq (notMem_written hop _)
    · obtain ⟨value, hret⟩ := not_forall_not.1 hop
      rw [operate, errorAtReturn?, hret]
      cases value with
      | none => exact (Option.merge_none_right ..).symm
      | some value => exact absError?_ret value n

/-! ## Calls -/

/-- What is recorded for functions after a call is what the answer says. -/
lemma absError?_functionCall (h : CallHandler ℝ σ) (callee : Function ℝ) (args : List (Value ℝ))
    (w : σ) (f : FunctionId) (n : Symbol) :
    (b.functionCall h a w i callee args n).1.2.1.store.absError? (.function f)
      = (h.answer ⟨w, b.function, callee, args, a.store, n⟩).1.1.absError? (.function f) := by
  obtain ⟨_, _, hs, heq⟩ := functionCall_eq (b := b) (a := a) (i := i) h callee args n
  rw [heq]
  exact hs.absError?_eq (b.function_notMem_key i f)

/-- What a visit does that follows a call: the call is entered in the log, and what is recorded for
the function afterwards is what the answer says. -/
structure AnswersTo (b : Body ℝ) (h : CallHandler ℝ σ) (Q : List (Value ℝ) → Prop) (s : Store ℝ)
    (log : List (Call ℝ σ)) (y : Moment ℝ (σ × List (Call ℝ σ))) (c : Call ℝ σ) : Prop where
  /-- The arguments are as wanted. -/
  args : Q c.args
  /-- The call is entered in the log. -/
  log_eq : y.world.2 = log ++ [c]
  /-- When the call comes up, the record is the one before the visit. -/
  before : c.store.absError? (.function b.function.id) = s.absError? (.function b.function.id)
  /-- When it has been answered, the record is the one of the answer. -/
  after : y.state.store.absError? (.function b.function.id)
    = (h.answer c).1.1.absError? (.function b.function.id)

/-- Calls can neither be read as expressions, nor do they return. -/
lemma reading_of_calledBody? {site : Function ℝ × List (Value ℝ)}
    (h : b.calledBody? i = some site) :
    i.op.reading = .unsupported ∧ i.op.returned? = none := by
  obtain ⟨callee, hcallee, -⟩ := Option.bind_eq_some_iff.1 h
  cases hop : i.op <;> rw [hop] at hcallee <;> first | exact ⟨rfl, rfl⟩ | cases hcallee

lemma visit_answersTo (hcalls : i.CallsWith Q) (hp : a.pinned.contains i.id = false)
    (hgiven : i.isGiven = false) {f : Function ℝ} {args : List (Value ℝ)}
    (hbody : b.calledBody? i = some (f, args)) (w : σ × List (Call ℝ σ)) (n : Symbol) :
    ∃ c, b.AnswersTo h Q a.store w.2 (.after (b.visit h.logged edges a w i n)) c := by
  obtain ⟨site, hsite, heq⟩ := Option.bind_eq_some_iff.1 hbody
  have hargs : site.2 = args := by
    split at heq
    · cases heq
    · obtain ⟨g, -, heq⟩ := Option.map_eq_some_iff.1 heq
      exact (Prod.mk.inj heq).2
  refine ⟨⟨w.1, b.function, f, args, b.annotatedStore a.store i, n⟩, hargs ▸ hcalls _ _ hsite, ?_,
    absError?_annotatedStore a.store i _, ?_⟩
  · rw [visit_eq_operate hp hgiven, operate_of_calledBody? hbody]
    exact congrArg Prod.snd (functionCall_world (h := h.logged)
      (a := { a with store := b.annotatedStore a.store i }) f args n)
  · rw [visit_eq_operate hp hgiven, operate_of_calledBody? hbody]
    exact absError?_functionCall (a := { a with store := b.annotatedStore a.store i }) h.logged f
      args w _ n

/-! ## Runs -/

/-- **What is recorded for the function of a run** is the largest error among those that visits have
returned and those that calls have contributed. -/
theorem Traces.absError? (hy : b.Traces h.logged x vs y)
    (hplace : ∀ i ∈ b.function.insts, b.function.inst? i.id = some i) (hcalls : b.CallsWith Q)
    (hsettled : b.ReadsSettled x.state)
    (hnone : x.state.store.absError? (.function b.function.id) = none) (hlog : x.world.2 = [])
    {contributes? : Call ℝ σ → Option ℝ}
    (hanswer : ∀ c ∈ y.world.2, Q c.args →
      (h.answer c).1.1.absError? (.function b.function.id)
        = (c.store.absError? (.function b.function.id)).merge max (contributes? c)) :
    y.state.store.absError? (.function b.function.id)
      = (vs.filterMap b.returns?).max?.merge max (y.world.2.filterMap contributes?).max? := by
  induction hy with
  | start =>
    rw [hlog]
    exact hnone
  | @visit vs y hy edges i hi ih =>
    have hreads := hy.readsSettled hplace hsettled
    have hpinned (hread : i.op.reading = .unsupported) : y.state.pinned.contains i.id = false :=
      hreads.contains_eq_false hplace hi hread
    have hreturn (hp : y.state.pinned.contains i.id = true) : i.op.returned? = none :=
      Option.eq_none_iff_forall_not_mem.2 fun value hvalue => by
        rw [hpinned (Operation.reading_of_returned? hvalue)] at hp
        cases hp
    by_cases hquiet : b.calledBody? i = none ∨ i.isGiven = true
    · -- nothing is called, so the log stays as it is
      have hraises : b.RaisesTo y.state y.world ⟨edges, i, y.state, y.supply⟩
          (b.visit h.logged edges y.state y.world i y.supply).1 :=
        hquiet.elim (fun hbody => visit_raisesTo hreturn hbody _) fun hgiven =>
          visit_raisesTo_of_given hreturn (.inr hgiven) _
      have hworld : (Moment.after (b.visit h.logged edges y.state y.world i y.supply)).world
          = y.world := hraises.world_eq
      rw [hworld] at hanswer ⊢
      refine hraises.absError?_eq.trans ?_
      rw [ih hanswer, max?_filterMap_concat]
      ac_rfl
    · obtain ⟨hbody, hgiven⟩ := not_or.1 hquiet
      obtain ⟨⟨f, args⟩, hsite⟩ := Option.ne_none_iff_exists'.1 hbody
      have hop := reading_of_calledBody? hsite
      obtain ⟨c, hc⟩ : ∃ c, b.AnswersTo h Q y.state.store y.world.2
          (.after (b.visit h.logged edges y.state y.world i y.supply)) c :=
        visit_answersTo (hcalls i hi) (hpinned hop.1) (Bool.not_eq_true _ ▸ hgiven) hsite _ _
      have hnone : b.returns? ⟨edges, i, y.state, y.supply⟩ = none := by
        rw [returns?, if_neg hgiven, errorAtReturn?_eq_none hop.2]
      rw [hc.log_eq] at hanswer ⊢
      rw [hc.after, hanswer c (by simp) hc.args, hc.before,
        ih fun d hd => hanswer d (List.mem_append_left _ hd), max?_filterMap_concat,
        max?_filterMap_concat, hnone, Option.merge_none_right]
      ac_rfl
  | @bounded vs y _ header k l a n hbound ih =>
    rw [← ih hanswer]
    exact (settles_of_closedForm hbound).writes.absError?_eq nofun
  | givenUp _ _ ih => exact ih hanswer

/-- **An activation ends with the largest error** among those that its visits have returned and
those that its calls have contributed. -/
theorem absError?_runSchedule (hplace : ∀ i ∈ b.function.insts, b.function.inst? i.id = some i)
    (hcalls : b.CallsWith Q) (hpinned : a.pinned = ∅)
    (hnone : a.store.absError? (.function b.function.id) = none) (schedule : Schedule) (n : Symbol)
    {contributes? : Call ℝ σ → Option ℝ}
    (hanswer : ∀ c ∈ b.callsOf h a w schedule n, Q c.args →
      (h.answer c).1.1.absError? (.function b.function.id)
        = (c.store.absError? (.function b.function.id)).merge max (contributes? c)) :
    (b.runSchedule h a w schedule n).1.state.store.absError? (.function b.function.id)
      = ((b.visitsOf h.logged a (w, []) n schedule).filterMap b.returns?).max?.merge max
        ((b.callsOf h a w schedule n).filterMap contributes?).max? := by
  have hrun := (Traces.start (b := b) (h := h.logged) (x := ⟨a, (w, []), n⟩)).runSchedule schedule
  have hlogged := runSchedule_logged (b := b) (h := h) (P := fun _ => True) (a := a) (w := w)
    (fun _ _ _ _ => trivial) trivial schedule n
  rw [← hlogged.state_eq]
  exact hrun.absError? hplace hcalls (.of_pinned_eq hpinned) hnone rfl hanswer

end Body

end Roundoff
