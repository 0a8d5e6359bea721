/-
# The verdicts of a run

Comparisons are never settled, so every visit of a comparison looks at its operands.  A visit that
finds data for both of them gives a verdict, and this takes the place of the verdict of the visits
before.  So a run ends with the verdict of the last visit of a comparison that has found data, and
not with one that covers all visits: where a loop is unrolled and errors shrink from one iteration
to the next, a comparison that may flip in an early iteration is not reported if it cannot flip in
the last one.
-/
import Mathlib
import Roundoff.Proofs.Transfer.Visits

namespace Roundoff

lemma getLast?_filterMap_concat {α β : Type} (f : α → Option β) (as : List α) (a : α) :
    ((as ++ [a]).filterMap f).getLast? = (f a).or (as.filterMap f).getLast? := by
  rw [List.filterMap_append]
  cases h : f a <;> simp [h]

variable {R σ : Type} [Number R]

/-! ## Settled instructions -/

namespace Body

variable {b : Body R} {h : CallHandler R σ} {x y : Moment R σ} {a : Activation R} {w : σ}
  {n : Symbol} {vs : List (InstVisit R)} {i : Instruction R} {id : InstId}

/-- All instructions that are settled are phis or can be read as expressions. -/
def ReadsSettled (b : Body R) (a : Activation R) : Prop :=
  ∀ id, a.pinned.contains id = true → ∃ i ∈ b.function.insts, i.id = id ∧
    i.op.reading ≠ .unsupported

omit [Number R] in
lemma ReadsSettled.of_pinned_eq (ha : a.pinned = ∅) : b.ReadsSettled a := by
  intro id hid
  rw [ha] at hid
  cases hid

omit [Number R] in
/-- An instruction that cannot be read is not settled. -/
lemma ReadsSettled.contains_eq_false (ha : b.ReadsSettled a)
    (hplace : ∀ i ∈ b.function.insts, b.function.inst? i.id = some i) (hi : i ∈ b.function.insts)
    (hread : i.op.reading = .unsupported) : a.pinned.contains i.id = false := by
  refine Bool.eq_false_iff.2 fun hid => ?_
  obtain ⟨j, hj, heq, hne⟩ := ha i.id hid
  obtain rfl := Function.eq_of_inst?_id (hplace j hj) (hplace i hi) heq
  exact hne hread

omit [Number R] in
lemma reading_of_compared? {p : Value R × Value R} (hop : i.op.compared? = some p) :
    i.op.reading = .unsupported := by
  cases hkind : i.op <;> rw [hkind] at hop <;> first | rfl | cases hop

variable (hplace : ∀ i ∈ b.function.insts, b.function.inst? i.id = some i)

include hplace

/-- The verdicts change in a visit of a body as the visit says. -/
lemma ReadsSettled.visit (ha : b.ReadsSettled a) (hi : i ∈ b.function.insts) (edges : PhiEdges)
    (n : Symbol) :
    b.ReadsSettled (b.visit h edges a w i n).1.state ∧
    (b.visit h edges a w i n).1.state.verdicts
      = (b.verdict? ⟨edges, i, a, n⟩).elim a.verdicts (a.verdicts.insert i.id) := by
  have hcompared (hp : a.pinned.contains i.id = true) : i.op.compared? = none := by
    cases hop : i.op.compared? with
    | none => rfl
    | some p =>
      rw [ha.contains_eq_false hplace hi (reading_of_compared? hop)] at hp
      cases hp
  obtain ⟨hpinned, hverdicts⟩ := visit_marks hcompared n
  refine ⟨fun id hid => ha id ?_, hverdicts⟩
  rwa [← hpinned]

/-! ## Verdicts of runs -/

/-- **What a run settles can be read**, whatever happens in it. -/
theorem Traces.readsSettled (hy : b.Traces h x vs y) (hx : b.ReadsSettled x.state) :
    b.ReadsSettled y.state := by
  induction hy with
  | start => exact hx
  | @visit vs y _ edges i hi ih => exact (ih.visit hplace hi edges y.supply).1
  | @bounded vs y _ header k l a n hbound ih =>
    exact fun id hid => ((settles_of_closedForm hbound).reading_ne id hid).elim (ih id) fun h => h
  | givenUp _ _ ih => exact ih

omit hplace

/-- The verdict that a visit gives on the comparison of a position. -/
def verdictAt? (b : Body R) (id : InstId) (v : InstVisit R) : Option (Verdict R) :=
  if v.inst.id = id then b.verdict? v else none

include hplace

/-- **The verdict on a comparison is that of the last visit with data**, if there is one. -/
theorem Traces.get?_verdicts (hy : b.Traces h x vs y) (hx : b.ReadsSettled x.state) (id : InstId) :
    y.state.verdicts.get? id
      = (vs.filterMap (b.verdictAt? id)).getLast?.or (x.state.verdicts.get? id) := by
  induction hy with
  | start => rfl
  | @visit vs y hy edges i hi ih =>
    have hvisit := ((hy.readsSettled hplace hx).visit (h := h) (w := y.world) hplace hi edges
      y.supply).2
    change (b.visit h edges y.state y.world i y.supply).1.state.verdicts.get? id = _
    rw [hvisit, getLast?_filterMap_concat, Option.or_assoc, ← ih, verdictAt?]
    cases b.verdict? ⟨edges, i, y.state, y.supply⟩ with
    | none => rw [ite_self, Option.none_or, Option.elim_none]
    | some v =>
      rw [Option.elim_some, Table.get?_insert]
      split <;> rfl
  | @bounded vs y _ header k l a n hbound ih =>
    change a.verdicts.get? id = _
    rw [(settles_of_closedForm hbound).verdicts_eq, ih]
  | givenUp _ _ ih => exact ih

/-- The verdicts remain sorted. -/
lemma Traces.isSorted_verdicts (hy : b.Traces h x vs y) (hx : b.ReadsSettled x.state)
    (hsorted : x.state.verdicts.IsSorted) : y.state.verdicts.IsSorted := by
  induction hy with
  | start => exact hsorted
  | @visit vs y hy edges i hi ih =>
    have hvisit := ((hy.readsSettled hplace hx).visit (h := h) (w := y.world) hplace hi edges
      y.supply).2
    change (b.visit h edges y.state y.world i y.supply).1.state.verdicts.IsSorted
    rw [hvisit]
    cases b.verdict? ⟨edges, i, y.state, y.supply⟩ with
    | none => exact ih
    | some v => exact ih.insert _ _
  | @bounded vs y _ header k l a n hbound ih =>
    change a.verdicts.IsSorted
    rwa [(settles_of_closedForm hbound).verdicts_eq]
  | givenUp _ _ ih => exact ih

/-- **An activation ends with the verdicts of the last visits.** -/
theorem get?_verdicts_runSchedule (s : Store R) (w : σ) (schedule : Schedule) (n : Symbol)
    (id : InstId) :
    (b.runSchedule h { store := s } w schedule n).1.state.verdicts.get? id
      = ((b.visitsOf h { store := s } w n schedule).filterMap (b.verdictAt? id)).getLast? := by
  have hrun := (Traces.start (b := b) (h := h) (x := ⟨{ store := s }, w, n⟩)).runSchedule schedule
  exact (hrun.get?_verdicts hplace (.of_pinned_eq rfl) id).trans (Option.or_none)

end Body

end Roundoff
