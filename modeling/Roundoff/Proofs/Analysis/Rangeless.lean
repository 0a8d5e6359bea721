/-
# Values that never get a range

The rules for binary operations and selections record an error and no range.  Where no range is
annotated for the result, the range that is recorded with its error is the one that stands for an
unknown range, or one with the annotated format, and both say that the value is zero.  Nothing
replaces them later on: visits of other instructions leave them alone, a closed form sets ranges of
phis only, and a call changes what is recorded in its caller only behind the pointers that it is
passed.

So this holds at every moment of every activation, and every product that reads such a value takes
it for zero.
-/
import Mathlib
import Roundoff.Proofs.Analysis.Growth
import Roundoff.Proofs.Analysis.Returned
import Roundoff.Proofs.Analysis.WellFormed
import Roundoff.Proofs.Loop.Exits
import Roundoff.Proofs.Transfer.Products

namespace Roundoff

/-! ## Instructions without a range -/

/-- Operations whose rules record an error and no range. -/
def Operation.recordsErrorOnly {R : Type} : Operation R → Bool
  | .binary .. | .select .. => true
  | _ => false

/-- An instruction whose rule records no range, and for which none is annotated. -/
structure Instruction.IsRangeless {R : Type} (i : Instruction R) : Prop where
  /-- There is no annotation, or one without a range. -/
  bounds_eq : ∀ info ∈ i.scalarInfo?, info.bounds = none
  /-- The rule records no range. -/
  recordsErrorOnly : i.op.recordsErrorOnly = true

namespace Body

variable {σ : Type} {b : Body ℝ} {h : CallHandler ℝ σ} {a : Activation ℝ} {w : σ} {edges : PhiEdges}
  {d i : Instruction ℝ} {s s' : Store ℝ} {n : Symbol} {x y : Moment ℝ σ}

/-- A range that is recorded for the result of the instruction says no more than that it is zero. -/
def HasNoRange (b : Body ℝ) (d : Instruction ℝ) (s : Store ℝ) : Prop :=
  ∀ r, s.range? (b.key d) = some r → r.maxAbs = 0

namespace HasNoRange

lemma of_get?_eq (hstore : b.HasNoRange d s) (hget : s'.get? (b.key d) = s.get? (b.key d)) :
    b.HasNoRange d s' := by
  intro r hr
  rw [Store.range?, hget] at hr
  exact hstore r hr

/-- Recording an error for any value records no range. -/
lemma setError (hstore : b.HasNoRange d s) (k : Key) (g : Affine ℝ) :
    b.HasNoRange d (s.setError k g) := by
  intro r hr
  rw [Store.range?, Store.get?_setError] at hr
  split at hr
  · next hk =>
    subst hk
    obtain rfl := Option.some.inj hr
    cases hold : s.get? (b.key d) with
    | none => exact Range.maxAbs_unknown
    | some e =>
      refine hstore e.range ?_
      rw [Store.range?, hold]
      rfl
  · exact hstore r hr

/-- Recording the range of another instruction. -/
lemma setRange (hstore : b.HasNoRange d s) (hne : i.id ≠ d.id) (r : Range ℝ) :
    b.HasNoRange d (s.setRange (b.key i) r) := by
  refine hstore.of_get?_eq ((s.writes_setRange _ r).get?_eq fun hk => hne ?_)
  exact (Key.inst.inj hk).2.symm

/-- An annotation without a range takes the place of what is recorded. -/
lemma annotatedStore_self (hstore : b.HasNoRange d s) (hd : d.IsRangeless) :
    b.HasNoRange d (b.annotatedStore s d) := by
  rw [annotatedStore]
  split
  · next info hinfo =>
    intro r hr
    rw [Store.range?, Store.get?_setRange, if_pos rfl] at hr
    obtain rfl := Option.some.inj hr
    exact Range.maxAbs_rangeOrZero (hd.bounds_eq info hinfo)
  · exact hstore

/-! ## Visits -/

/-- A visit in which an annotation gives the error. -/
lemma visit_given (hstore : b.HasNoRange d a.store) (hd : d.IsRangeless)
    (hgiven : d.isGiven = true) (n : Symbol) :
    b.HasNoRange d (b.visit h edges a w d n).1.state.store := by
  rw [Instruction.isGiven] at hgiven
  rw [visit]
  split
  · exact hstore
  · cases hinfo : d.scalarInfo? with
    | none =>
      rw [hinfo] at hgiven
      cases hgiven
    | some info =>
      rw [hinfo, Option.any_some] at hgiven
      dsimp only
      rw [if_pos hgiven]
      intro r hr
      change Option.map _ ((Store.set _ _ _).get? _) = _ at hr
      rw [Store.get?_set, if_pos rfl] at hr
      obtain rfl := Option.some.inj hr
      exact Range.maxAbs_rangeOrZero (hd.bounds_eq info hinfo)

/-- The rules for binary operations and selections. -/
lemma operate_self (hstore : b.HasNoRange d a.store) (hd : d.IsRangeless) (n : Symbol) :
    b.HasNoRange d (b.operate h edges a w d n).1.state.store := by
  have hwrite (g : Affine ℝ) : b.HasNoRange d (b.write a d g).store := hstore.setError _ g
  have hattempt {rule : Attempt (Activation ℝ)}
      (hrule : rule.Ensures fun a' => b.HasNoRange d a'.store) :
      (attempt a w rule).Ensures fun o => b.HasNoRange d o.state.store := by
    refine Fresh.Ensures.bind hrule fun o ho => ?_
    cases o with
    | none => exact Fresh.ensures_pure hstore
    | some a' => exact Fresh.ensures_pure (ho a' rfl)
  have hop := hd.recordsErrorOnly
  rw [operate]
  cases hkind : d.op with
  | binary op lhs rhs =>
    refine ((hattempt ?_).from n).2
    exact (ensures_binaryError _ _ _ _ _).andThen fun g => Attempt.ensures_pure (hwrite g)
  | select c t f =>
    refine ((hattempt ?_).from n).2
    exact (Attempt.ensures_both (ensures_operand _ _ _) (ensures_operand _ _ _)).andThen fun _ =>
      (Attempt.ensures_lift (Affine.ensures_withError 0 _)).andThen fun g =>
        Attempt.ensures_pure (hwrite g)
  | _ =>
    rw [hkind] at hop
    cases hop

/-- The visit of an instruction that has no range records none. -/
lemma visit_self (hstore : b.HasNoRange d a.store) (hd : d.IsRangeless) (n : Symbol) :
    b.HasNoRange d (b.visit h edges a w d n).1.state.store := by
  by_cases hpinned : a.pinned.contains d.id = true
  · rw [visit, if_pos hpinned]
    exact hstore
  · by_cases hgiven : d.isGiven = true
    · exact hstore.visit_given hd hgiven n
    · rw [visit_eq_operate (Bool.not_eq_true _ ▸ hpinned) (Bool.not_eq_true _ ▸ hgiven)]
      exact operate_self (a := { a with store := b.annotatedStore a.store d })
        (hstore.annotatedStore_self hd) hd n

/-- A call that leaves the value alone records no range for it. -/
lemma functionCall (hstore : b.HasNoRange d s) (hne : i.id ≠ d.id) {callee : Function ℝ}
    {args : List (Value ℝ)}
    (hcall : (h.analyse w b.function callee args a.store n).1.1.get? (b.key d)
      = s.get? (b.key d)) :
    b.HasNoRange d (b.functionCall h a w i callee args n).1.2.1.store := by
  rw [Body.functionCall, Fresh.bind_apply]
  generalize h.analyse w b.function callee args a.store n = r at hcall
  have hanswer : b.HasNoRange d r.1.1 := hstore.of_get?_eq hcall
  dsimp only
  cases returnedError? h r.1.2 r.1.1 callee.id with
  | none => exact hanswer
  | some e =>
    obtain ⟨error, range⟩ := e
    refine HasNoRange.setError ?_ _ error
    cases b.resultRange? r.1.1 i with
    | some _ => exact hanswer
    | none =>
      cases range with
      | none => exact hanswer
      | some range => exact hanswer.setRange hne range

end HasNoRange

/-- The calls of the function leave alone what is recorded for a key, if the entries are sorted. -/
def CallsSpare (b : Body ℝ) (h : CallHandler ℝ σ) (k : Key) : Prop :=
  ∀ i ∈ b.function.insts, ∀ f args, b.calledBody? i = some (f, args) →
    ∀ w (s : Store ℝ) n, s.entries.IsSorted →
      (h.analyse w b.function f args s n).1.1.get? k = s.get? k

lemma get?_annotatedStore (hne : i.id ≠ d.id) (s : Store ℝ) :
    (b.annotatedStore s i).get? (b.key d) = s.get? (b.key d) := by
  rw [annotatedStore]
  split
  · exact (s.writes_setRange _ _).get?_eq fun hk => hne (Key.inst.inj hk).2.symm
  · rfl

/-- Annotations record no range for an instruction without one. -/
lemma HasNoRange.annotatedStore (hstore : b.HasNoRange d s) (hd : d.IsRangeless)
    (hi : i.id = d.id → i = d) : b.HasNoRange d (b.annotatedStore s i) := by
  by_cases hid : i.id = d.id
  · rw [hi hid]
    exact hstore.annotatedStore_self hd
  · exact hstore.of_get?_eq (get?_annotatedStore hid s)

lemma isSorted_annotatedStore (hs : s.entries.IsSorted) (i : Instruction ℝ) :
    (b.annotatedStore s i).entries.IsSorted := by
  rw [annotatedStore]
  split
  · exact (s.writes_setRange _ _).isSorted hs
  · exact hs

/-- **A visit records no range** for an instruction that has none. -/
lemma visit_hasNoRange (hplace : ∀ i ∈ b.function.insts, b.function.inst? i.id = some i)
    (hd : d ∈ b.function.insts) (hrangeless : d.IsRangeless) (hcalls : b.CallsSpare h (b.key d))
    (hi : i ∈ b.function.insts)
    (hsorted : a.store.entries.IsSorted) (hstore : b.HasNoRange d a.store) (n : Symbol) :
    b.HasNoRange d (b.visit h edges a w i n).1.state.store := by
  by_cases hid : i.id = d.id
  · obtain rfl := Function.eq_of_inst?_id (hplace i hi) (hplace d hd) hid
    exact hstore.visit_self hrangeless n
  · have hother : b.key d ∉ b.written i := key_notMem_written (Ne.symm hid)
    cases hbody : b.calledBody? i with
    | none =>
      have hframe : a.Frame (b.visit h edges a w i n).1.state (b.written i) :=
        visit_frame_of_calledBody? hbody n
      exact hstore.of_get?_eq (hframe.writes.get?_eq hother)
    | some site =>
      obtain ⟨f, args⟩ := site
      by_cases hrule : a.pinned.contains i.id = true ∨ i.isGiven = true
      · have hvisit : LeavesAlone a w {b.key i} (b.visit h edges a w i n).1 :=
          visit_leavesAlone hrule n
        refine hstore.of_get?_eq (hvisit.frame.writes.get?_eq fun hk => hid ?_)
        exact (Key.inst.inj hk).2.symm
      · obtain ⟨hp, hgiven⟩ := not_or.1 hrule
        rw [visit_eq_operate (Bool.not_eq_true _ ▸ hp) (Bool.not_eq_true _ ▸ hgiven),
          operate_of_calledBody? hbody, Fresh.bind_apply]
        refine hstore.functionCall hid ?_
        rw [hcalls i hi f args hbody _ _ _ (isSorted_annotatedStore hsorted i)]
        exact get?_annotatedStore hid a.store

/-! ## Closed forms -/

/-- Whenever an error is settled, no range is recorded for the instruction: it is no phi. -/
lemma keptBySettling_hasNoRange
    (hplace : ∀ i ∈ b.function.insts, b.function.inst? i.id = some i)
    (hd : d ∈ b.function.insts) (hrangeless : d.IsRangeless) :
    b.KeptBySettling fun a _ => b.HasNoRange d a.store where
  later _ _ _ _ ha := ha
  pin a n i k error _ _ _ ha := by
    have hpin : (pin a i k error).Ensures fun a' => b.HasNoRange d a'.store :=
      (Affine.ensures_withError 0 error).andThen fun g => Fresh.ensures_pure (ha.setError k g)
    exact (hpin n).attains
  setRange a n i k range hi hphi _ ha := by
    refine ha.setRange (fun hid => ?_) range
    obtain rfl := Function.eq_of_inst?_id (hplace i hi) (hplace d hd) hid
    have hop := hrangeless.recordsErrorOnly
    obtain ⟨incoming, hincoming⟩ := Option.isSome_iff_exists.1 hphi
    rw [Operation.eq_phi_of_incoming? hincoming] at hop
    cases hop

/-! ## Runs -/

/-- **A run records no range** for an instruction that has none. -/
theorem Passes.hasNoRange (hplace : ∀ i ∈ b.function.insts, b.function.inst? i.id = some i)
    (hd : d ∈ b.function.insts) (hrangeless : d.IsRangeless) (hcalls : b.CallsSpare h (b.key d))
    (hsorted : ∀ y, b.Passes h x y → y.state.store.entries.IsSorted)
    (hstart : b.HasNoRange d x.state.store) (hy : b.Passes h x y) :
    b.HasNoRange d y.state.store := by
  induction hy with
  | start => exact hstart
  | visit hy edges hi ih =>
    exact visit_hasNoRange hplace hd hrangeless hcalls hi (hsorted _ hy) ih _
  | bounded hy hbound ih =>
    exact (keptBySettling_hasNoRange hplace hd hrangeless).of_closedForm ih hbound
  | givenUp hy hbound ih => exact ih

/-- An operand that is read from the result of such an instruction is taken for zero. -/
lemma maxAbs_operand (hstore : b.HasNoRange d s) {format : Option Format} {o : Operand ℝ}
    {n' : Symbol} (ho : (b.operand s (.inst d.id) format).run n = (some o, n')) :
    o.range.maxAbs = 0 := by
  have hrecord : (b.record? s (.inst d.id)).bind Estimate.toOperand? = some o :=
    congrArg Prod.fst ho
  obtain ⟨e, he, ho⟩ := Option.bind_eq_some_iff.1 hrecord
  obtain ⟨g, -, rfl⟩ := Option.map_eq_some_iff.1 ho
  have hrange : s.range? (b.key d) = some e.range := congrArg (Option.map Estimate.range) he
  exact hstore _ hrange

/-- The function passes the result of the instruction to no call as a pointer. -/
def PassesNoPointer (b : Body ℝ) (d : Instruction ℝ) : Prop :=
  ∀ i ∈ b.function.insts, ∀ f args, b.calledBody? i = some (f, args) →
    b.key d ∉ Store.pointers b.function f args

end Body

/-! ## Activations -/

namespace Plan

/-- The answers to calls leave alone what is no pointer. -/
lemma callsSpare_follow (p : Plan ℝ) {b : Body ℝ} {d : Instruction ℝ} (hd : b.PassesNoPointer d)
    (depth : ℕ) : b.CallsSpare (p.follow depth) (b.key d) := by
  intro i hi f args hcall w s n hs
  by_contra hchanged
  have hgrows := p.growsBy_answer depth ⟨w, b.function, f, args, s, n⟩ hs
  rcases hgrows.frame (b.key d) hchanged with hkey | hkey | ⟨g, hkey⟩
  · cases hkey
  · exact hd i hi f args hcall hkey
  · cases hkey

section Activations

variable {m : Module ℝ} {settings : Settings} {x : Start ℝ} {xs : List (Start ℝ)}
  {y : Moment ℝ (Findings ℝ)} {d i : Instruction ℝ} {op : BinaryOp} {lhs rhs : Value ℝ}
  {u v : Operand ℝ} {n : Symbol}

variable (hm : m.validate = .ok ()) (hx : (Plan.of m settings).IsStack x xs)
  (hd : d ∈ x.function.insts) (hrangeless : d.IsRangeless)
  (hpointer : ((Plan.of m settings).body x.function).PassesNoPointer d)
  (hy : (Plan.of m settings).Passes x y)

include hm hx hd hrangeless hpointer hy

/-- **At no moment of an activation** a range is recorded for an instruction that has none. -/
theorem hasNoRange_of_passes :
    ((Plan.of m settings).body x.function).HasNoRange d y.state.store := by
  have hmem := (hx.schedule_eq hm).1
  have hbody : (Plan.of m settings).body x.function = Body.of m settings x.function :=
    body_eq_of_validate hm hmem
  have hp := (Plan.of m settings).preservesSessions_growsFrom
  rw [Passes] at hy
  have hsorted : ∀ z, ((Plan.of m settings).body x.function).Passes (Plan.of m settings).calls
      ((Plan.of m settings).firstMoment x) z → z.state.store.entries.IsSorted :=
    fun z hz => (hp.passes (hp.isStack hx) hz).store.isSorted
  have hcalls := (Plan.of m settings).callsSpare_follow hpointer (Plan.of m settings).depth
  rw [hbody] at hy hsorted hcalls ⊢
  refine Body.Passes.hasNoRange (fun i hi => inst?_id_of_validate hm hmem hi) hd hrangeless hcalls
    hsorted ?_ hy
  -- nothing is recorded for the instructions of the function when the activation begins
  have hstart : x.state.store.get? ((Body.of m settings x.function).key d) = none :=
    hx.get?_eq_none rfl nofun ((Body.of m settings x.function).belongsTo_key d)
  intro r hr
  have hr : (x.state.store.get? ((Body.of m settings x.function).key d)).map Estimate.range
      = some r := hr
  rw [hstart] at hr
  cases hr

/-- **At every moment of an activation** a visit of a product takes a factor for zero that is the
result of an instruction without a range. -/
theorem visit_product_of_rangeless (hi : i ∈ x.function.insts) (hop : i.op = .binary op lhs rhs)
    (hproduct : op.IsProduct) (hpinned : y.state.pinned.contains i.id = false)
    (hgiven : i.isGiven = false)
    (hreads : ((Plan.of m settings).body x.function).ReadsOperands
      (((Plan.of m settings).body x.function).annotatedStore y.state.store i) i lhs rhs y.supply
        u v n) (edges : PhiEdges) :
    let o := (((Plan.of m settings).body x.function).visit (Plan.of m settings).calls edges y.state
      y.world i y.supply).1
    (lhs = .inst d.id → ((Plan.of m settings).body x.function).TakesForZero i u v o) ∧
      (rhs = .inst d.id → ((Plan.of m settings).body x.function).TakesForZero i v u o) := by
  have hwf := (preserves_isWellFormed (Plan.of m settings)).passes
    ((preserves_isWellFormed (Plan.of m settings)).isStack hx) hy
  have hmem := (hx.schedule_eq hm).1
  have hsame : i.id = d.id → i = d :=
    Function.eq_of_inst?_id (inst?_id_of_validate hm hmem hi) (inst?_id_of_validate hm hmem hd)
  have hstore := (hasNoRange_of_passes hm hx hd hrangeless hpointer hy).annotatedStore hrangeless
    hsame
  have ⟨n₁, hu, hv⟩ := hreads
  constructor
  · rintro rfl
    exact Body.visit_product_left hop hproduct hpinned hgiven hreads hwf.store
      (Body.maxAbs_operand hstore hu)
  · rintro rfl
    exact Body.visit_product_right hop hproduct hpinned hgiven hreads hwf.store
      (Body.maxAbs_operand hstore hv)

end Activations

end Plan

end Roundoff
