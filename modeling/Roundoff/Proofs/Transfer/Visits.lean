/-
# The visits of instructions in a run

A run visits instructions, block by block, and bounds loops in closed form.  The visits are read off
the run itself, each with the state from which it starts.  `Traces` lists the moments that a run may
pass through together with the visits made until then, whatever the schedule, so that a statement
about visits is proved by going from moment to moment.

A visit applies the rule for the operation of its instruction, unless the error of the instruction
is settled or given by an annotation.  It settles nothing, and only the visit of a comparison gives
a verdict, which replaces the one before.
-/
import Mathlib
import Roundoff.Proofs.Transfer.Runs

namespace Roundoff

/-! ## Moments and visits -/

/-- A moment of a run. -/
structure Moment (R σ : Type) where
  /-- The state of the activation. -/
  state : Activation R
  /-- The state of the analysis of the whole program. -/
  world : σ
  /-- The first symbol in supply. -/
  supply : Symbol

/-- The moment at which a part of a run ends. -/
def Moment.after {R σ α : Type} (r : Outcome R σ α × Symbol) : Moment R σ :=
  ⟨r.1.state, r.1.world, r.2⟩

/-- A visit of an instruction. -/
structure InstVisit (R : Type) where
  /-- The edges over which the block is entered. -/
  edges : PhiEdges
  /-- The instruction. -/
  inst : Instruction R
  /-- The state of the activation before the visit. -/
  state : Activation R
  /-- The first symbol in supply. -/
  supply : Symbol

variable {R σ : Type} [Number R]

namespace Body

/-- The visits that are made when instructions are visited one after the other. -/
def visitsOfInsts (b : Body R) (h : CallHandler R σ) (edges : PhiEdges) :
    Activation R → σ → Symbol → List (Instruction R) → List (InstVisit R)
  | _, _, _, [] => []
  | a, w, n, i :: is =>
    let r := b.visit h edges a w i n
    ⟨edges, i, a, n⟩ :: match r.1.answer with
      | .ok _ => b.visitsOfInsts h edges r.1.state r.1.world r.2 is
      | .error _ => []

/-- The visits of the instructions of blocks that are visited one after the other. -/
def visitsOfBlocks (b : Body R) (h : CallHandler R σ) :
    Activation R → σ → Symbol → List Visit → List (InstVisit R)
  | _, _, _, [] => []
  | a, w, n, v :: vs =>
    let r := b.visitBlock h v a w n
    b.visitsOfInsts h v.edges a w n (b.function.blockInsts v.block) ++ match r.1.answer with
      | .ok _ => b.visitsOfBlocks h r.1.state r.1.world r.2 vs
      | .error _ => []

/-- The visits of instructions in a step of a schedule. -/
def visitsOfItem (b : Body R) (h : CallHandler R σ) (a : Activation R) (w : σ) (n : Symbol) :
    ScheduleItem → List (InstVisit R)
  | .visit v => b.visitsOfBlocks h a w n [v]
  | .closedForm header tripCount fallback =>
    let r := (b.closedForm a header tripCount.toNat).run n
    match r.1 with
    | .ok _ => []
    | .error _ => b.visitsOfBlocks h a w r.2 fallback

/-- The visits of instructions in a run through a schedule. -/
def visitsOf (b : Body R) (h : CallHandler R σ) :
    Activation R → σ → Symbol → Schedule → List (InstVisit R)
  | _, _, _, [] => []
  | a, w, n, item :: items =>
    let r := b.runItem h a w item n
    b.visitsOfItem h a w n item ++ match r.1.answer with
      | .ok _ => b.visitsOf h r.1.state r.1.world r.2 items
      | .error _ => []

variable {b : Body R} {h : CallHandler R σ} {x y : Moment R σ} {a : Activation R} {w : σ}
  {n : Symbol} {vs : List (InstVisit R)} {i : Instruction R} {edges : PhiEdges} {id : InstId}

/-! ## From moment to moment -/

/-- The moments that a run may pass through from a given one, with the visits made until then:
instructions are visited and loops are bounded in closed form, in whatever order. -/
inductive Traces (b : Body R) (h : CallHandler R σ) (x : Moment R σ) :
    List (InstVisit R) → Moment R σ → Prop
  /-- A run starts. -/
  | start : Traces b h x [] x
  /-- An instruction is visited. -/
  | visit {vs : List (InstVisit R)} {y : Moment R σ} (hy : Traces b h x vs y) (edges : PhiEdges)
    {i : Instruction R} (hi : i ∈ b.function.insts) :
    Traces b h x (vs ++ [⟨edges, i, y.state, y.supply⟩])
      (.after (b.visit h edges y.state y.world i y.supply))
  /-- A loop is bounded. -/
  | bounded {vs : List (InstVisit R)} {y : Moment R σ} (hy : Traces b h x vs y) {header : BlockId}
    {k : ℕ} {l : LoopBound R} {a : Activation R} {n : Symbol}
    (hbound : (b.closedForm y.state header k).run y.supply = (.ok (l, a), n)) :
    Traces b h x vs ⟨a, y.world, n⟩
  /-- A loop has no closed form, and all is as before. -/
  | givenUp {vs : List (InstVisit R)} {y : Moment R σ} (hy : Traces b h x vs y) {header : BlockId}
    {k : ℕ} {o : Obstacle R} {n : Symbol}
    (hbound : (b.closedForm y.state header k).run y.supply = (.error o, n)) :
    Traces b h x vs ⟨y.state, y.world, n⟩

namespace Traces

lemma visitAll (hx : b.Traces h x vs ⟨a, w, n⟩) (edges : PhiEdges) {is : List (Instruction R)}
    (his : ∀ i ∈ is, i ∈ b.function.insts) (count : ℕ) :
    b.Traces h x (vs ++ b.visitsOfInsts h edges a w n is)
      (.after (b.visitAll h edges count a w is n)) := by
  induction is generalizing a w n vs count with
  | nil =>
    rw [visitsOfInsts, List.append_nil]
    exact hx
  | cons i is ih =>
    have hvisit := hx.visit edges (his i List.mem_cons_self)
    rw [Body.visitAll, Fresh.bind_apply, visitsOfInsts, List.append_cons]
    generalize b.visit h edges a w i n = r at hvisit ⊢
    obtain ⟨⟨answer, a', w'⟩, n'⟩ := r
    cases answer with
    | error fault =>
      rw [List.append_nil]
      exact hvisit
    | ok found => exact ih hvisit (fun j hj => his j (List.mem_cons_of_mem _ hj)) _

lemma visitBlock (hx : b.Traces h x vs ⟨a, w, n⟩) (v : Visit) :
    b.Traces h x (vs ++ b.visitsOfInsts h v.edges a w n (b.function.blockInsts v.block))
      (.after (b.visitBlock h v a w n)) := by
  refine hx.visitAll v.edges (fun i hi => ?_) 0
  obtain ⟨id, hid⟩ := Function.exists_inst?_of_mem_blockInsts hi
  exact Array.mem_of_getElem? hid

lemma runVisits (hx : b.Traces h x vs ⟨a, w, n⟩) (us : List Visit) :
    b.Traces h x (vs ++ b.visitsOfBlocks h a w n us) (.after (b.runVisits h a w us n)) := by
  induction us generalizing a w n vs with
  | nil =>
    rw [visitsOfBlocks, List.append_nil]
    exact hx
  | cons v us ih =>
    have hblock := hx.visitBlock v
    rw [Body.runVisits, Fresh.bind_apply, visitsOfBlocks, ← List.append_assoc]
    generalize b.visitBlock h v a w n = r at hblock ⊢
    obtain ⟨⟨answer, a', w'⟩, n'⟩ := r
    cases answer with
    | error fault =>
      rw [List.append_nil]
      exact hblock
    | ok found => exact ih hblock

lemma runItem (hx : b.Traces h x vs ⟨a, w, n⟩) (item : ScheduleItem) :
    b.Traces h x (vs ++ b.visitsOfItem h a w n item) (.after (b.runItem h a w item n)) := by
  cases item with
  | visit v => exact hx.runVisits [v]
  | closedForm header tripCount fallback =>
    rw [Body.runItem, Fresh.bind_apply, visitsOfItem]
    cases hr : (b.closedForm a header tripCount.toNat).run n with
    | mk answer n' =>
      cases answer with
      | error o => exact (hx.givenUp hr).runVisits fallback
      | ok r =>
        dsimp only
        rw [List.append_nil]
        exact hx.bounded hr

/-- **A run makes its visits**, and ends at a moment that it passes through. -/
theorem runSchedule (hx : b.Traces h x vs ⟨a, w, n⟩) (schedule : Schedule) :
    b.Traces h x (vs ++ b.visitsOf h a w n schedule)
      (.after (b.runSchedule h a w schedule n)) := by
  induction schedule generalizing a w n vs with
  | nil =>
    rw [visitsOf, List.append_nil]
    exact hx
  | cons item items ih =>
    have hitem := hx.runItem item
    rw [Body.runSchedule, Fresh.bind_apply, visitsOf, ← List.append_assoc]
    generalize b.runItem h a w item n = r at hitem ⊢
    obtain ⟨⟨answer, a', w'⟩, n'⟩ := r
    cases answer with
    | error fault =>
      rw [List.append_nil]
      exact hitem
    | ok _ => exact ih hitem

end Traces

/-- The visits of blocks that follow no calls end at a moment that is passed through. -/
lemma exists_traces_visitBlocks {x : Moment R Unit} {a a' : Activation R} {n n' : Symbol}
    {vs : List (InstVisit R)} (hx : b.Traces CallHandler.none x vs ⟨a, (), n⟩)
    {blocks : List BlockId} (hblocks : b.visitBlocks a blocks n = (.ok a', n')) :
    ∃ us, b.Traces CallHandler.none x us ⟨a', (), n'⟩ := by
  induction blocks generalizing a n vs with
  | nil =>
    cases hblocks
    exact ⟨_, hx⟩
  | cons block blocks ih =>
    have hblock := hx.visitBlock ⟨block, .all⟩
    rw [Body.visitBlocks, Fresh.bind_apply] at hblocks
    generalize b.visitBlock CallHandler.none ⟨block, .all⟩ a () n = r at hblock hblocks
    obtain ⟨⟨answer, a₁, w⟩, n₁⟩ := r
    cases answer with
    | error fault => cases hblocks
    | ok _ => exact ih hblock hblocks

/-! ## One visit -/

/-- The store from which an instruction reads its operands: an annotated range takes the place of
the one recorded for its result. -/
def annotatedStore (b : Body R) (s : Store R) (i : Instruction R) : Store R :=
  match i.scalarInfo? with
  | some info => s.setRange (b.key i) info.rangeOrZero
  | none => s

end Body

omit [Number R] in
/-- Whether the error of the result of an instruction is given by its annotation. -/
def Instruction.isGiven (i : Instruction R) : Bool :=
  i.scalarInfo?.any fun info => info.initialError.isSome

namespace Body

variable {b : Body R} {h : CallHandler R σ} {x y : Moment R σ} {a : Activation R} {w : σ}
  {n : Symbol} {vs : List (InstVisit R)} {i : Instruction R} {edges : PhiEdges} {id : InstId}

/-- The rule for its operation is applied to an instruction whose error is neither settled nor
given. -/
lemma visit_eq_operate (hpinned : a.pinned.contains i.id = false) (hgiven : i.isGiven = false) :
    b.visit h edges a w i
      = b.operate h edges { a with store := b.annotatedStore a.store i } w i := by
  rw [visit, hpinned, annotatedStore]
  rw [Instruction.isGiven] at hgiven
  cases hinfo : i.scalarInfo? with
  | none => rfl
  | some info =>
    rw [hinfo, Option.any_some] at hgiven
    dsimp only
    rw [hgiven]
    rfl

/-- The function with a body that an instruction calls, with the arguments. -/
def calledBody? (b : Body R) (i : Instruction R) : Option (Function R × List (Value R)) :=
  i.op.callSite?.bind fun site =>
    if (b.routine? site.1).isSome then none
    else (b.module.calleeBody? site.1).map fun f => (f, site.2)

/-- A visit follows no call and gives no verdict, and sets estimates for the given keys only. -/
structure LeavesAlone {α : Type} (a : Activation R) (w : σ) (ks : Set Key) (o : Outcome R σ α) :
    Prop where
  /-- The analysis of the whole program goes on as before. -/
  world_eq : o.world = w
  /-- Nothing is settled, and only estimates of the keys have been set. -/
  frame : a.Frame o.state ks
  /-- There are no new verdicts. -/
  verdicts_eq : o.state.verdicts = a.verdicts

/-- An instruction whose error is settled or given gets an estimate at most. -/
lemma visit_leavesAlone (hrule : a.pinned.contains i.id = true ∨ i.isGiven = true) (n : Symbol) :
    LeavesAlone a w {b.key i} (b.visit h edges a w i n).1 := by
  rw [visit]
  split
  · exact ⟨rfl, .refl a _, rfl⟩
  · next hpinned =>
    have hgiven : i.isGiven = true := hrule.resolve_left hpinned
    rw [Instruction.isGiven] at hgiven
    cases hinfo : i.scalarInfo? with
    | none =>
      rw [hinfo] at hgiven
      cases hgiven
    | some info =>
      rw [hinfo, Option.any_some] at hgiven
      dsimp only
      rw [if_pos hgiven]
      exact ⟨rfl, ⟨rfl, ((ensures_seed a.store (b.key i) info).from n).2⟩, rfl⟩

omit [Number R] in
lemma attempt_world (rule : Attempt (Activation R)) (n : Symbol) :
    (attempt a w rule n).1.world = w := by
  rw [attempt, Fresh.bind_apply]
  obtain ⟨_ | a', n'⟩ := rule.run n
  · rfl
  · rfl

lemma alloca_leavesAlone {ty : Ty} (hop : i.op = .alloca ty) (n : Symbol) :
    LeavesAlone a w (b.written i) (b.operate h edges a w i n).1 := by
  have halloca : Fresh.EnsuresFrom n (b.operate h edges a w i)
      (LeavesAlone a w (b.written i)) := by
    rw [operate, hop]
    refine Fresh.EnsuresFrom.bind (alloca_estimates (b := b) (a := a) (i := i) ty n)
      fun r n' _ hr => ?_
    cases r with
    | error fault => exact Fresh.ensuresFrom_pure ⟨rfl, .refl a _, rfl⟩
    | ok o =>
      cases o with
      | none => exact Fresh.ensuresFrom_pure ⟨rfl, .refl a _, rfl⟩
      | some a' =>
        have ha' := hr _ rfl a' rfl
        exact Fresh.ensuresFrom_pure
          ⟨rfl, ha'.mono (Set.empty_subset _), ha'.verdicts_eq⟩
  exact halloca.2

lemma call_leavesAlone {callee : Callee R} {args : List (Value R)}
    (hop : i.op.callSite? = some (callee, args)) (hbody : b.calledBody? i = none) (n : Symbol) :
    LeavesAlone a w (b.written i) (b.call h a w i callee args n).1 := by
  rw [calledBody?, hop, Option.bind_some] at hbody
  rw [call]
  cases hroutine : b.routine? callee with
  | some f =>
    cases args with
    | nil => exact ⟨rfl, .refl a _, rfl⟩
    | cons arg args =>
      have hrule : IsEstimated a {b.key i} (attempt a w (b.libraryCall a i f arg) n).1 :=
        ((attempt_estimates (libraryCall_estimates f arg)).from n).2
      exact ⟨attempt_world _ n, hrule.frame.mono (Set.singleton_subset_iff.2 (b.key_mem_written i)),
        hrule.verdicts_eq⟩
  | none =>
    rw [hroutine] at hbody
    rw [Option.map_eq_none_iff.1 hbody]
    exact ⟨rfl, .refl a _, rfl⟩

/-- An instruction that calls no function with a body, and is no comparison, leaves alone what it
does not write. -/
lemma operate_leavesAlone (hbody : b.calledBody? i = none) (hcompared : i.op.compared? = none)
    (n : Symbol) :
    LeavesAlone a w (b.written i) (b.operate h edges a w i n).1 := by
  cases hop : i.op with
  | alloca ty => exact alloca_leavesAlone hop n
  | call callee args | invoke callee args _ _ =>
    rw [operate, hop]
    exact call_leavesAlone (by rw [hop]; rfl) hbody n
  | _ =>
    have hi : b.IsLocal i := by
      rw [IsLocal, hop]
      trivial
    have hrule : IsEstimated a (b.written i) (b.operate h edges a w i n).1 :=
      ((operate_estimates hi hcompared).from n).2
    refine ⟨?_, hrule.frame, hrule.verdicts_eq⟩
    rw [operate, hop]
    first | exact attempt_world _ n | rfl

/-- An instruction that calls a function with a body hands the call to the analysis of the program. -/
lemma operate_of_calledBody? {f : Function R} {args : List (Value R)}
    (hbody : b.calledBody? i = some (f, args)) :
    b.operate h edges a w i = (do
      let r ← b.functionCall h a w i f args
      return ⟨.ok r.1, r.2.1, r.2.2⟩) := by
  obtain ⟨⟨callee, args'⟩, hsite, hbody⟩ := Option.bind_eq_some_iff.1 hbody
  have hcall : b.operate h edges a w i = b.call h a w i callee args' := by
    rw [operate]
    cases hop : i.op with
    | call | invoke =>
      rw [hop] at hsite
      cases hsite
      rfl
    | _ =>
      rw [hop] at hsite
      cases hsite
  rw [hcall, call]
  cases hroutine : b.routine? callee with
  | some r =>
    rw [hroutine] at hbody
    cases hbody
  | none =>
    rw [hroutine] at hbody
    obtain ⟨g, hg, heq⟩ := Option.map_eq_some_iff.1 hbody
    cases heq
    dsimp only at hg
    rw [hg]

/-- A call of a function gives no verdict, and settles nothing. -/
lemma functionCall_marks (callee : Function R) (args : List (Value R)) (n : Symbol) :
    (b.functionCall h a w i callee args n).1.2.1.pinned = a.pinned ∧
      (b.functionCall h a w i callee args n).1.2.1.verdicts = a.verdicts := by
  obtain ⟨_, _, -, heq⟩ := functionCall_eq (b := b) (a := a) (i := i) h callee args n
  rw [heq]
  exact ⟨rfl, rfl⟩

/-! ## Comparisons -/

/-- The operands of a comparison.  A constant is read in the format of the other operand. -/
def comparedOperands (b : Body R) (s : Store R) (lhs rhs : Value R) :
    Attempt (Operand R × Operand R) :=
  Attempt.both (b.operand s lhs (b.formatOf? s rhs)) (b.operand s rhs (b.formatOf? s lhs))

/-- The verdict that the visit of a comparison gives if there are data for both operands. -/
def verdict? (b : Body R) (v : InstVisit R) : Option (Verdict R) :=
  if v.inst.isGiven then none
  else v.inst.op.compared?.bind fun p =>
    ((b.comparedOperands (b.annotatedStore v.state.store v.inst) p.1 p.2).run v.supply).1.map
      fun q => q.1.compare q.2 b.settings.cmpErrorThreshold

lemma operate_of_compared? {lhs rhs : Value R} (hop : i.op.compared? = some (lhs, rhs)) :
    b.operate h edges a w i = attempt a w (b.comparison a i lhs rhs) := by
  rw [operate]
  cases hkind : i.op with
  | icmp _ l r | fcmp _ l r =>
    rw [hkind] at hop
    cases hop
    rfl
  | _ =>
    rw [hkind] at hop
    cases hop

/-- **An instruction that calls no function with a body** leaves alone what it does not write. -/
lemma operate_frame_of_calledBody? (hbody : b.calledBody? i = none) (n : Symbol) :
    (b.operate h edges a w i n).1.world = w ∧
      a.Frame (b.operate h edges a w i n).1.state (b.written i) := by
  cases hop : i.op.compared? with
  | none =>
    have hrule : LeavesAlone a w (b.written i) (b.operate h edges a w i n).1 :=
      operate_leavesAlone hbody hop n
    exact ⟨hrule.world_eq, hrule.frame⟩
  | some p =>
    have hi : b.IsLocal i := by
      rw [IsLocal]
      cases hkind : i.op <;> rw [hkind] at hop <;> trivial
    have hframe : IsFramed a (b.written i) (b.operate h edges a w i n).1 :=
      ((operate_frame hi).from n).2
    refine ⟨?_, hframe.frame⟩
    rw [operate_of_compared? hop]
    exact attempt_world _ n

/-- A visit of an instruction that calls no function with a body sets estimates only for what the
instruction writes. -/
lemma visit_frame_of_calledBody? (hbody : b.calledBody? i = none) (n : Symbol) :
    a.Frame (b.visit h edges a w i n).1.state (b.written i) := by
  by_cases hrule : a.pinned.contains i.id = true ∨ i.isGiven = true
  · have hvisit : LeavesAlone a w {b.key i} (b.visit h edges a w i n).1 := visit_leavesAlone hrule n
    exact hvisit.frame.mono (Set.singleton_subset_iff.2 (b.key_mem_written i))
  · obtain ⟨hp, hgiven⟩ := not_or.1 hrule
    rw [visit_eq_operate (Bool.not_eq_true _ ▸ hp) (Bool.not_eq_true _ ▸ hgiven)]
    have hannotated : a.Frame { a with store := b.annotatedStore a.store i } (b.written i) := by
      refine ⟨rfl, ?_⟩
      dsimp only
      rw [annotatedStore]
      split
      · exact (a.store.writes_setRange _ _).mono (Set.singleton_subset_iff.2 (b.key_mem_written i))
      · exact .refl _ _
    exact hannotated.trans (operate_frame_of_calledBody?
      (a := { a with store := b.annotatedStore a.store i }) hbody n).2

/-- A comparison gives a verdict if there are data for both operands. -/
lemma comparison_state (lhs rhs : Value R) (n : Symbol) :
    (attempt a w (b.comparison a i lhs rhs) n).1.state =
      (((b.comparedOperands a.store lhs rhs).run n).1.map fun p =>
        { a with verdicts :=
            a.verdicts.insert i.id (p.1.compare p.2 b.settings.cmpErrorThreshold) }).getD a := by
  have hcomparison : b.comparison a i lhs rhs = (do
      let p ← b.comparedOperands a.store lhs rhs
      return { a with verdicts :=
        a.verdicts.insert i.id (p.1.compare p.2 b.settings.cmpErrorThreshold) }) := rfl
  rw [hcomparison, attempt, Fresh.bind_apply, OptionT.run_bind, Option.elimM, Fresh.bind_apply]
  generalize (b.comparedOperands a.store lhs rhs).run n = r
  obtain ⟨_ | p, n'⟩ := r
  · rfl
  · rfl

/-- **A visit settles nothing**, and the verdict that it gives replaces the one before. -/
theorem visit_marks (hpinned : a.pinned.contains i.id = true → i.op.compared? = none) (n : Symbol) :
    (b.visit h edges a w i n).1.state.pinned = a.pinned ∧
    (b.visit h edges a w i n).1.state.verdicts
      = (b.verdict? ⟨edges, i, a, n⟩).elim a.verdicts (a.verdicts.insert i.id) := by
  by_cases hrule : a.pinned.contains i.id = true ∨ i.isGiven = true
  · have hvisit : LeavesAlone a w {b.key i} (b.visit h edges a w i n).1 :=
      visit_leavesAlone hrule n
    have hverdict : b.verdict? ⟨edges, i, a, n⟩ = none := by
      rw [verdict?]
      rcases hrule with hp | hgiven
      · dsimp only
        rw [hpinned hp, Option.bind_none, ite_self]
      · exact if_pos hgiven
    rw [hverdict]
    exact ⟨hvisit.frame.pinned_eq, hvisit.verdicts_eq⟩
  · obtain ⟨hp, hgiven⟩ := not_or.1 hrule
    rw [visit_eq_operate (Bool.not_eq_true _ ▸ hp) (Bool.not_eq_true _ ▸ hgiven), verdict?,
      if_neg hgiven]
    cases hop : i.op.compared? with
    | none =>
      cases hbody : b.calledBody? i with
      | none =>
        have hrule : LeavesAlone { a with store := b.annotatedStore a.store i } w (b.written i)
            (b.operate h edges { a with store := b.annotatedStore a.store i } w i n).1 :=
          operate_leavesAlone hbody hop n
        exact ⟨hrule.frame.pinned_eq, hrule.verdicts_eq⟩
      | some site =>
        rw [operate_of_calledBody? hbody, Fresh.bind_apply]
        exact functionCall_marks site.1 site.2 n
    | some p =>
      rw [operate_of_compared? hop, comparison_state, Option.bind_some]
      dsimp only
      generalize (b.comparedOperands (b.annotatedStore a.store i) p.1 p.2).run n = r
      obtain ⟨_ | q, n'⟩ := r
      · exact ⟨rfl, rfl⟩
      · exact ⟨rfl, rfl⟩

end Body

end Roundoff
