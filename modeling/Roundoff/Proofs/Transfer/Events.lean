/-
# The visits of a run

The events of a run are the visits of blocks and the attempts to bound a loop in closed form, in the
order in which they happen.  They are read off the run itself.

Whether the visit of an instruction stops at a fault can be told from the program: neither what has
been found so far nor the answers to calls matter, as long as the instruction is not settled.  Only
closed forms settle instructions.  So a run without a successful closed form visits the blocks of
its schedule, with closed forms replaced by their fallbacks, up to the first block with a fault.
-/
import Mathlib
import Roundoff.Analysis.Calls
import Roundoff.Proofs.Transfer.Frame

namespace Roundoff

variable {R σ α β : Type}

/-! ## Computations -/

/-- From every symbol on, the result of a computation has the property. -/
def Fresh.Always (m : Fresh α) (P : α → Prop) : Prop := ∀ n, P (m n).1

namespace Fresh

variable {m : Fresh α} {f : α → Fresh β} {P : α → Prop} {Q : β → Prop}

lemma always_pure {a : α} (h : P a) : Always (pure a) P := fun _ => h

lemma always_true (m : Fresh α) : m.Always fun _ => True := fun _ => trivial

lemma Always.bind (hm : m.Always P) (hf : ∀ a, P a → (f a).Always Q) : (m >>= f).Always Q := by
  intro n
  rw [bind_apply]
  exact hf _ (hm n) _

lemma Ensures.always (h : m.Ensures P) : m.Always P := fun n => (h n).2

end Fresh

/-! ## Faults -/

variable [Number R]

namespace Body

/-- The fault at which the rule for the operation of an instruction stops. -/
def operationFault? (b : Body R) (i : Instruction R) : Option Fault :=
  match i.op with
  | .alloca ty =>
    match ty, i.info with
    | .struct _, some (.struct _) => none
    | _, some (.struct _) => some (.aggregateOnSlot b.function.name i.name)
    | _, _ => none
  | .call callee args | .invoke callee args _ _ =>
    if args = [] then (b.routine? callee).map (Fault.missingArgument b.function.name) else none
  | _ => none

/-- The fault at which the visit of an instruction stops that is not settled.  An annotated initial
error takes the place of the rule. -/
def fault? (b : Body R) (i : Instruction R) : Option Fault :=
  if i.scalarInfo?.any fun info => info.initialError.isSome then none else b.operationFault? i

/-- The fault at which the visit of a block stops. -/
def blockFault? (b : Body R) (v : Visit) : Option Fault :=
  (b.function.blockInsts v.block).findSome? b.fault?

/-- The visit stops at the fault, if there is one, and nothing is settled. -/
structure StopsAt (fault : Option Fault) (o : Outcome R σ α) : Prop where
  /-- The answer tells the fault. -/
  error_iff : ∀ e, o.answer = .error e ↔ fault = some e
  /-- Nothing is settled. -/
  pinned_eq : o.state.pinned = ∅

variable {b : Body R} {a : Activation R} {w : σ} {i : Instruction R} {h : CallHandler R σ}
  {edges : PhiEdges}

omit [Number R] in
lemma StopsAt.ok {o : Outcome R σ α} {x : α} (hanswer : o.answer = .ok x)
    (hpinned : o.state.pinned = ∅) : StopsAt none o := by
  refine ⟨fun e => ?_, hpinned⟩
  rw [hanswer]
  constructor
  · intro h
    cases h
  · intro h
    cases h

omit [Number R] in
lemma StopsAt.fault_eq_none {fault : Option Fault} {o : Outcome R σ α} (ho : StopsAt fault o)
    {x : α} (hanswer : o.answer = .ok x) : fault = none := by
  refine Option.eq_none_iff_forall_not_mem.2 fun e he => ?_
  have herror := (ho.error_iff e).2 he
  rw [hanswer] at herror
  cases herror

omit [Number R] in
lemma IsFramed.stopsAt {ks : Set Key} {o : Outcome R σ α} (ho : IsFramed a ks o)
    (ha : a.pinned = ∅) : StopsAt none o := by
  obtain ⟨x, hx⟩ := ho.answer_eq
  exact .ok hx (ho.frame.pinned_eq.trans ha)

omit [Number R] in
lemma operationFault?_of_isLocal (hi : b.IsLocal i) : b.operationFault? i = none := by
  rw [IsLocal] at hi
  rw [operationFault?]
  cases hop : i.op with
  | alloca ty =>
    rw [hop] at hi
    exact hi.elim
  | call callee args | invoke callee args _ _ =>
    rw [hop] at hi
    exact if_neg hi.2
  | _ => rfl

lemma call_stopsAt (ha : a.pinned = ∅) (callee : Callee R) (args : List (Value R)) :
    (b.call h a w i callee args).Always
      (StopsAt (if args = [] then (b.routine? callee).map (Fault.missingArgument b.function.name)
        else none)) := by
  rw [call]
  cases hroutine : b.routine? callee with
  | some f =>
    cases args with
    | nil =>
      rw [if_pos rfl]
      exact Fresh.always_pure ⟨fun e => by simp, ha⟩
    | cons arg args =>
      rw [if_neg (List.cons_ne_nil arg args)]
      intro n
      exact ((attempt_estimates (libraryCall_estimates f arg)).always n).toIsFramed.stopsAt ha
  | none =>
    rw [Option.map_none, ite_self]
    cases b.module.calleeBody? callee with
    | none => exact Fresh.always_pure (.ok rfl ha)
    | some f =>
      -- the callee may do anything, but what is settled belongs to the activation
      have hcall : (b.functionCall h a w i f args).Always fun r => r.2.1.pinned = ∅ := by
        refine (Fresh.always_true _).bind fun r _ => ?_
        dsimp only
        split
        · exact Fresh.always_pure ha
        · exact Fresh.always_pure ha
      exact hcall.bind fun r hr => Fresh.always_pure (.ok rfl hr)

lemma alloca_stopsAt (ha : a.pinned = ∅) {ty : Ty} (hop : i.op = .alloca ty) :
    (b.operate h edges a w i).Always (StopsAt (b.operationFault? i)) := by
  rw [operate, operationFault?, hop]
  dsimp only
  unfold alloca
  rcases i.info with _ | (info | infos)
  · cases ty <;> exact Fresh.always_pure (.ok rfl ha)
  · cases ty <;> exact Fresh.always_pure (.ok rfl ha)
  · -- only a struct can be annotated field by field
    cases ty with
    | struct id => exact fun n => .ok rfl ha
    | _ => exact Fresh.always_pure ⟨fun e => by simp, ha⟩

/-- The rule for an operation stops at its fault only. -/
lemma operate_stopsAt (ha : a.pinned = ∅) :
    (b.operate h edges a w i).Always (StopsAt (b.operationFault? i)) := by
  by_cases hi : b.IsLocal i
  · rw [operationFault?_of_isLocal hi]
    intro n
    exact ((operate_frame hi).always n).stopsAt ha
  · rw [IsLocal] at hi
    cases hop : i.op with
    | alloca ty => exact alloca_stopsAt ha hop
    | call callee args | invoke callee args _ _ =>
      rw [operate, operationFault?, hop]
      exact call_stopsAt ha callee args
    | _ =>
      rw [hop] at hi
      exact absurd trivial hi

/-- **The visit of an instruction stops at its fault only**, whatever has been found so far. -/
lemma visit_stopsAt (ha : a.pinned = ∅) :
    (b.visit h edges a w i).Always (StopsAt (b.fault? i)) := by
  have hcontains : ¬ a.pinned.contains i.id = true := by
    rw [ha]
    exact Bool.noConfusion
  rw [visit, if_neg hcontains, fault?]
  cases i.scalarInfo? with
  | none => exact operate_stopsAt ha
  | some info =>
    dsimp only [Option.any_some]
    split
    · exact (Fresh.always_true _).bind fun s _ => Fresh.always_pure (.ok rfl ha)
    · exact operate_stopsAt (a := { a with store := _ }) ha

lemma visitAll_stopsAt (ha : a.pinned = ∅) (is : List (Instruction R)) (count : ℕ) :
    (b.visitAll h edges count a w is).Always (StopsAt (is.findSome? b.fault?)) := by
  induction is generalizing a w count with
  | nil => exact Fresh.always_pure (.ok rfl ha)
  | cons i is ih =>
    rw [visitAll, List.findSome?_cons]
    refine (visit_stopsAt ha).bind fun o ho => ?_
    obtain ⟨answer, a', w'⟩ := o
    cases answer with
    | error e =>
      rw [(ho.error_iff e).1 rfl]
      exact Fresh.always_pure ⟨fun e' => by simp, ho.pinned_eq⟩
    | ok found =>
      rw [ho.fault_eq_none rfl]
      exact ih ho.pinned_eq _

/-- The visit of a block stops at its fault only. -/
lemma visitBlock_stopsAt (ha : a.pinned = ∅) (v : Visit) :
    (b.visitBlock h v a w).Always (StopsAt (b.blockFault? v)) :=
  visitAll_stopsAt ha _ 0

/-! ## The blocks that are reached -/

/-- The fault at which visits stop that are made one after the other. -/
def firstFault? (b : Body R) (vs : List Visit) : Option Fault := vs.findSome? b.blockFault?

omit [Number R] in
lemma firstFault?_cons (b : Body R) (v : Visit) (vs : List Visit) :
    b.firstFault? (v :: vs) = (b.blockFault? v).or (b.firstFault? vs) := by
  rw [firstFault?, List.findSome?_cons]
  cases b.blockFault? v <;> rfl

/-- The visits up to the first one with a fault. -/
def reached (b : Body R) : List Visit → List Visit
  | [] => []
  | v :: vs => v :: if (b.blockFault? v).isSome then [] else b.reached vs

omit [Number R] in
lemma reached_append (b : Body R) (us vs : List Visit) :
    b.reached (us ++ vs)
      = b.reached us ++ if (b.firstFault? us).isSome then [] else b.reached vs := by
  induction us with
  | nil => simp [reached, firstFault?]
  | cons u us ih =>
    rw [List.cons_append, reached, reached, ih, firstFault?_cons]
    cases b.blockFault? u with
    | none => rfl
    | some e => rfl

lemma runVisits_stopsAt (ha : a.pinned = ∅) (vs : List Visit) :
    (b.runVisits h a w vs).Always (StopsAt (b.firstFault? vs)) := by
  induction vs generalizing a w with
  | nil => exact Fresh.always_pure (.ok rfl ha)
  | cons v vs ih =>
    rw [runVisits, firstFault?_cons]
    refine (visitBlock_stopsAt ha v).bind fun o ho => ?_
    obtain ⟨answer, a', w'⟩ := o
    cases answer with
    | error e =>
      rw [(ho.error_iff e).1 rfl]
      exact Fresh.always_pure ⟨fun e' => by simp, ho.pinned_eq⟩
    | ok count =>
      rw [ho.fault_eq_none rfl]
      exact ih ho.pinned_eq

end Body

/-! ## Events -/

/-- Something that happens in a run. -/
inductive Event where
  /-- A block is visited. -/
  | visited (v : Visit)
  /-- The loop with the given header is bounded in closed form. -/
  | bounded (header : BlockId)
  /-- The loop with the given header cannot be bounded in closed form. -/
  | refused (header : BlockId)
deriving DecidableEq, Repr

namespace Event

/-- The visit, if the event is one. -/
def visit? : Event → Option Visit
  | visited v => some v
  | bounded _ | refused _ => none

/-- Whether a closed form has succeeded. -/
def isBounded : Event → Bool
  | bounded _ => true
  | visited _ | refused _ => false

/-- The visits among some events. -/
def visits (events : List Event) : List Visit := events.filterMap visit?

/-- All closed forms that have been tried have failed. -/
def AllRefused (events : List Event) : Prop := ∀ e ∈ events, e.isBounded = false

instance (events : List Event) : Decidable (AllRefused events) :=
  inferInstanceAs (Decidable (∀ e ∈ events, e.isBounded = false))

omit [Number R] in
@[simp] lemma visits_append (es es' : List Event) : visits (es ++ es') = visits es ++ visits es' :=
  List.filterMap_append

end Event

namespace Body

/-- The events of a run through visits. -/
def visitEvents (b : Body R) (h : CallHandler R σ) :
    Activation R → σ → Symbol → List Visit → List Event
  | _, _, _, [] => []
  | a, w, n, v :: vs =>
    let r := b.visitBlock h v a w n
    .visited v :: match r.1.answer with
      | .ok _ => b.visitEvents h r.1.state r.1.world r.2 vs
      | .error _ => []

/-- The events of a step of a schedule. -/
def itemEvents (b : Body R) (h : CallHandler R σ) (a : Activation R) (w : σ) (n : Symbol) :
    ScheduleItem → List Event
  | .visit v => b.visitEvents h a w n [v]
  | .closedForm header tripCount fallback =>
    let r := (b.closedForm a header tripCount.toNat).run n
    match r.1 with
    | .ok _ => [.bounded header]
    | .error _ => .refused header :: b.visitEvents h a w r.2 fallback

/-- The events of a run through a schedule. -/
def events (b : Body R) (h : CallHandler R σ) :
    Activation R → σ → Symbol → Schedule → List Event
  | _, _, _, [] => []
  | a, w, n, item :: items =>
    let r := b.runItem h a w item n
    b.itemEvents h a w n item ++ match r.1.answer with
      | .ok _ => b.events h r.1.state r.1.world r.2 items
      | .error _ => []

variable {b : Body R} {a : Activation R} {w : σ} {h : CallHandler R σ} {n : Symbol}

/-- A run through visits makes those up to the first fault. -/
lemma visits_visitEvents (ha : a.pinned = ∅) (vs : List Visit) :
    Event.visits (b.visitEvents h a w n vs) = b.reached vs := by
  induction vs generalizing a w n with
  | nil => rfl
  | cons v vs ih =>
    have hstop : StopsAt (b.blockFault? v) (b.visitBlock h v a w n).1 := visitBlock_stopsAt ha v n
    rw [visitEvents, reached]
    cases hanswer : (b.visitBlock h v a w n).1.answer with
    | error e =>
      rw [(hstop.error_iff e).1 hanswer]
      rfl
    | ok count =>
      rw [hstop.fault_eq_none hanswer]
      exact congrArg (List.cons v) (ih hstop.pinned_eq)

/-- A step that is not a successful closed form makes its visits up to the first fault. -/
lemma itemEvents_of_allRefused (ha : a.pinned = ∅) {item : ScheduleItem}
    (hrefused : Event.AllRefused (b.itemEvents h a w n item)) :
    StopsAt (b.firstFault? item.visits) (b.runItem h a w item n).1 ∧
      Event.visits (b.itemEvents h a w n item) = b.reached item.visits := by
  cases item with
  | visit v => exact ⟨runVisits_stopsAt ha [v] n, visits_visitEvents ha [v]⟩
  | closedForm header tripCount fallback =>
    rw [itemEvents] at hrefused ⊢
    rw [runItem, Fresh.bind_apply]
    cases hr : ((b.closedForm a header tripCount.toNat).run n).1 with
    | ok r =>
      rw [hr] at hrefused
      cases hrefused _ List.mem_cons_self
    | error obstacle =>
      exact ⟨runVisits_stopsAt ha fallback _, visits_visitEvents ha fallback⟩

/-- **A run in which all closed forms fail** visits the blocks of its schedule, with closed forms
replaced by their fallbacks, up to the first fault. -/
theorem visits_events (ha : a.pinned = ∅) {schedule : Schedule}
    (hrefused : Event.AllRefused (b.events h a w n schedule)) :
    Event.visits (b.events h a w n schedule) = b.reached schedule.visits := by
  induction schedule generalizing a w n with
  | nil => rfl
  | cons item items ih =>
    rw [events] at hrefused ⊢
    -- the step settles nothing, so the rest of the run starts as the whole run does
    obtain ⟨hstop, hvisits⟩ := itemEvents_of_allRefused ha
      fun e he => hrefused e (List.mem_append_left _ he)
    have hcons : Schedule.visits (item :: items) = item.visits ++ Schedule.visits items :=
      List.flatMap_cons
    rw [Event.visits_append, hvisits, hcons, reached_append]
    cases hanswer : (b.runItem h a w item n).1.answer with
    | error e =>
      rw [(hstop.error_iff e).1 hanswer]
      rfl
    | ok _ =>
      rw [hanswer] at hrefused
      rw [hstop.fault_eq_none hanswer]
      exact congrArg (b.reached item.visits ++ ·)
        (ih hstop.pinned_eq fun e he => hrefused e (List.mem_append_right _ he))

end Body

end Roundoff
