/-
# The stack of activations

The analysis of a function calls others, and these call others in turn; the activations that have
begun and not ended form a stack.  Its bottom is the activation of a function from which the
analysis starts, between the analyses of such functions there is none, and on top of an activation
comes that for one of its calls.

At every moment the number of activations of a function that its summary counts is the number of
those on the stack, since what is on top of an activation leaves the counts as it finds them.  A
call is followed only while its callee has fewer activations than its bound, so there are never
more.
-/
import Mathlib
import Roundoff.Analysis.Session
import Roundoff.Proofs.Analysis.Budget

namespace Roundoff

variable {R : Type} [Number R] {m : Module R} {settings : Settings} {J : Findings R → Prop}

namespace Plan

variable {p : Plan R} {s : Session R} {n : Symbol} {f g : Function R} {id : FunctionId}
  {w : Findings R} {x y : Start R} {xs : List (Start R)} {c : Call R (Findings R)}

/-! ## Activations that call each other -/

/-- Between the analyses of functions, which may have been analysed in any order, whether
successfully or not, the analysis is in the state `s`, and the first symbol in supply is `n`. -/
inductive Between (p : Plan R) : Session R → Symbol → Prop
  /-- No function has been analysed. -/
  | start (n : Symbol) : Between p (Session.start p.module n).1 (Session.start p.module n).2
  /-- One more function has been analysed. -/
  | next {s : Session R} {n : Symbol} (h : Between p s n) (id : FunctionId) :
      Between p (p.analyse s id n).1.2 (p.analyse s id n).2

/-- The beginning of the activation of a function from which the analysis starts. -/
def beginEntry (p : Plan R) (s : Session R) (f : Function R) (n : Symbol) : Start R :=
  let start := s.globals.seedArguments p.module f n
  ⟨f, { store := start.1 }, (s.findings.enter f.id).2, start.2⟩

/-- The calls that come up in an activation. -/
def callsOf (p : Plan R) (x : Start R) : List (Call R (Findings R)) :=
  let prepared := p.prepared x.function x.findings
  (p.body x.function).callsOf p.calls x.state prepared.2 prepared.1 x.supply

/-- The activation `x` has begun, called by the activations `xs`, the latest of which comes first. -/
inductive IsStack (p : Plan R) : Start R → List (Start R) → Prop
  /-- The analysis starts from a function with a body. -/
  | entry {s : Session R} {n : Symbol} {id : FunctionId} {f : Function R} (hs : p.Between s n)
      (hf : p.module.function? id = some f) (hbody : f.isDeclaration = false) :
      IsStack p (p.beginEntry s f n) []
  /-- A call is followed. -/
  | call {x : Start R} {xs : List (Start R)} {c : Call R (Findings R)} (hx : IsStack p x xs)
      (hc : c ∈ p.callsOf x) (hfollowed : p.IsFollowed c) : IsStack p (p.begin c) (x :: xs)

/-- The findings `w` occur while the activations `xs` are under way. -/
inductive Occurs (p : Plan R) : List (Start R) → Findings R → Prop
  /-- Between the analyses of functions no activation is under way. -/
  | between {s : Session R} {n : Symbol} (hs : p.Between s n) : Occurs p [] s.findings
  /-- An activation begins. -/
  | begun {x : Start R} {xs : List (Start R)} (hx : p.IsStack x xs) : Occurs p (x :: xs) x.findings
  /-- The schedule of an activation is kept. -/
  | prepared {x : Start R} {xs : List (Start R)} (hx : p.IsStack x xs) :
      Occurs p (x :: xs) (p.prepared x.function x.findings).2
  /-- A call comes up. -/
  | call {x : Start R} {xs : List (Start R)} {c : Call R (Findings R)} (hx : p.IsStack x xs)
      (hc : c ∈ p.callsOf x) : Occurs p (x :: xs) c.world
  /-- A call has been answered. -/
  | answered {x : Start R} {xs : List (Start R)} {c : Call R (Findings R)} (hx : p.IsStack x xs)
      (hc : c ∈ p.callsOf x) : Occurs p (x :: xs) (p.calls.answer c).1.2
  /-- The run of an activation has ended. -/
  | ended {x : Start R} {xs : List (Start R)} (hx : p.IsStack x xs) :
      Occurs p (x :: xs) (p.outcome p.calls x).1.world
  /-- The outcome of the activation for a call has been taken into the findings. -/
  | finished {x : Start R} {xs : List (Start R)} {c : Call R (Findings R)} (hx : p.IsStack x xs)
      (hc : c ∈ p.callsOf x) (hfollowed : p.IsFollowed c) :
      Occurs p (p.begin c :: x :: xs) (Plan.finished c (p.outcome p.calls (p.begin c)).1)
  /-- The activation of a function from which the analysis starts has been left, and its outcome is
  still to be taken into the findings. -/
  | left {s : Session R} {n : Symbol} {id : FunctionId} {f : Function R} (hs : p.Between s n)
      (hf : p.module.function? id = some f) (hbody : f.isDeclaration = false) :
      Occurs p [] ((p.outcome p.calls (p.beginEntry s f n)).1.world.leave f.id
        (s.findings.underWay f.id))

omit [Number R] in
lemma mem_functions_of_function? (hf : m.function? id = some f) : f ∈ m.functions :=
  Array.mem_of_getElem? hf

/-- The analysis of a function runs its activation, and leaves it before its outcome is taken into
the findings. -/
lemma analyseFunction_eq (p : Plan R) (s : Session R) (f : Function R) (n : Symbol) :
    p.analyseFunction s f n
      = let r := p.outcome p.calls (p.beginEntry s f n)
        let w := r.1.world.leave f.id (s.findings.underWay f.id)
        (match r.1.answer with
        | .error fault => (.error fault, { s with findings := w })
        | .ok _ => (.ok (), ⟨(s.globals.mergeGlobals r.1.state.store).mergeTargets r.1.state.store,
            w.finish f.id r.1.state⟩), r.2) := by
  rw [analyseFunction]
  dsimp only
  rw [Fresh.bind_apply, Fresh.bind_apply]
  generalize hr : p.outcome p.calls (p.beginEntry s f n) = r
  unfold outcome beginEntry at hr
  dsimp only at hr
  rw [hr]
  obtain ⟨⟨answer, a, w⟩, n⟩ := r
  cases answer with
  | error fault => rfl
  | ok _ => rfl

/-- Analysing several functions leads to a state between the analyses of functions. -/
lemma Between.analyseAll (hs : p.Between s n) (ids : List FunctionId) :
    p.Between (p.analyseAll s ids n).1.2.2 (p.analyseAll s ids n).2 := by
  induction ids generalizing s n with
  | nil => exact hs
  | cons id ids ih =>
    have h := ih (hs.next id)
    rw [Plan.analyseAll, Fresh.bind_apply]
    generalize p.analyse s id n = r at h ⊢
    obtain ⟨⟨answer, s'⟩, n'⟩ := r
    dsimp only at h ⊢
    rw [Fresh.bind_apply]
    generalize p.analyseAll s' ids n' = r at h ⊢
    obtain ⟨⟨analysed, failed, s''⟩, n''⟩ := r
    cases answer with
    | error fault => exact h
    | ok _ => exact h

/-- The analysis of a module ends when all functions asked for have been analysed. -/
lemma between_analyse (m : Module R) (settings : Settings) (n : Symbol) :
    (Plan.of m settings).Between
      ⟨(m.analyse settings n).1.globals, (m.analyse settings n).1.findings⟩
      (m.analyse settings n).2 := by
  have h : (Plan.of m settings).Between _ _ :=
    (Between.start (p := Plan.of m settings) n).analyseAll (m.entries settings)
  rw [Module.analyse, Fresh.bind_apply, Fresh.bind_apply]
  exact h

/-! ## Counting the stack -/

/-- The functions of the activations `xs` belong to the module, the counts are those of the stack
and within the bounds, and `J` holds of the findings. -/
structure IsCounted (p : Plan R) (J : Findings R → Prop) (xs : List (Start R)) (w : Findings R) :
    Prop where
  /-- The functions belong to the module. -/
  mem : ∀ x ∈ xs, x.function ∈ p.module.functions
  /-- The activations under way are those on the stack. -/
  underWay_eq : ∀ id, w.underWay id = (xs.map fun x => x.function.id).count id
  /-- They are no more than the bounds allow. -/
  underWay_le : ∀ f ∈ p.module.functions, w.underWay f.id ≤ max 1 (p.recursionBound f)
  /-- What the steps of the analysis keep holds. -/
  maintained : J w

omit [Number R] in
/-- Findings with the same counts are counted alike. -/
lemma IsCounted.congr {w' : Findings R} (h : p.IsCounted J xs w) (hcount : w'.underWay = w.underWay)
    (hJ : J w') : p.IsCounted J xs w' where
  mem := h.mem
  underWay_eq id := hcount ▸ h.underWay_eq id
  underWay_le f hf := hcount ▸ h.underWay_le f hf
  maintained := hJ

section Counted

variable (hids : m.DistinctIds) (hJ : (Plan.of m settings).Maintains J)
  (hempty : J Findings.empty)

include hids hJ

/-- An activation that begins is counted. -/
lemma IsCounted.enter (h : (Plan.of m settings).IsCounted J xs w) (hf : f ∈ m.functions)
    (hlt : w.underWay f.id < max 1 ((Plan.of m settings).recursionBound f))
    (hx : x.function = f) (hfindings : x.findings = (w.enter f.id).2) :
    (Plan.of m settings).IsCounted J (x :: xs) x.findings := by
  rw [hfindings]
  refine ⟨?_, fun id => ?_, fun g hg => ?_, hJ.enter f hf w hlt h.maintained⟩
  · rintro y (_ | ⟨_, hy⟩)
    · exact hx ▸ hf
    · exact h.mem y hy
  · rw [Findings.underWay_enter, List.map_cons, List.count_cons, h.underWay_eq, hx]
    by_cases hid : f.id = id <;> simp [hid]
  · rw [Findings.underWay_enter]
    split
    · next hid =>
      obtain rfl := hids f hf g hg hid
      exact hlt
    · exact h.underWay_le g hg

omit hids in
/-- At the end of an activation the counts are those at its beginning. -/
lemma IsCounted.outcome (h : (Plan.of m settings).IsCounted J (x :: xs) x.findings) :
    (Plan.of m settings).IsCounted J (x :: xs)
      ((Plan.of m settings).outcome (Plan.of m settings).calls x).1.world := by
  obtain ⟨hcount, hJ'⟩ := outcome_restores hJ (follow_restores hJ (Plan.of m settings).depth)
    (h.mem x List.mem_cons_self) h.maintained
  exact h.congr hcount hJ'

omit hids in
/-- The counts when a call comes up are those at the beginning of the activation. -/
lemma IsCounted.call (h : (Plan.of m settings).IsCounted J (x :: xs) x.findings)
    (hc : c ∈ (Plan.of m settings).callsOf x) :
    c.callee ∈ m.functions ∧ (Plan.of m settings).IsCounted J (x :: xs) c.world := by
  -- the calls answered before leave the counts as they find them
  have hprepared := hJ.prepared _ (h.mem x List.mem_cons_self) _ h.maintained
  have hcall := Body.isCallIn_of_mem_callsOf
    (restores_keeps (follow_restores hJ (Plan.of m settings).depth) x.function x.findings.underWay)
    ⟨underWay_prepared _ _ _, hprepared⟩ _ _ hc
  have hcallee := hcall.callee_mem
  rw [module_body] at hcallee
  exact ⟨hcallee, h.congr hcall.world.1 hcall.world.2⟩

/-- The activation of a function from which the analysis starts is counted. -/
lemma IsCounted.beginEntry (h : (Plan.of m settings).IsCounted J [] s.findings)
    (hf : f ∈ m.functions) (n : Symbol) : (Plan.of m settings).IsCounted J
      [(Plan.of m settings).beginEntry s f n] ((Plan.of m settings).beginEntry s f n).findings := by
  refine h.enter hids hJ hf ?_ rfl rfl
  rw [h.underWay_eq]
  exact lt_max_of_lt_left one_pos

/-- When it has been left, no activation is under way. -/
lemma IsCounted.left (h : (Plan.of m settings).IsCounted J [] s.findings) (hf : f ∈ m.functions)
    (n : Symbol) : (Plan.of m settings).IsCounted J [] (((Plan.of m settings).outcome
      (Plan.of m settings).calls ((Plan.of m settings).beginEntry s f n)).1.world.leave f.id
        (s.findings.underWay f.id)) := by
  have hend := (h.beginEntry hids hJ hf n).outcome hJ
  refine h.congr ?_ (hJ.leave f hf _ _ hend.maintained)
  funext id
  rw [Findings.underWay_leave, hend.underWay_eq, h.underWay_eq, h.underWay_eq]
  split
  · rfl
  · next hid => simp [Plan.beginEntry, hid]

include hempty

/-- Between the analyses of functions no activation is under way. -/
lemma Between.isCounted (hs : (Plan.of m settings).Between s n) :
    (Plan.of m settings).IsCounted J [] s.findings := by
  induction hs with
  | start n => exact ⟨nofun, fun id => rfl, fun f hf => Nat.zero_le _, hempty⟩
  | @next s n hs id ih =>
    rw [analyse]
    cases hf : (Plan.of m settings).module.function? id with
    | none => exact ih
    | some f =>
      have hmem : f ∈ m.functions := mem_functions_of_function? hf
      dsimp only
      by_cases hbody : f.isDeclaration = true
      · rw [if_pos hbody]
        exact ih
      · rw [if_neg hbody, analyseFunction_eq]
        have hleft := ih.left hids hJ hmem n
        dsimp only
        split
        · exact hleft
        · exact hleft.congr Findings.underWay_finish (hJ.finish f hmem _ _ hleft.maintained)

/-- **When an activation begins, the counts are those of the stack.** -/
lemma IsStack.isCounted (hx : (Plan.of m settings).IsStack x xs) :
    (Plan.of m settings).IsCounted J (x :: xs) x.findings := by
  induction hx with
  | entry hs hf _ =>
    exact (hs.isCounted hids hJ hempty).beginEntry hids hJ (mem_functions_of_function? hf) _
  | call _ hc hfollowed ih =>
    obtain ⟨hcallee, hcall⟩ := ih.call hJ hc
    exact hcall.enter hids hJ hcallee (lt_max_of_lt_right hfollowed) rfl rfl

/-- **The counts are those of the stack at every moment.** -/
theorem Occurs.isCounted (h : (Plan.of m settings).Occurs xs w) :
    (Plan.of m settings).IsCounted J xs w := by
  cases h with
  | between hs => exact hs.isCounted hids hJ hempty
  | begun hx => exact hx.isCounted hids hJ hempty
  | @prepared x xs hx =>
    have h := hx.isCounted hids hJ hempty
    exact h.congr (underWay_prepared _ _ _)
      (hJ.prepared _ (h.mem x List.mem_cons_self) _ h.maintained)
  | call hx hc => exact ((hx.isCounted hids hJ hempty).call hJ hc).2
  | answered hx hc =>
    obtain ⟨hcallee, h⟩ := (hx.isCounted hids hJ hempty).call hJ hc
    obtain ⟨hcount, hJ'⟩ := follow_restores hJ (Plan.of m settings).depth _ hcallee h.maintained
    exact h.congr hcount hJ'
  | ended hx => exact (hx.isCounted hids hJ hempty).outcome hJ
  | finished hx hc hfollowed =>
    have h := ((hx.call hc hfollowed).isCounted hids hJ hempty).outcome hJ
    obtain ⟨hcount, hJ'⟩ := finished_restores hJ (h.mem _ List.mem_cons_self) h.maintained
    exact h.congr hcount hJ'
  | left hs hf _ =>
    exact (hs.isCounted hids hJ hempty).left hids hJ (mem_functions_of_function? hf) _

end Counted

/-! ## The schedules that are kept -/

/-- The schedules that are kept are those of the functions. -/
def KeepsSchedules (p : Plan R) (w : Findings R) : Prop :=
  ∀ f ∈ p.module.functions, ∀ schedule, (w.summary f.id).schedule = some schedule →
    schedule = (p.body f).flow.schedule p.settings f

omit [Number R] in
lemma keepsSchedules_empty (p : Plan R) : p.KeepsSchedules Findings.empty :=
  fun _ _ _ h => nomatch h

omit [Number R] in
/-- An activation runs through the schedule of its function. -/
lemma KeepsSchedules.prepared_fst (h : p.KeepsSchedules w) (hf : f ∈ p.module.functions) :
    (p.prepared f w).1 = (p.body f).flow.schedule p.settings f := by
  rw [prepared]
  split
  · next schedule hs => exact h f hf schedule hs
  · rfl

/-- The analysis keeps the right schedules. -/
lemma maintains_keepsSchedules (hids : p.module.DistinctIds) : p.Maintains p.KeepsSchedules :=
  MaintainsSummaries.maintains
    (Q := fun f s => ∀ schedule, s.schedule = some schedule →
      schedule = (p.body f).flow.schedule p.settings f)
    ⟨fun _ _ _ _ h => (Option.some.inj h).symm, fun _ _ _ h => h, fun _ _ _ h => h,
      fun _ _ h => h, fun _ _ _ h => h⟩ hids

omit [Number R] in
/-- The bodies of the functions of a valid module are at their positions. -/
lemma body_eq_of_validate (hm : m.validate = .ok ()) (hf : f ∈ m.functions) :
    (Plan.of m settings).body f = Body.of m settings f := by
  have hget := function?_id_of_validate hm hf
  rw [Module.function?] at hget
  rw [body, Plan.of, Array.getElem?_map, hget]
  rfl

/-- The activations on the stack are of functions of the module, and run through their schedules. -/
lemma IsStack.schedule_eq (hm : m.validate = .ok ()) (hx : (Plan.of m settings).IsStack x xs) :
    x.function ∈ m.functions ∧ ((Plan.of m settings).prepared x.function x.findings).1
      = (Flow.of x.function).schedule settings x.function := by
  have hids := distinctIds_of_validate hm
  have hcounted := hx.isCounted hids (maintains_keepsSchedules hids) (keepsSchedules_empty _)
  have hmem : x.function ∈ m.functions := hcounted.mem x List.mem_cons_self
  refine ⟨hmem, ?_⟩
  rw [hcounted.maintained.prepared_fst hmem, body_eq_of_validate hm hmem]
  rfl

end Plan

end Roundoff
