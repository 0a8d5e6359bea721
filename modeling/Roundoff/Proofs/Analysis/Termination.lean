/-
# Bounds of recursion, and the end of the analysis

The bound of a function limits how many of its activations are under way at a time, a bound of zero
counting as one, since the analysis may start from the function all the same.  So the stack is never
higher than the bounds of all functions together, and a call whose callee has reached its bound is
counted as skipped and changes nothing else.

Without closed forms a schedule is a finite list of visits.  An activation makes them one after the
other, and begins others for calls.  Either way less remains to be done: of what the bounds of the
functions allow, or, for as long as the activation lasts, of the steps of its schedule.  So the
analysis ends for all functions that call each other, in whatever way, and the depth to which calls
are followed never cuts it off: the answer to a call is what its activation makes of it.

Neither do the other depths, which bound the searches over blocks, memory states and functions, and
the walks over loops.  Pointers that are computed in a circle are given up after as many steps as
there are instructions.
-/
import Mathlib
import Roundoff.Proofs.Analysis.CallOrder
import Roundoff.Proofs.Analysis.Stack
import Roundoff.Proofs.Flow.Depth
import Roundoff.Proofs.Flow.Fallback
import Roundoff.Proofs.Memory.Blocks
import Roundoff.Proofs.Number.Exact

namespace Roundoff

section Recursion

variable {R : Type} [Number R] {m : Module R} {settings : Settings}

namespace Plan

variable {p : Plan R} {s : Session R} {n : Symbol} {f : Function R} {w : Findings R} {x : Start R}
  {xs : List (Start R)} {c : Call R (Findings R)}

/-! ## Answers to calls -/

/-- How a call that comes up in the activation `x` is answered. -/
inductive IsAnswered (p : Plan R) (x : Start R) (xs : List (Start R)) (c : Call R (Findings R)) :
    Prop
  /-- The callee is activated on top of the caller, and its outcome is merged. -/
  | activated (hfollowed : p.IsFollowed c) (hstack : p.IsStack (p.begin c) (x :: xs))
      (hactivations : ((p.begin c).findings.summary c.callee.id).activations
        = (c.world.summary c.callee.id).activations + 1)
      (hskipped : ∀ id, ((p.begin c).findings.summary id).skipped = (c.world.summary id).skipped)
      (hanswer : p.calls.answer c = p.conclude c (p.outcome p.calls (p.begin c)))
  /-- The callee has reached its bound, and the call is counted as skipped. -/
  | skipped {w : Findings R} (hbound : ¬ p.IsFollowed c)
      (hanswer : p.calls.answer c = ((c.store, w), c.supply))
      (hskipped : ∀ id, w.summary id = if c.callee.id = id then
        { c.world.summary id with skipped := (c.world.summary id).skipped + 1 }
        else c.world.summary id)

/-- The analysis counts the activations of functions, and keeps them within the bounds. -/
structure CountsActivations (p : Plan R) : Prop where
  /-- At every moment a function counts its activations on the stack. -/
  underWay_eq : ∀ xs w, p.Occurs xs w →
    ∀ id, w.underWay id = (xs.map fun x => x.function.id).count id
  /-- At every moment they are no more than its bound, or one if the bound is zero. -/
  underWay_le : ∀ xs w, p.Occurs xs w →
    ∀ f ∈ p.module.functions, w.underWay f.id ≤ max 1 (p.recursionBound f)
  /-- So are they at the worst moment so far. -/
  peak_le : ∀ xs w, p.Occurs xs w →
    ∀ f ∈ p.module.functions, (w.summary f.id).peak ≤ max 1 (p.recursionBound f)
  /-- The stack is no higher than the bounds of all functions together. -/
  length_le : ∀ xs w, p.Occurs xs w →
    xs.length ≤ (p.module.functions.toList.map fun f => max 1 (p.recursionBound f)).sum
  /-- When a function has been analysed, successfully or not, no activation is under way. -/
  underWay_eq_zero : ∀ s n, p.Between s n → ∀ id, s.findings.underWay id = 0
  /-- A call activates its callee, or counts as skipped. -/
  isAnswered : ∀ x xs, p.IsStack x xs → ∀ c ∈ p.callsOf x, p.IsAnswered x xs c

/-- A call that comes up in an activation is answered by an activation whose own calls are answered
in the same way. -/
lemma IsStack.answer_eq (hm : m.validate = .ok ()) (hx : (Plan.of m settings).IsStack x xs)
    (hc : c ∈ (Plan.of m settings).callsOf x) :
    (Plan.of m settings).calls.answer c
      = (Plan.of m settings).respond (Plan.of m settings).calls c := by
  -- the caller is on the stack, so some of the bounds has been used up
  have htrue := maintains_true (Plan.of m settings)
  have hcounted := hx.isCounted (distinctIds_of_validate hm) htrue trivial
  obtain ⟨hcallee, hcall⟩ := hcounted.call htrue hc
  have hmem := hcall.mem x List.mem_cons_self
  refine answer_calls_eq hcallee (budget_lt_depth hmem ?_)
  rw [hcall.underWay_eq, List.map_cons, List.count_cons_self]
  exact Nat.succ_pos _

/-- A call that comes up activates its callee, or counts as skipped. -/
lemma IsStack.isAnswered (hm : m.validate = .ok ()) (hx : (Plan.of m settings).IsStack x xs)
    (hc : c ∈ (Plan.of m settings).callsOf x) : (Plan.of m settings).IsAnswered x xs c := by
  have hanswer := hx.answer_eq hm hc
  rw [respond] at hanswer
  by_cases hf : (Plan.of m settings).IsFollowed c
  · rw [if_pos hf] at hanswer
    refine .activated hf (hx.call hc hf) ?_ (fun id => ?_) hanswer
    · rw [begin, Findings.summary_enter, if_pos rfl]
      rfl
    · rw [begin, Findings.summary_enter]
      split
      · next hid => rw [hid]; rfl
      · rfl
  · rw [if_neg hf] at hanswer
    refine .skipped hf hanswer fun id => ?_
    rw [Findings.summary_skip]
    split
    · next hid => rw [hid]
    · rfl

/-- The largest numbers of activations stay within the bounds. -/
lemma maintains_peak (hids : p.module.DistinctIds) :
    p.Maintains fun w => ∀ f ∈ p.module.functions,
      (w.summary f.id).peak ≤ max 1 (p.recursionBound f) :=
  MaintainsSummaries.maintains (Q := fun f s => s.peak ≤ max 1 (p.recursionBound f))
    ⟨fun _ _ h => h, fun _ _ hlt h => max_le h hlt, fun _ _ _ h => h, fun _ _ h => h,
      fun _ _ _ h => h⟩ hids

/-! ## The height of the stack -/

omit [Number R] in
lemma length_le_sum_count {α : Type} [DecidableEq α] {xs ys : List α} (h : ∀ x ∈ xs, x ∈ ys) :
    xs.length ≤ (ys.map fun y => xs.count y).sum := by
  induction xs with
  | nil => exact Nat.zero_le _
  | cons x xs ih =>
    have hcount : (ys.map fun y => (x :: xs).count y).sum
        = (ys.map fun y => xs.count y).sum + (ys.map fun y => if x = y then 1 else 0).sum := by
      rw [← List.sum_map_add]
      simp [List.count_cons]
    -- the first item is counted at its place in `ys`
    have hone : 1 ≤ (ys.map fun y => if x = y then 1 else 0).sum := by
      refine List.single_le_sum (fun _ _ => Nat.zero_le _) 1 (List.mem_map.2 ⟨x, ?_, if_pos rfl⟩)
      exact h x List.mem_cons_self
    have hrest := ih fun y hy => h y (List.mem_cons_of_mem _ hy)
    rw [hcount, List.length_cons]
    omega

omit [Number R] in
/-- The stack is no higher than the bounds together. -/
lemma IsCounted.length_le {J : Findings R → Prop} (h : p.IsCounted J xs w) :
    xs.length ≤ (p.module.functions.toList.map fun f => max 1 (p.recursionBound f)).sum := by
  have hids : ∀ id ∈ xs.map (fun x => x.function.id),
      id ∈ p.module.functions.toList.map Function.id := by
    intro id hid
    obtain ⟨x, hx, rfl⟩ := List.mem_map.1 hid
    exact List.mem_map_of_mem (Array.mem_toList_iff.2 (h.mem x hx))
  have hlen := length_le_sum_count hids
  rw [List.length_map, List.map_map] at hlen
  refine hlen.trans (List.sum_le_sum fun f hf => ?_)
  exact (h.underWay_eq f.id).symm.trans_le (h.underWay_le f (Array.mem_toList_iff.1 hf))

/-- **The analysis of a valid module counts the activations on the stack, and keeps them within the
bounds.** -/
theorem countsActivations (hm : m.validate = .ok ()) (settings : Settings) :
    (Plan.of m settings).CountsActivations := by
  have hids := distinctIds_of_validate hm
  have hcounted : ∀ {xs w}, (Plan.of m settings).Occurs xs w →
      (Plan.of m settings).IsCounted _ xs w := fun h =>
    h.isCounted hids (maintains_peak hids) fun f hf => Nat.zero_le _
  exact {
    underWay_eq := fun xs w h => (hcounted h).underWay_eq
    underWay_le := fun xs w h => (hcounted h).underWay_le
    peak_le := fun xs w h => (hcounted h).maintained
    length_le := fun xs w h => (hcounted h).length_le
    underWay_eq_zero := fun s n hs => (hcounted (.between hs)).underWay_eq
    isAnswered := fun x xs hx c hc => hx.isAnswered hm hc }

end Plan

/-! ## A function that calls itself -/

namespace SelfCall

/-- The function calls itself and returns. -/
def function : Function ℝ where
  id := ⟨0⟩
  name := "again"
  params := #[]
  retTy := .void
  blocks := #[⟨⟨0⟩, "entry", [⟨0⟩, ⟨1⟩], none, none⟩]
  insts := #[⟨⟨0⟩, ⟨0⟩, "", .void, .call (.direct ⟨0⟩) [], none, none⟩,
    ⟨⟨1⟩, ⟨0⟩, "", .void, .ret none, none, none⟩]
  maxRecursion := some 2
  entryPoint := false

/-- The module of the function. -/
def program : Module ℝ := ⟨"m", #[function], #[], #[]⟩

/-- The analysis of the module. -/
def plan : Plan ℝ := Plan.of program {}

/-- The activation from which the analysis starts. -/
noncomputable def first : Start ℝ := plan.beginEntry (Session.start program 0).1 function 0

lemma isStack_first : plan.IsStack first [] := by
  have hf : plan.module.function? ⟨0⟩ = some function := rfl
  exact .entry (.start 0) hf rfl

lemma exists_followed : ∃ c ∈ plan.callsOf first, plan.IsFollowed c ∧
    ∃ d ∈ plan.callsOf (plan.begin c), ¬ plan.IsFollowed d := by
  decide +kernel

/-- The function is activated on top of itself, and the call in the second activation is skipped. -/
theorem countsActivations_plan :
    program.validate = .ok () ∧ plan.CountsActivations ∧
      ∃ y, plan.IsStack y [first] ∧ ∃ d ∈ plan.callsOf y, ¬ plan.IsFollowed d := by
  obtain ⟨c, hc, hfollowed, hskipped⟩ := exists_followed
  exact ⟨rfl, Plan.countsActivations rfl {}, plan.begin c, isStack_first.call hc hfollowed,
    hskipped⟩

end SelfCall

end Recursion

section Termination

variable {R : Type} {m : Module R} {f : Function R} {settings : Settings}

/-! ## Searches and walks in a body -/

/-- The depths that bound the searches and walks for a body are no restriction. -/
structure Body.WalksEnd (b : Body R) : Prop where
  /-- The search for the reachable and the dominated blocks. -/
  reachable : Search.EndsWithin b.flow.graph.targetsOf b.flow.graph.size
    {c | c ∈ b.flow.graph.blocks}
  /-- The search for the order of visits. -/
  order : Search.EndsWithin b.flow.orderedSuccessors b.flow.graph.size
    {c | c ∈ b.flow.graph.blocks}
  /-- The search for the blocks of loops. -/
  loopBlocks : Search.EndsWithin b.flow.graph.predecessors b.flow.graph.size
    {c | c ∈ b.flow.graph.blocks}
  /-- The walk outwards over loops. -/
  ancestors : ∀ id < b.flow.loops.loops.size, ∀ depth ≥ b.flow.loops.loops.size,
    b.flow.loops.chain depth id = b.flow.loops.ancestors id
  /-- The expansion of loops inside loops. -/
  loopItems : ∀ id, ∀ depth ≥ b.flow.loops.loops.size,
    b.flow.loopItems b.settings b.function depth id
      = b.flow.loopItems b.settings b.function b.flow.loops.loops.size id
  /-- The walk over stores that miss an address. -/
  skipMisses : ∀ address, ∀ s < b.memory.states.size, ∀ steps ≥ b.memory.states.size,
    b.memory.skipMisses address steps s = b.memory.skipMisses address b.memory.states.size s
  /-- The search over memory states that join others. -/
  states : ∀ load, Search.EndsWithin (b.memory.nextStates load) b.memory.states.size
    {s | s < b.memory.states.size}

lemma Memory.WellFormed.endsWithin {mem : Memory} (hmem : mem.WellFormed) (load : InstId) :
    Search.EndsWithin (mem.nextStates load) mem.states.size {s | s < mem.states.size} := by
  intro s t ht depth hdepth
  refine Search.endsWithin (U := Finset.range mem.states.size) (fun x _ y hy => ?_)
    (Finset.card_range _).le s t (by simpa using ht) depth hdepth
  exact Finset.mem_range.2 (Memory.lt_size_of_mem_nextStates hmem hy)

/-- **Searches and walks end** by themselves. -/
theorem Body.walksEnd_of (m : Module R) (settings : Settings) (f : Function R) :
    (Body.of m settings f).WalksEnd where
  reachable := FlowGraph.endsWithin fun _ _ h => FlowGraph.mem_blocks_of_mem_targetsOf_of h
  order := FlowGraph.endsWithin (g := FlowGraph.of f) fun _ _ h =>
    FlowGraph.mem_blocks_of_mem_targetsOf_of (Flow.mem_orderedSuccessors.1 h)
  loopBlocks := FlowGraph.endsWithin fun _ _ h => FlowGraph.mem_blocks_of_mem_predecessors h
  ancestors _ hid _ hdepth := LoopForest.chain_eq hid hdepth
  loopItems id _ hdepth := Flow.loopItems_eq settings hdepth id
  skipMisses _ _ hs _ hsteps := Memory.wellFormed_of.skipMisses_eq (hs.trans_le hsteps) hs
  states := Memory.wellFormed_of.endsWithin

/-- A search over the functions of a module need not go deeper than there are functions. -/
lemma Module.endsWithin_callees (m : Module R) :
    Search.EndsWithin m.callees m.functions.size {id | id ∈ m.functionIds} := by
  intro s id hid depth hdepth
  exact Search.endsWithin
    (fun x _ y hy => List.mem_toFinset.2 (mem_functionIds_of_mem_callees hy)) m.card_functionIds_le
    s id (List.mem_toFinset.2 hid) depth hdepth

/-! ## What remains to be done -/

variable [Number R]

namespace Plan

variable {p : Plan R} {x : Start R} {xs : List (Start R)} {c : Call R (Findings R)}

/-- A point in the analysis: an activation, and the steps of its schedule that are still to be
made. -/
abbrev Point (R : Type) := Start R × Schedule

/-- From one point in the analysis control passes to another one. -/
inductive Descends (p : Plan R) : Point R → Point R → Prop
  /-- A step of the schedule has been made. -/
  | next {x : Start R} {item : ScheduleItem} {items : Schedule} :
      Descends p (x, items) (x, item :: items)
  /-- A call is followed, and its activation begins with all steps before it. -/
  | call {x : Start R} {items : Schedule} {c : Call R (Findings R)} (hc : c ∈ p.callsOf x)
      (hfollowed : p.IsFollowed c) :
      Descends p (p.begin c, (p.prepared c.callee (p.begin c).findings).1) (x, items)

/-- An activation that begins for a call has less of the bounds before it than the caller. -/
lemma budget_begin_lt (hc : c ∈ (Plan.of m settings).callsOf x)
    (hfollowed : (Plan.of m settings).IsFollowed c) :
    (Plan.of m settings).budget ((Plan.of m settings).begin c).findings
      < (Plan.of m settings).budget x.findings := by
  -- whenever a call comes up, as many activations are under way as at the beginning
  have hkeeps : ((Plan.of m settings).body x.function).Keeps (Plan.of m settings).calls
      fun w => w.underWay = x.findings.underWay ∧ True :=
    restores_keeps (follow_restores (maintains_true _) _) x.function x.findings.underWay
  have hcall := Body.isCallIn_of_mem_callsOf hkeeps ⟨underWay_prepared _ _ _, trivial⟩ _ _ hc
  have hcallee := hcall.callee_mem
  rw [module_body] at hcallee
  have hlt := budget_enter_lt (p := Plan.of m settings) hcallee (lt_max_of_lt_right hfollowed)
  exact hlt.trans_eq (budget_congr hcall.world.1)

/-- What remains to be done at a point in the analysis: what is left of the bounds, and the steps of
the schedule. -/
def remaining (p : Plan R) (point : Point R) : ℕ × ℕ :=
  (p.budget point.1.findings, point.2.length)

/-- **Less remains to be done** wherever control passes to: less of the bounds, or as much of them
and fewer steps. -/
theorem remaining_lt {point point' : Point R} (h : (Plan.of m settings).Descends point' point) :
    Prod.Lex (· < ·) (· < ·) ((Plan.of m settings).remaining point')
      ((Plan.of m settings).remaining point) := by
  cases h with
  | next => exact .right _ (Nat.lt_succ_self _)
  | call hc hfollowed => exact .left _ _ (budget_begin_lt hc hfollowed)

/-- Control cannot pass on forever. -/
theorem wellFounded_descends (m : Module R) (settings : Settings) :
    WellFounded (Plan.of m settings).Descends := by
  have hlex : WellFounded (Prod.Lex (· < ·) (· < ·) : ℕ × ℕ → ℕ × ℕ → Prop) :=
    WellFounded.prod_lex wellFounded_lt wellFounded_lt
  exact Subrelation.wf remaining_lt (InvImage.wf (Plan.of m settings).remaining hlex)

/-- The analysis ends by itself. -/
structure Terminates (p : Plan R) : Prop where
  /-- Less of the bounds, or as much of them and fewer steps, remain wherever control passes to. -/
  descends : ∀ point point', p.Descends point' point →
    Prod.Lex (· < ·) (· < ·) (p.remaining point') (p.remaining point)
  /-- Control cannot pass on forever from calls to activations and from step to step. -/
  wellFounded : WellFounded p.Descends
  /-- The calls that come up in an activation are answered by activations, however deep they are
  nested. -/
  answer_eq : ∀ x xs, p.IsStack x xs → ∀ c ∈ p.callsOf x, p.calls.answer c = p.respond p.calls c
  /-- The schedule of an activation is a finite list of visits. -/
  visits : ∀ x xs, p.IsStack x xs →
    ∃ vs : List Visit, (p.prepared x.function x.findings).1 = vs.map .visit
  /-- The searches and walks for the bodies end. -/
  walks : ∀ f ∈ p.module.functions, (p.body f).WalksEnd
  /-- The search for the order of the analysis ends. -/
  callees : Search.EndsWithin p.module.callees p.module.functions.size
    {id | id ∈ p.module.functionIds}

/-- **The analysis of a valid module ends** if closed forms are disabled. -/
theorem terminates (hm : m.validate = .ok ()) (hsettings : settings.lipschitzLoops = false) :
    (Plan.of m settings).Terminates where
  descends _ _ h := remaining_lt h
  wellFounded := wellFounded_descends m settings
  answer_eq _ _ hx _ hc := hx.answer_eq hm hc
  visits x _ hx := by
    -- a schedule without closed forms has nothing to unroll
    have hwithout : settings.withoutClosedForms = settings := by
      rw [Settings.withoutClosedForms, ← hsettings]
    rw [(hx.schedule_eq hm).2]
    nth_rewrite 1 [← hwithout]
    exact ⟨_, (Flow.unrolled_schedule x.function settings).symm⟩
  walks f hf := by
    rw [body_eq_of_validate hm hf]
    exact Body.walksEnd_of m settings f
  callees := m.endsWithin_callees

end Plan

/-! ## Functions that call each other -/

namespace MutualCalls

/-- The function calls the other one in a loop, where it loads from a pointer that is computed from
itself. -/
def ping : Function ℝ where
  id := ⟨0⟩
  name := "ping"
  params := #[]
  retTy := .void
  blocks := #[⟨⟨0⟩, "entry", [⟨0⟩], none, none⟩, ⟨⟨1⟩, "loop", [⟨1⟩, ⟨2⟩, ⟨3⟩, ⟨4⟩], none, none⟩,
    ⟨⟨2⟩, "exit", [⟨5⟩], none, none⟩]
  insts := #[⟨⟨0⟩, ⟨0⟩, "", .void, .br ⟨1⟩, none, none⟩,
    ⟨⟨1⟩, ⟨1⟩, "p", .pointer (.float 64), .element (.inst ⟨1⟩) [], none, none⟩,
    ⟨⟨2⟩, ⟨1⟩, "x", .float 64, .load (.inst ⟨1⟩), none, none⟩,
    ⟨⟨3⟩, ⟨1⟩, "", .void, .call (.direct ⟨1⟩) [], none, none⟩,
    ⟨⟨4⟩, ⟨1⟩, "", .void, .condBr .undef ⟨1⟩ ⟨2⟩, none, none⟩,
    ⟨⟨5⟩, ⟨2⟩, "", .void, .ret none, none, none⟩]
  maxRecursion := some 2
  entryPoint := false

/-- The other function calls back. -/
def pong : Function ℝ where
  id := ⟨1⟩
  name := "pong"
  params := #[]
  retTy := .void
  blocks := #[⟨⟨0⟩, "entry", [⟨0⟩, ⟨1⟩], none, none⟩]
  insts := #[⟨⟨0⟩, ⟨0⟩, "", .void, .call (.direct ⟨0⟩) [], none, none⟩,
    ⟨⟨1⟩, ⟨0⟩, "", .void, .ret none, none, none⟩]
  maxRecursion := some 1
  entryPoint := false

/-- The module of the two functions. -/
def program : Module ℝ := ⟨"m", #[ping, pong], #[], #[]⟩

/-- No closed forms, and two passes through loops. -/
def twoPasses : Settings := { lipschitzLoops := false, defaultUnrollCount := 2 }

/-- The analysis of the module. -/
def plan : Plan ℝ := Plan.of program twoPasses

/-- The activation from which the analysis starts. -/
noncomputable def first : Start ℝ := plan.beginEntry (Session.start program 0).1 ping 0

lemma exists_followed : ∃ c ∈ plan.callsOf first, plan.IsFollowed c ∧
    ∃ d ∈ plan.callsOf (plan.begin c), plan.IsFollowed d := by
  decide +kernel

/-- The analysis ends, although the functions call each other. -/
theorem terminates_plan :
    program.validate = .ok () ∧ twoPasses.lipschitzLoops = false ∧ plan.Terminates ∧
      ∃ y z : Start ℝ, plan.IsStack z [y, first] := by
  obtain ⟨c, hc, hfollowed, d, hd, hfollowed'⟩ := exists_followed
  have hf : plan.module.function? ⟨0⟩ = some ping := rfl
  have hfirst : plan.IsStack first [] := .entry (.start 0) hf rfl
  exact ⟨rfl, rfl, Plan.terminates rfl rfl, _, _, (hfirst.call hc hfollowed).call hd hfollowed'⟩

end MutualCalls

end Termination

end Roundoff
