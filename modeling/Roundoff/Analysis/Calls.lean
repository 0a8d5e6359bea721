/-
# Following calls

A call is analysed by an activation of the callee of its own.  It starts from the data of the caller
without what belongs to the callee, with the formal parameters set up from the annotations and the
actual ones.  When the activation is completed, what it returns, the global variables, the pointer
arguments, the aggregates behind them and the labels are merged into the data of the caller.  If the
activation stops at a fault, the data of the caller stay as they are.

A call is not followed if as many activations of the callee are under way as its bound allows.  At
most the sum of all bounds are under way at a time, which is how deep the analysis descends.
-/
import Roundoff.Analysis.Findings
import Roundoff.ClosedForm.Bound

namespace Roundoff

variable {R σ : Type} [Number R]

/-! ## Activations -/

namespace Body

/-- Make visits one after the other up to the first fault. -/
def runVisits (b : Body R) (h : CallHandler R σ) (a : Activation R) (world : σ) :
    List Visit → Fresh (Outcome R σ Unit)
  | [] => return ⟨.ok (), a, world⟩
  | v :: vs => do
    let o ← b.visitBlock h v a world
    match o.answer with
    | .ok _ => b.runVisits h o.state o.world vs
    | .error fault => return ⟨.error fault, o.state, o.world⟩

/-- Make a step of a schedule: visit a block, or bound a loop in closed form and make the fallback
visits if that fails. -/
def runItem (b : Body R) (h : CallHandler R σ) (a : Activation R) (world : σ) :
    ScheduleItem → Fresh (Outcome R σ Unit)
  | .visit v => b.runVisits h a world [v]
  | .closedForm header tripCount fallback => do
    match ← (b.closedForm a header tripCount.toNat).run with
    | .ok (_, a) => return ⟨.ok (), a, world⟩
    | .error _ => b.runVisits h a world fallback

/-- Make the steps of a schedule one after the other up to the first fault. -/
def runSchedule (b : Body R) (h : CallHandler R σ) (a : Activation R) (world : σ) :
    Schedule → Fresh (Outcome R σ Unit)
  | [] => return ⟨.ok (), a, world⟩
  | i :: is => do
    let o ← b.runItem h a world i
    match o.answer with
    | .ok _ => b.runSchedule h o.state o.world is
    | .error _ => return o

end Body

/-- A module with all that is prepared for its analysis. -/
structure Plan (R : Type) where
  /-- The module. -/
  module : Module R
  /-- The settings of the analysis. -/
  settings : Settings
  /-- The bodies of the functions. -/
  bodies : Array (Body R)

namespace Plan

/-- Prepare the analysis of a module. -/
def of (m : Module R) (settings : Settings) : Plan R :=
  ⟨m, settings, m.functions.map (Body.of m settings)⟩

/-- The body of a function. -/
def body (p : Plan R) (f : Function R) : Body R :=
  match p.bodies[f.id.val.toNat]? with
  | some b => b
  | none => Body.of p.module p.settings f

/-- How many activations of a function may be under way at a time. -/
def recursionBound (p : Plan R) (f : Function R) : Nat :=
  (f.maxRecursion.getD p.settings.defaultMaxRecursion).toNat

/-- How many activations may be under way at a time. -/
def depth (p : Plan R) : Nat :=
  p.module.functions.toList.foldr (fun f n => max 1 (p.recursionBound f) + n) 0

/-- Run through a function from the given state.  Its schedule is kept for further activations. -/
def run (p : Plan R) (h : CallHandler R (Findings R)) (f : Function R) (a : Activation R)
    (w : Findings R) : Fresh (Outcome R (Findings R) Unit) :=
  let b := p.body f
  let s := w.summary f.id
  match s.schedule with
  | some schedule => b.runSchedule h a w schedule
  | none =>
    let schedule := b.flow.schedule p.settings f
    b.runSchedule h a (w.setSummary f.id { s with schedule := some schedule }) schedule

end Plan

/-! ## Calls -/

namespace Store

/-- The data with which the activation for a call starts, made from the data of the caller. -/
def atCall (s : Store R) (m : Module R) (caller callee : Function R) (args : List (Value R)) :
    Fresh (Store R) := do
  let start ← (s.eraseFunction callee).seedArguments m callee
  let start := start.applyArguments s caller.id callee args
  return { start with objects := start.objects.bindArguments m caller callee args }

/-- Raise what is recorded of a pointer argument to what is recorded of the formal parameter. -/
def raiseArgument (caller callee : Function R) (other : Store R) (s : Store R) :
    Nat × Param R × Value R → Store R
  | (n, param, actual) =>
    if param.ty.isPointer then
      match other.get? (.arg callee.id (UInt32.ofNat n)), Key.of? caller.id actual with
      | some written, some k => (s.raise k written).2
      | _, _ => s
    else s

/-- Merge the data at the end of the activation for a call into the data of the caller. -/
def afterCall (s other : Store R) (m : Module R) (caller callee : Function R)
    (args : List (Value R)) : Store R :=
  let s :=
    match other.get? (.function callee.id) with
    | some returned => (s.raise (.function callee.id) returned).2
    | none => s
  let params := (callee.params.toList.zip args).zipIdx.map fun ((p, a), n) => (n, p, a)
  let s := params.foldl (raiseArgument caller callee other) s
  let s := s.mergeGlobals other
  let s := { s with objects := s.objects.takeBack other.objects m caller args }
  s.mergeTargets other

end Store

namespace Plan

/-- Analyse a call of a function by an activation that hands its own calls to `h`. -/
def activate (p : Plan R) (h : CallHandler R (Findings R)) (w : Findings R)
    (caller callee : Function R) (args : List (Value R)) (s : Store R) :
    Fresh (Store R × Findings R) := do
  let start ← s.atCall p.module caller callee args
  let o ← p.run h callee { store := start } w
  match o.answer with
  | .error _ => return (s, o.world)
  | .ok _ =>
    let store := { o.state.store with objects := o.state.store.objects.clearBindings callee }
    let w := o.world.finish callee.id { o.state with store := store }
    return (s.afterCall store p.module caller callee args, w)

/-- Analyse a call of a function, unless too many activations of it are under way.  Calls are
followed to the given depth. -/
def call (p : Plan R) :
    (depth : Nat) → Findings R → Function R → Function R → List (Value R) → Store R →
      Fresh (Store R × Findings R)
  | 0, w, _, _, _, s => return (s, w)
  | depth + 1, w, caller, callee, args, s =>
    if p.recursionBound callee ≤ (w.summary callee.id).recursion then
      return (s, w.skip callee.id)
    else do
      let (before, w) := w.enter callee.id
      let (s, w) ← p.activate ⟨p.call depth, Findings.returned?⟩ w caller callee args s
      return (s, w.leave callee.id before)

/-- How calls are answered by the analysis of the whole program. -/
def calls (p : Plan R) : CallHandler R (Findings R) := ⟨p.call p.depth, Findings.returned?⟩

end Plan

end Roundoff
