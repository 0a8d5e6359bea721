/-
# The order of visits

The blocks of a function are visited in reverse postorder of a depth-first search that enters the
successors outside the innermost loop of a block before those inside.  The blocks after a loop are
left first in this way, so that they come after the loop in the reverse order.

The schedule repeats the blocks of a loop as often as the loop is unrolled.  A header is visited
first with the values that enter the loop, and then with those that arrive from the latches.  A loop
without inner loops that runs a known number of times may be bounded in closed form instead: its
blocks are then visited once, and the remaining visits are a fallback.
-/
import Roundoff.Flow.Loop
import Roundoff.Settings

namespace Roundoff

/-- The incoming edges whose values a phi reads. -/
inductive PhiEdges where
  /-- All edges. -/
  | all
  /-- The edges that enter the loop. -/
  | entry
  /-- The edges that come from inside the loop. -/
  | latch
deriving DecidableEq, Repr

namespace PhiEdges

/-- The name of a choice of edges. -/
def name : PhiEdges → String
  | all => "All"
  | entry => "Entry"
  | latch => "Latch"

/-- All choices of edges. -/
def choices : List PhiEdges := [all, entry, latch]

end PhiEdges

/-- A visit of a block. -/
structure Visit where
  /-- The block. -/
  block : BlockId
  /-- The edges that the phis of the block read. -/
  edges : PhiEdges
deriving DecidableEq, Repr

/-- A step of a schedule. -/
inductive ScheduleItem where
  /-- Visit a block. -/
  | visit (v : Visit)
  /-- Bound the remaining iterations of a loop in closed form, or make the fallback visits. -/
  | closedForm (header : BlockId) (tripCount : UInt32) (fallback : List Visit)
deriving DecidableEq, Repr

namespace ScheduleItem

/-- The visits of a step, where a closed form is replaced by its fallback. -/
def visits : ScheduleItem → List Visit
  | visit v => [v]
  | closedForm _ _ fallback => fallback

end ScheduleItem

/-- The steps in which a function is analysed. -/
abbrev Schedule := List ScheduleItem

namespace Schedule

/-- The visits of a schedule, where closed forms are replaced by their fallbacks. -/
def visits (s : Schedule) : List Visit := s.flatMap ScheduleItem.visits

end Schedule

/-- The control flow of a function. -/
structure Flow where
  /-- The flow graph. -/
  graph : FlowGraph
  /-- The loops. -/
  loops : LoopForest
deriving Repr

namespace Flow

/-- The control flow of a function. -/
def of {R : Type} (f : Function R) : Flow :=
  let graph := FlowGraph.of f
  ⟨graph, LoopForest.of graph⟩

/-- The successors of a block: those outside its innermost loop first. -/
def orderedSuccessors (w : Flow) (b : BlockId) : List BlockId :=
  let succs := w.graph.successors b
  match (w.loops.innermost? b).bind w.loops.get? with
  | none => succs
  | some l => succs.filter (fun s => !l.contains s) ++ succs.filter (fun s => l.contains s)

/-- The reachable blocks in the order of their visits. -/
def order (w : Flow) : List BlockId := w.graph.searchFromEntry w.orderedSuccessors []

/-- The steps for a list of blocks inside `scope`: the header of the scope reads the given edges,
and the blocks of an inner loop are handed to `expand` together when the first of them comes up.
The list `done` holds the blocks of inner loops that have been expanded. -/
def bodyItems (w : Flow) (scope : Option LoopId) (edges : PhiEdges)
    (expand : LoopId → List BlockId → Schedule) (members : List BlockId) :
    (done : List BlockId) → List BlockId → Schedule
  | _, [] => []
  | done, b :: rest =>
    if b ∈ done then w.bodyItems scope edges expand members done rest
    else if (scope.bind w.loops.get?).any (fun l => l.header == b) then
      .visit ⟨b, edges⟩ :: w.bodyItems scope edges expand members done rest
    else
      match w.loops.childContaining? scope b with
      | none => .visit ⟨b, .all⟩ :: w.bodyItems scope edges expand members done rest
      | some child =>
        let inner := members.filter fun m => (w.loops.get? child).any fun l => l.contains m
        expand child inner ++ w.bodyItems scope edges expand members (inner ++ done) rest

/-- One run through the blocks of a loop without inner loops. -/
def leafVisits (header : BlockId) (edges : PhiEdges) (members : List BlockId) : List Visit :=
  members.map fun b => ⟨b, if b = header then edges else .all⟩

/-- The steps for a loop with the given blocks.  Inner loops are expanded in turn, and the number
of loops bounds how deep they are nested. -/
def loopItems {R : Type} (w : Flow) (settings : Settings) (f : Function R) :
    (depth : Nat) → LoopId → (members : List BlockId) → Schedule
  | 0, _, _ => []
  | depth + 1, id, members =>
    match w.loops.get? id with
    | none => []
    | some l =>
      let hint := (f.block? l.header).bind Block.unrollHint
      let tripCount := ((f.block? l.header).bind Block.tripCount).filter (0 < ·)
      let count := (settings.unrollCount hint tripCount).toNat
      let body edges := w.bodyItems (some id) edges (w.loopItems settings f depth) members [] members
      match tripCount with
      | some t =>
        if settings.lipschitzLoops ∧ (w.loops.children id).isEmpty then
          let repeated := List.replicate (count - 1) (leafVisits l.header .latch members)
          body .entry ++ [.closedForm l.header t repeated.flatten]
        else body .entry ++ (List.replicate (count - 1) (body .latch)).flatten
      | none => body .entry ++ (List.replicate (count - 1) (body .latch)).flatten

/-- The steps in which a function is analysed. -/
def schedule {R : Type} (w : Flow) (settings : Settings) (f : Function R) : Schedule :=
  let order := w.order
  w.bodyItems none .all (w.loopItems settings f w.loops.loops.size) order [] order

end Flow

end Roundoff
