/-
# Natural loops

An edge from a block to a block that dominates it is a back edge, its target the header of a loop
and its source a latch.  The natural loop of a header consists of the header and all blocks from
which a latch is reached without passing through the header.

Loops are numbered from large to small, loops of one size by their headers.  A loop is nested in
the last loop before it that contains its blocks, and the innermost loop of a block is the last one
that contains it.
-/
import Roundoff.Flow.Graph

namespace Roundoff

/-- The number of a loop. -/
abbrev LoopId := Nat

/-- A natural loop. -/
structure Loop where
  /-- The block through which the loop is entered. -/
  header : BlockId
  /-- The blocks of the loop in ascending order. -/
  blocks : List BlockId
  /-- The blocks from which a back edge leads to the header, in ascending order. -/
  latches : List BlockId
  /-- The blocks of the loop that may be followed by a block outside, in ascending order. -/
  exiting : List BlockId
  /-- The blocks outside that may follow a block of the loop, in ascending order. -/
  exits : List BlockId
  /-- The block outside from which the header is entered, if there is only one. -/
  predecessor : Option BlockId
deriving DecidableEq, Repr

/-- The item of a list with one item. -/
def single? {α : Type} : List α → Option α
  | [x] => some x
  | _ => none

namespace Loop

/-- Whether a block belongs to the loop. -/
def contains (l : Loop) (b : BlockId) : Bool := l.blocks.contains b

/-- The latch, if there is only one. -/
def singleLatch? (l : Loop) : Option BlockId := single? l.latches

/-- The block after the loop, if there is only one. -/
def singleExit? (l : Loop) : Option BlockId := single? l.exits

/-- The block from which the loop is left, if there is only one. -/
def singleExiting? (l : Loop) : Option BlockId := single? l.exiting

/-- The order of numbering: larger loops come first, then smaller headers. -/
def precedes (k l : Loop) : Bool :=
  l.blocks.length < k.blocks.length
    || (l.blocks.length == k.blocks.length && k.header.val < l.header.val)

/-- Put a loop in its place among loops in numbering order. -/
def insertSorted (k : Loop) : List Loop → List Loop
  | [] => [k]
  | l :: ls => if k.precedes l then k :: l :: ls else l :: insertSorted k ls

/-- Whether a loop lies inside another one. -/
def isInside (k l : Loop) : Bool := k.blocks.all l.contains && k.header ≠ l.header

end Loop

namespace FlowGraph

/-- The latches of a header in ascending order; none if the block heads no loop. -/
def latches (g : FlowGraph) (header : BlockId) : List BlockId :=
  let dominated := g.dominatedBy header
  (g.predecessors header).filter fun b => dominated.contains b

/-- The blocks of the natural loop with the given header and latches, in ascending order. -/
def loopBlocks (g : FlowGraph) (header : BlockId) (latches : List BlockId) : List BlockId :=
  let found := latches.foldl (Search.visit g.predecessors g.size) (.avoiding [header])
  g.blocks.filter (found.seen.contains ·)

/-- The natural loop of a header. -/
def loopOf (g : FlowGraph) (header : BlockId) (latches : List BlockId) : Loop :=
  let blocks := g.loopBlocks header latches
  let outside (b : BlockId) : Bool := !blocks.contains b
  { header := header
    blocks := blocks
    latches := latches
    exiting := blocks.filter fun b => (g.targetsOf b).any outside
    exits := g.blocks.filter fun b =>
      outside b && blocks.any fun p => (g.targetsOf p).contains b
    predecessor := single? ((g.predecessors header).filter outside) }

/-- The natural loops in numbering order. -/
def naturalLoops (g : FlowGraph) : List Loop :=
  let headed := g.blocks.filterMap fun h =>
    match g.latches h with
    | [] => none
    | latches => some (g.loopOf h latches)
  headed.foldr Loop.insertSorted []

end FlowGraph

/-- The loops of a function by number. -/
structure LoopForest where
  /-- The loops. -/
  loops : Array Loop
  /-- For each loop the smallest loop around it. -/
  parents : Array (Option LoopId)
deriving Repr

namespace LoopForest

/-- The last loop among the first `n` that has the loop `k` inside it. -/
def enclosing? (loops : Array Loop) (k : Loop) (n : Nat) : Option LoopId :=
  (List.range n).reverse.find? fun p =>
    match loops[p]? with
    | some l => k.isInside l
    | none => false

/-- The loops of a flow graph. -/
def of (g : FlowGraph) : LoopForest :=
  let loops := g.naturalLoops.toArray
  ⟨loops, loops.mapIdx fun n k => enclosing? loops k n⟩

/-- The loop of a number. -/
def get? (t : LoopForest) (id : LoopId) : Option Loop := t.loops[id]?

/-- The numbers of the loops. -/
def ids (t : LoopForest) : List LoopId := List.range t.loops.size

/-- The smallest loop around a loop. -/
def parent? (t : LoopForest) (id : LoopId) : Option LoopId := (t.parents[id]?).join

/-- The loops directly inside a loop. -/
def children (t : LoopForest) (id : LoopId) : List LoopId :=
  t.ids.filter fun k => t.parent? k == some id

/-- A loop and the loops around it, from the inside out.  The number of loops bounds how deep they
are nested. -/
def chain (t : LoopForest) : (depth : Nat) → LoopId → List LoopId
  | 0, _ => []
  | depth + 1, id =>
    id :: match t.parent? id with
      | some p => t.chain depth p
      | none => []

/-- A loop and the loops around it, from the inside out. -/
def ancestors (t : LoopForest) (id : LoopId) : List LoopId := t.chain t.loops.size id

/-- How many loops a loop is nested in, itself included. -/
def depth (t : LoopForest) (id : LoopId) : Nat := (t.ancestors id).length

/-- The loop that a block heads. -/
def headedBy? (t : LoopForest) (header : BlockId) : Option LoopId :=
  t.ids.find? fun id => (t.get? id).any fun l => l.header == header

/-- The smallest loop that contains a block. -/
def innermost? (t : LoopForest) (b : BlockId) : Option LoopId :=
  t.ids.reverse.find? fun id => (t.get? id).any fun l => l.contains b

/-- The loop directly inside `scope` that contains a block, where no scope stands for the whole
function. -/
def childContaining? (t : LoopForest) (scope : Option LoopId) (b : BlockId) : Option LoopId :=
  (t.innermost? b).bind fun id => (t.ancestors id).find? fun k => t.parent? k == scope

end LoopForest

end Roundoff
