/-
# Flow graphs and depth-first search

The flow graph of a function has its blocks as nodes and an edge from each block to every block
that may follow it.  A depth-first search enters the unseen successors of a node one after the
other and leaves the node after that; listing the nodes with the one left last in front gives the
*reverse postorder*.

The search goes one level deeper only when it enters a node for the first time, so the number of
nodes bounds its depth.
-/
import Roundoff.Program.Function

namespace Roundoff

/-- What a depth-first search has done. -/
structure Search (N : Type) where
  /-- The nodes that were entered, the latest one first. -/
  seen : List N
  /-- The nodes that were left, the latest one first. -/
  finished : List N

namespace Search

variable {N : Type} [DecidableEq N]

/-- A search that has seen the given nodes. -/
def avoiding (nodes : List N) : Search N := ⟨nodes, []⟩

/-- Enter a node unless it has been seen, search its successors one after the other, and leave
it. -/
def visit (successors : N → List N) : (depth : Nat) → Search N → N → Search N
  | 0, s, _ => s
  | depth + 1, s, n =>
    if n ∈ s.seen then s
    else
      let s := (successors n).foldl (visit successors depth) { s with seen := n :: s.seen }
      { s with finished := n :: s.finished }

end Search

/-- The flow graph of a function. -/
structure FlowGraph where
  /-- For each block the distinct blocks that may follow it, in the order in which its last
  instruction names them. -/
  targets : Array (List BlockId)
deriving Repr

namespace FlowGraph

/-- The flow graph of a function; branches to blocks that do not exist are left out. -/
def of {R : Type} (f : Function R) : FlowGraph :=
  ⟨f.blocks.map fun b => ((f.successors b.id).filter fun t => (f.block? t).isSome).eraseDups⟩

/-- The number of blocks. -/
def size (g : FlowGraph) : Nat := g.targets.size

/-- The blocks in ascending order. -/
def blocks (g : FlowGraph) : List BlockId := (List.range g.size).map fun n => ⟨UInt32.ofNat n⟩

/-- The entry block. -/
def entry? (g : FlowGraph) : Option BlockId := g.blocks.head?

/-- The blocks that may follow a block, in the order in which they are named. -/
def targetsOf (g : FlowGraph) (b : BlockId) : List BlockId := g.targets.getD b.val.toNat []

/-- The blocks that may follow a block, in ascending order. -/
def successors (g : FlowGraph) (b : BlockId) : List BlockId :=
  let targets := g.targetsOf b
  g.blocks.filter (targets.contains ·)

/-- The blocks that a block may follow, in ascending order. -/
def predecessors (g : FlowGraph) (b : BlockId) : List BlockId :=
  g.blocks.filter fun p => (g.targetsOf p).contains b

/-- The blocks reached from the entry without passing through the blocks to avoid, in reverse
postorder, where `successors` says which successor comes first. -/
def searchFromEntry (g : FlowGraph) (successors : BlockId → List BlockId) (avoid : List BlockId) :
    List BlockId :=
  match g.entry? with
  | none => []
  | some entry => (Search.visit successors g.size (.avoiding avoid) entry).finished

/-- The blocks reachable from the entry, in reverse postorder. -/
def reversePostorder (g : FlowGraph) : List BlockId := g.searchFromEntry g.targetsOf []

/-- The reachable blocks that every path from the entry reaches through the block `d` only. -/
def dominatedBy (g : FlowGraph) (d : BlockId) : List BlockId :=
  let bypassed := g.searchFromEntry g.targetsOf [d]
  g.reversePostorder.filter fun b => !bypassed.contains b

end FlowGraph

end Roundoff
