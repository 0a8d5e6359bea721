/-
# Memory states

Memory is followed through a function as a chain of states.  A store or a call that may write makes
a new state over the one before it, and a block that several reachable blocks may precede starts
from a state that joins theirs.  A load reads the state that holds where it stands, and finds the
writes it may read by walking back over the states.
-/
import Roundoff.Memory.Origin
import Roundoff.Flow.Graph
import Roundoff.Table

namespace Roundoff

/-- The number of a memory state. -/
abbrev StateId := Nat

/-- A memory state. -/
inductive MemoryState where
  /-- Memory as the function finds it. -/
  | initial
  /-- Memory after a store or call that found it in the state `before`. -/
  | written (inst : InstId) (before : StateId)
  /-- Memory at the start of a block that is reached in different states. -/
  | joined (block : BlockId) (incoming : List StateId)
deriving DecidableEq, Repr

/-- The memory states of a function. -/
structure Memory where
  /-- The states; the initial one comes first. -/
  states : Array MemoryState
  /-- For each reachable load the state that it reads. -/
  loads : Table InstId StateId
  /-- The origins of the addresses of reachable loads and stores. -/
  origins : Table InstId Origin
deriving Repr

namespace Memory

/-- The state of a number. -/
def state? (mem : Memory) (s : StateId) : Option MemoryState := mem.states[s]?

/-- Add a state. -/
def push (mem : Memory) (s : MemoryState) : StateId × Memory :=
  (mem.states.size, { mem with states := mem.states.push s })

variable {R : Type}

/-- The state after an instruction that finds memory in the state `current`. -/
def step (m : Module R) (f : Function R) : Memory × StateId → Instruction R → Memory × StateId
  | (mem, current), i =>
    match i.op with
    | .store _ ptr =>
      let (s, mem) := mem.push (.written i.id current)
      ({ mem with origins := mem.origins.insert i.id (Origin.of f ptr) }, s)
    | .load ptr =>
      ({ mem with
        origins := mem.origins.insert i.id (Origin.of f ptr)
        loads := mem.loads.insert i.id current }, current)
    | .call callee _ | .invoke callee _ _ _ =>
      if m.isPureCall callee then (mem, current)
      else
        let (s, mem) := mem.push (.written i.id current)
        (mem, s)
    | _ => (mem, current)

/-- The reachable blocks that a block may follow. -/
def reachablePredecessors (g : FlowGraph) (order : List BlockId) (b : BlockId) : List BlockId :=
  (g.predecessors b).filter order.contains

/-- Whether a block joins different states: several blocks precede it, or it is the entry and
control returns to it. -/
def isJoin (g : FlowGraph) (order : List BlockId) (b : BlockId) : Bool :=
  let preds := reachablePredecessors g order b
  2 ≤ preds.length || (g.entry? == some b && !preds.isEmpty)

/-- The states of a function as far as they are known after some blocks, with the state at the end
of each of these blocks. -/
structure Progress where
  /-- The states made so far. -/
  memory : Memory
  /-- The state at the end of each block done so far. -/
  atEnd : Table BlockId StateId

/-- Follow memory through a block. -/
def stepBlock (m : Module R) (f : Function R) (g : FlowGraph) (order joins : List BlockId)
    (p : Progress) (b : BlockId) : Progress :=
  let start : StateId :=
    match joins.findIdx? (· == b) with
    | some n => n + 1
    | none =>
      ((reachablePredecessors g order b).head?.bind p.atEnd.get?).getD 0
  let (mem, last) := (f.blockInsts b).foldl (step m f) (p.memory, start)
  ⟨mem, p.atEnd.insert b last⟩

/-- The states that a join joins. -/
def joinedStates (g : FlowGraph) (order : List BlockId) (atEnd : Table BlockId StateId)
    (b : BlockId) : List StateId :=
  (if g.entry? == some b then [0] else []) ++ (reachablePredecessors g order b).filterMap atEnd.get?

/-- The memory states of a function.  The joins are numbered first, in the order of the blocks in
reverse postorder, and what they join is filled in when all blocks are done. -/
def of (m : Module R) (f : Function R) : Memory :=
  let g := FlowGraph.of f
  let order := g.reversePostorder
  let joins := order.filter (isJoin g order)
  let start : Memory :=
    ⟨(.initial :: joins.map fun b => .joined b []).toArray, ∅, ∅⟩
  let p := order.foldl (stepBlock m f g order joins) ⟨start, ∅⟩
  { p.memory with
    states := p.memory.states.map fun
      | .joined b _ => .joined b (joinedStates g order p.atEnd b)
      | s => s }

/-- Whether a state was written by a store that provably misses the given address. -/
def misses (mem : Memory) (inst : InstId) (address : Origin) : Bool :=
  (mem.origins.get? inst).any fun o => !o.mayAlias address

/-- Walk back over stores that miss an address, at most the given number of steps. -/
def skipMisses (mem : Memory) (address : Origin) : (steps : Nat) → StateId → StateId
  | 0, s => s
  | steps + 1, s =>
    match mem.state? s with
    | some (.written inst before) =>
      if mem.misses inst address then mem.skipMisses address steps before else s
    | _ => s

/-- The nearest state, from a given one backwards, that may have written what a load reads. -/
def clobber (mem : Memory) (load : InstId) (s : StateId) : StateId :=
  match mem.origins.get? load with
  | none => s
  | some address => mem.skipMisses address mem.states.size s

/-- The states from which a load goes on to look for writes: those that a join joins. -/
def nextStates (mem : Memory) (load : InstId) (s : StateId) : List StateId :=
  match mem.state? s with
  | some (.joined _ incoming) => incoming.map (mem.clobber load)
  | _ => []

/-- The states that a load comes upon on its way back, each once, in the order in which it comes
upon them. -/
def statesOf (mem : Memory) (load : InstId) : List StateId :=
  match mem.loads.get? load with
  | none => []
  | some s =>
    (Search.visit (mem.nextStates load) mem.states.size (.avoiding []) (mem.clobber load s)).seen.reverse

end Memory

end Roundoff
