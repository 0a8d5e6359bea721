/-
# Loops that a closed form can bound

The closed form handles loops without inner loops that consist of one or two blocks.  The *condition
block* is the one from which the loop is left, and the values that the loop carries are its phis.
With a second block, the *body*, control alternates between the two; the body may come first, in
which case the latch is the condition block.
-/
import Roundoff.Flow.Loop

namespace Roundoff

/-- Why a loop does not have the shape that a closed form needs. -/
inductive ShapeObstacle where
  /-- The block heads no loop. -/
  | notALoop (header : BlockId)
  /-- There are loops inside the loop. -/
  | innerLoops
  /-- The loop consists of more than two blocks. -/
  | tooManyBlocks (count : Nat)
  /-- The loop is entered from several blocks. -/
  | noPreheader
  /-- The loop is left to several blocks, or to none. -/
  | noSingleExit
  /-- The loop is left from several blocks. -/
  | noSingleExiting
  /-- The header is reached again from several blocks. -/
  | noSingleLatch
deriving DecidableEq, Repr

/-- The text of an obstacle. -/
def ShapeObstacle.message : ShapeObstacle → String
  | notALoop header => s!"block BlockId({header.val}) does not head a loop"
  | innerLoops => "loop contains inner loops"
  | tooManyBlocks count => s!"loop has {count} blocks (at most 2 supported)"
  | noPreheader => "loop has no single predecessor"
  | noSingleExit => "loop has no single exit block"
  | noSingleExiting => "loop has no single exiting block"
  | noSingleLatch => "loop has no single latch"

/-- The blocks of a loop that a closed form can bound. -/
structure LoopShape where
  /-- The block through which the loop is entered. -/
  header : BlockId
  /-- The block from which the loop is entered. -/
  preheader : BlockId
  /-- The block from which the loop is left. -/
  cond : BlockId
  /-- The block from which the condition block is reached again. -/
  body : BlockId
  /-- The block after the loop. -/
  exit : BlockId
deriving DecidableEq, Repr

namespace LoopShape

/-- Whether a block belongs to the loop. -/
def contains (s : LoopShape) (b : BlockId) : Bool := b = s.cond || b = s.body

/-- The blocks of the loop in the order in which an iteration passes through them. -/
def blocks (s : LoopShape) : List BlockId :=
  if s.cond = s.body then [s.cond]
  else if s.cond = s.header then [s.cond, s.body]
  else [s.body, s.cond]

end LoopShape

/-- The condition block and the body of a loop of one or two blocks. -/
def Loop.condAndBody (l : Loop) : Except ShapeObstacle (BlockId × BlockId) := do
  if l.blocks.length = 1 then return (l.header, l.header)
  let some cond := l.singleExiting? | throw .noSingleExiting
  let some latch := l.singleLatch? | throw .noSingleLatch
  return (cond, if latch = cond then l.header else latch)

/-- The shape of the loop with the given header.  Of several obstacles the first one in the order
of the checks is reported. -/
def LoopForest.shape (t : LoopForest) (header : BlockId) : Except ShapeObstacle LoopShape := do
  let some id := t.headedBy? header | throw (.notALoop header)
  let some l := t.get? id | throw (.notALoop header)
  if !(t.children id).isEmpty then throw .innerLoops
  if 2 < l.blocks.length then throw (.tooManyBlocks l.blocks.length)
  let some preheader := l.predecessor | throw .noPreheader
  let some exit := l.singleExit? | throw .noSingleExit
  let (cond, body) ← l.condAndBody
  return ⟨l.header, preheader, cond, body, exit⟩

end Roundoff
