/-
# Selections and phis

The error of a merged value is the largest error of the values that it may take.  Which one it takes
is not tracked, so the result has a noise symbol of its own.  A selection needs data for both of its
values, while a phi skips the values without data.
-/
import Roundoff.Transfer.Operand

namespace Roundoff

variable {R : Type} [Number R]

/-- The largest of some numbers, from left to right. -/
def maximum? : List R → Option R
  | [] => none
  | x :: xs => some (xs.foldl Number.max x)

/-- The largest error of some operands. -/
def maxAbsError? (os : List (Operand R)) : Option R := maximum? (os.map Operand.absError)

/-- The hull of the ranges of some operands. -/
def hull? : List (Operand R) → Option (Range R)
  | [] => none
  | o :: os => some (os.foldl (fun r o => r.union o.range) o.range)

namespace Body

/-- The rule for selections. -/
def select (b : Body R) (a : Activation R) (i : Instruction R) (ifTrue ifFalse : Value R) :
    Attempt (Activation R) := do
  let format := (b.resultRange? a.store i).map Range.format
  let (x, y) ← Attempt.both (b.operand a.store ifTrue format) (b.operand a.store ifFalse format)
  let error ← Affine.withError 0 (Number.max x.absError y.absError)
  return b.write a i error

/-- Whether a phi in a block reads its value for a predecessor on this visit. -/
def reads (b : Body R) (block : BlockId) (edges : PhiEdges) (pred : BlockId) : Bool :=
  match (b.flow.loops.headedBy? block).bind b.flow.loops.get?, edges with
  | some l, .entry => !l.contains pred
  | some l, .latch => l.contains pred
  | _, _ => true

/-- The operands with data among the given values. -/
def operandsWithData (b : Body R) (s : Store R) (format : Option Format) :
    List (Value R) → Fresh (List (Operand R))
  | [] => return []
  | v :: vs => do
    let o ← (b.operand s v format).run
    return o.toList ++ (← b.operandsWithData s format vs)

/-- The rule for phis.  A phi without a range of its own takes the hull of what it reads. -/
def phi (b : Body R) (a : Activation R) (i : Instruction R) (edges : PhiEdges)
    (incoming : List (Value R × BlockId)) : Attempt (Activation R) := do
  let own := b.resultRange? a.store i
  let visible := (incoming.filter fun (_, pred) => b.reads i.block edges pred).map Prod.fst
  let operands ← b.operandsWithData a.store (own.map Range.format) visible
  let some bound := maxAbsError? operands | failure
  let range := ((own.filter fun r => !r.isUnknown).or (hull? operands)).getD Range.unknown
  let error ← Affine.withError 0 bound
  return b.writeEstimate a i ⟨range, some error⟩

end Body

end Roundoff
