/-
# Comparisons

A comparison may flip if its operands may move by at least the distance between their ranges.
Errors that the operands share cancel.  The tolerance is not taken below the finer rounding error of
the two operands, and a threshold may keep flips quiet whose error is small relative to the
operands.
-/
import Roundoff.Transfer.Operand

namespace Roundoff

variable {R : Type} [Number R]

/-- Whether an error is at least the given percentage of the larger upper bound of two ranges; the
percentage zero lets every error pass. -/
def reachesThreshold (threshold : UInt32) (error : R) (r₁ r₂ : Range R) : Bool :=
  threshold == 0 ||
    Number.ofInt threshold.toNat ≤ error / Number.max r₁.hi r₂.hi * Number.ofInt 100

/-- The verdict on a comparison of two operands. -/
def Operand.compare (x y : Operand R) (threshold : UInt32) : Verdict R :=
  let error := (x.error.sub y.error).noiseBound
  let rounding := Number.min x.range.roundingError y.range.roundingError
  let tolerance := Number.max (x.range.minDistance y.range) rounding
  ⟨tolerance, tolerance ≤ error && reachesThreshold threshold error x.range y.range⟩

namespace Body

/-- The rule for comparisons.  A constant is read in the format of the other operand. -/
def comparison (b : Body R) (a : Activation R) (i : Instruction R) (lhs rhs : Value R) :
    Attempt (Activation R) := do
  let (x, y) ← Attempt.both (b.operand a.store lhs (b.formatOf? a.store rhs))
    (b.operand a.store rhs (b.formatOf? a.store lhs))
  let verdict := x.compare y b.settings.cmpErrorThreshold
  return { a with verdicts := a.verdicts.insert i.id verdict }

end Body

end Roundoff
