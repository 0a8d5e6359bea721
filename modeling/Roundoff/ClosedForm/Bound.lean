/-
# The closed form of a loop

Let `K` bound the derivatives of the updates of a loop by its symbols, `k` be the number of
iterations, `E` the errors with which the symbols enter the loop, and `r` the rounding errors that
one iteration makes.  Then the errors after the loop are at most

* `Kᵏ · E + (1 + K + … + Kᵏ⁻¹) · r`,

where the sum of powers is `(1 - K)⁻¹ · (1 - Kᵏ)` unless `1 - K` is singular.  The rounding errors
are found by visiting the blocks of the loop once with all errors set to zero.
-/
import Roundoff.ClosedForm.System
import Roundoff.ClosedForm.DenseMatrix
import Roundoff.Transfer.Step

namespace Roundoff

/-- The closed form of a loop. -/
structure LoopBound (R : Type) where
  /-- The blocks of the loop. -/
  shape : LoopShape
  /-- The number of symbols. -/
  size : Nat
  /-- Bounds of the derivatives of the updates. -/
  lipschitz : DenseMatrix R size size
  /-- The errors of the symbols after the loop. -/
  errors : List (Key × R)
  /-- The phis after the loop that have received an error. -/
  exits : List Key

variable {R : Type} [Number R]

/-- The error of a symbol after the loop. -/
def LoopBound.errorOf? (l : LoopBound R) (k : Key) : Option R :=
  (l.errors.find? fun (k', _) => k' == k).map Prod.snd

/-- The matrix `1 + a + … + a ^ (k - 1)` where `power` is `a ^ k`. -/
def DenseMatrix.roundoff {n : Nat} (a power : DenseMatrix R n n) (k : Nat) : DenseMatrix R n n :=
  match ((identity n).sub a).inverse? with
  | some inverse => inverse.mul ((identity n).sub power)
  | none => a.powerSum k

namespace LoopSystem

/-- The bounds of the symbols of a system: the recorded ranges. -/
def bounds (system : LoopSystem R) (s : Store R) : SymbolBounds R := fun n =>
  match system[n]? with
  | none => .error (.missingRange (.named ""))
  | some symbol =>
    match s.range? symbol.key with
    | some range =>
      if range == Range.unknown then .error (.missingRange symbol.name)
      else .ok (Bounds.ofRange range)
    | none => .error (.missingRange symbol.name)

/-- Bounds of the derivatives of all updates by all symbols. -/
def lipschitz (system : LoopSystem R) (s : Store R) :
    Except (Obstacle R) (DenseMatrix R system.length system.length) := do
  let rows ← Vector.ofFnM fun i : Fin system.length =>
    Vector.ofFnM fun j : Fin system.length =>
      (system[i].expr.diff j).maxAbs (system.bounds s)
  return ⟨rows⟩

/-- A quantity for each symbol. -/
def column (system : LoopSystem R) (f : LoopSymbol R → R) : Vector R system.length :=
  Vector.ofFn fun i => f system[i]

/-- The number of the symbol of a key. -/
def indexOf? (system : LoopSystem R) (k : Key) : Option (Fin system.length) :=
  (List.finRange system.length).find? fun i => system[i].key == k

end LoopSystem

namespace Body

/-- The error recorded for a key, zero without data. -/
def boundOrZero (s : Store R) (k : Key) : R :=
  match s.error? k with
  | some e => e.noiseBound
  | none => 0

/-- The errors with which the symbols enter the loop; zero without data. -/
def initialErrors (b : Body R) (s : Store R) (system : LoopSystem R) : Vector R system.length :=
  system.column fun symbol =>
    match symbol.initial.bind b.keyOf? with
    | some k => boundOrZero s k
    | none => 0

/-- Visit blocks one after the other, without following calls. -/
def visitBlocks (b : Body R) (a : Activation R) :
    List BlockId → Fresh (Except Fault (Activation R))
  | [] => return .ok a
  | block :: blocks => do
    let o ← b.visitBlock CallHandler.none ⟨block, .all⟩ a ()
    match o.answer with
    | .ok _ => b.visitBlocks o.state blocks
    | .error fault => return .error fault

/-- The rounding errors that one iteration makes. -/
def roundingErrors (b : Body R) (s : Store R) (shape : LoopShape) (system : LoopSystem R) :
    ExceptT (Obstacle R) Fresh (Vector R system.length) := do
  match ← ExceptT.lift (b.visitBlocks { store := s.zeroed } shape.blocks) with
  | .ok a => return system.column fun symbol => boundOrZero a.store symbol.key
  | .error fault => throw (.roundoff fault)

/-- Settle the error of an instruction. -/
def pin (a : Activation R) (i : Instruction R) (k : Key) (error : R) : Fresh (Activation R) := do
  let e ← Affine.withError 0 error
  return { a with store := a.store.setError k e, pinned := a.pinned.insert i.id () }

/-- Settle the error of a symbol that is defined in the loop. -/
def pinSymbol (b : Body R) (shape : LoopShape) (a : Activation R)
    (symbol : LoopSymbol R) (error : R) : Fresh (Activation R) :=
  match b.function.definition? symbol.value with
  | some i => if shape.contains i.block then pin a i symbol.key error else return a
  | none => return a

/-- The value that a phi of the condition block receives from the body; any other value stands for
itself. -/
def bodyValue? (b : Body R) (shape : LoopShape) (v : Value R) : Option (Value R) :=
  match b.function.definition? v with
  | some i =>
    match i.op.incoming? with
    | some incoming =>
      if i.block = shape.cond then incomingFrom? incoming shape.body else some v
    | none => some v
  | none => some v

/-- The symbol whose value a phi after the loop takes over. -/
def exitSymbol? (b : Body R) (shape : LoopShape) (system : LoopSystem R) (i : Instruction R) :
    Option (Fin system.length) := do
  let incoming ← i.op.incoming?
  let v ← incomingFrom? incoming shape.cond
  let source ← b.bodyValue? shape v
  system.indexOf? (← b.keyOf? source)

/-- Settle the error of a phi after the loop.  A phi without a range of its own takes over the range
of the symbol. -/
def pinExit (b : Body R) (a : Activation R) (i : Instruction R) (symbol : LoopSymbol R)
    (error : R) : Fresh (Activation R) := do
  let range := a.store.range? symbol.key
  let a ← pin a i (b.key i) error
  let known := (a.store.range? (b.key i)).any fun r => !r.isUnknown
  match range with
  | some range =>
    return if known then a else { a with store := a.store.setRange (b.key i) range }
  | none => return a

/-- Settle the errors of the phis after the loop, and list those that take over a symbol. -/
def pinExits (b : Body R) (shape : LoopShape) (system : LoopSystem R)
    (errors : Vector R system.length) (a : Activation R) :
    List (Instruction R) → Fresh (List Key × Activation R)
  | [] => return ([], a)
  | i :: is =>
    match b.exitSymbol? shape system i with
    | none => b.pinExits shape system errors a is
    | some n => do
      let a ← b.pinExit a i system[n] errors[n]
      let (keys, a) ← b.pinExits shape system errors a is
      return (b.key i :: keys, a)

/-- Bound the loop with the given header after `k` iterations, and settle the errors of what it
carries. -/
def closedForm (b : Body R) (a : Activation R) (header : BlockId) (k : Nat) :
    ExceptT (Obstacle R) Fresh (LoopBound R × Activation R) := do
  let shape ← MonadExcept.ofExcept ((b.flow.loops.shape header).mapError Obstacle.shape)
  let system ← MonadExcept.ofExcept (b.loopSystem a.store shape)
  if system.isEmpty then throw (.noValues header)
  let lipschitz ← MonadExcept.ofExcept (system.lipschitz a.store)
  let power := lipschitz.pow k
  let roundoff := lipschitz.roundoff power k
  let rounding ← b.roundingErrors a.store shape system
  let amplified := power.mulVec (b.initialErrors a.store system)
  let accumulated := roundoff.mulVec rounding
  let errors := Vector.ofFn fun i : Fin system.length => amplified[i] + accumulated[i]
  let settled ← ExceptT.lift ((List.finRange system.length).foldlM
    (fun a i => b.pinSymbol shape a system[i] errors[i]) a)
  let (exits, settled) ← ExceptT.lift
    (b.pinExits shape system errors settled (b.function.phis shape.exit))
  let listed := (List.finRange system.length).map fun i => (system[i].key, errors[i])
  return (⟨shape, system.length, lipschitz, listed, exits⟩, settled)

end Body

end Roundoff
