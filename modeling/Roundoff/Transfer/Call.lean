/-
# Calls and returns

A call of an elementary library routine is linearized.  A call of a function with a body is handed
to the analysis of the whole program, which merges what the callee does into the store of the
caller; the result of the call then has the error that is recorded for what the callee returns.
-/
import Roundoff.Transfer.Arithmetic
import Roundoff.Transfer.Fault

namespace Roundoff

/-- How the analysis of the whole program answers calls; `σ` is the type of its own state. -/
structure CallHandler (R σ : Type) where
  /-- Analyse a call, given the caller, the callee, the arguments and the store of the caller. -/
  analyse : σ → Function R → Function R → List (Value R) → Store R → Fresh (Store R × σ)
  /-- The error that a function has returned in all calls so far. -/
  returned? : σ → FunctionId → Option (Affine R)

/-- Calls that are not followed into the callee. -/
def CallHandler.none {R : Type} : CallHandler R Unit where
  analyse _ _ _ _ s := return (s, ())
  returned? _ _ := Option.none

variable {R σ : Type} [Number R]

namespace Body

/-- The elementary routine that a call targets, recognized by its name. -/
def routine? (b : Body R) (callee : Callee R) : Option Elementary :=
  (b.module.calleeName? callee).bind Elementary.ofLibraryName?

/-- The rule for calls of elementary routines.  A result without a range of its own takes the image
of the range of the argument. -/
def libraryCall (b : Body R) (a : Activation R) (i : Instruction R) (f : Elementary)
    (arg : Value R) : Attempt (Activation R) := do
  let result := b.resultRange? a.store i
  let x ← b.operand a.store arg ((result.map Range.format).or (b.formatOf? a.store arg))
  let linear ← OptionT.mk (f.errorOf x.range x.error)
  let error ← addRounding linear (result.elim 0 Range.roundingError)
  match result.or (f.image x.range) with
  | some range => return b.writeEstimate a i ⟨range, some error⟩
  | none => return b.write a i error

/-- The error that a call of a function gets, and the range recorded with it. -/
def returnedError? (h : CallHandler R σ) (world : σ) (s : Store R) (callee : FunctionId) :
    Option (Affine R × Option (Range R)) :=
  match (s.get? (.function callee)).bind Estimate.toOperand? with
  | some o => some (o.error, some o.range)
  | none => (h.returned? world callee).map fun error => (error, none)

/-- The rule for calls of functions with a body.  The store of the caller changes even if nothing is
known of the result. -/
def functionCall (b : Body R) (h : CallHandler R σ) (a : Activation R) (world : σ)
    (i : Instruction R) (callee : Function R) (args : List (Value R)) :
    Fresh (Bool × Activation R × σ) := do
  let (s, world) ← h.analyse world b.function callee args a.store
  match returnedError? h world s callee.id with
  | none => return (false, { a with store := s }, world)
  | some (error, range) =>
    let s :=
      match b.resultRange? s i, range with
      | none, some range => s.setRange (b.key i) range
      | _, _ => s
    return (true, b.write { a with store := s } i error, world)

/-- The rule for returns: the returned error is kept for the return, and raises what is recorded for
the function if it is larger.  The latter gets a noise symbol of its own. -/
def ret (b : Body R) (a : Activation R) (i : Instruction R) (value : Option (Value R)) :
    Attempt (Activation R) := do
  let some value := value | failure
  let o ← b.operand a.store value none
  let a := b.write a i o.error
  let summary := Key.function b.function.id
  let larger :=
    match a.store.error? summary with
    | some old => decide (old.noiseBound < o.absError)
    | none => true
  if larger then
    let error ← o.error.flatten
    return { a with store := a.store.set summary ⟨o.range, some error⟩ }
  else
    return a

end Body

end Roundoff
