/-
# Visiting instructions and blocks

A visit of an instruction starts from its annotation: an annotated range becomes the range of the
result, and an annotated initial error settles the result altogether.  Otherwise the rule for its
operation applies.
-/
import Roundoff.Transfer.Comparison
import Roundoff.Transfer.Memory
import Roundoff.Transfer.Call

namespace Roundoff

variable {R σ : Type} [Number R]

/-- What a visit leaves: whether it found the data it needs, or the fault at which it stopped, the
state of the activation, and the state of the analysis of the whole program. -/
structure Outcome (R σ α : Type) where
  /-- The answer of the visit. -/
  answer : Except Fault α
  /-- The state of the activation. -/
  state : Activation R
  /-- The state of the analysis of the whole program. -/
  world : σ

namespace Body

/-- The outcome of a rule that calls nothing; the state stays as it is if data are missing. -/
def attempt (a : Activation R) (world : σ) (rule : Attempt (Activation R)) :
    Fresh (Outcome R σ Bool) := do
  match ← rule.run with
  | some a => return ⟨.ok true, a, world⟩
  | none => return ⟨.ok false, a, world⟩

/-- The rule for calls. -/
def call (b : Body R) (h : CallHandler R σ) (a : Activation R) (world : σ) (i : Instruction R)
    (callee : Callee R) (args : List (Value R)) : Fresh (Outcome R σ Bool) := do
  match b.routine? callee with
  | some f =>
    match args with
    | [] => return ⟨.error (.missingArgument b.function.name f), a, world⟩
    | arg :: _ => attempt a world (b.libraryCall a i f arg)
  | none =>
    match b.module.calleeBody? callee with
    | none => return ⟨.ok false, a, world⟩
    | some f =>
      let (found, a, world) ← b.functionCall h a world i f args
      return ⟨.ok found, a, world⟩

/-- Apply the rule for the operation of an instruction. -/
def operate (b : Body R) (h : CallHandler R σ) (edges : PhiEdges) (a : Activation R) (world : σ)
    (i : Instruction R) : Fresh (Outcome R σ Bool) :=
  match i.op with
  | .binary op lhs rhs => attempt a world (b.binary a i op lhs rhs)
  | .cast op v => attempt a world (b.cast a i op v)
  | .icmp _ lhs rhs | .fcmp _ lhs rhs => attempt a world (b.comparison a i lhs rhs)
  | .select _ t f => attempt a world (b.select a i t f)
  | .phi incoming => attempt a world (b.phi a i edges incoming)
  | .alloca ty => do
    match ← (b.alloca a i ty).run with
    | .ok (some a) => return ⟨.ok true, a, world⟩
    | .ok none => return ⟨.ok false, a, world⟩
    | .error fault => return ⟨.error fault, a, world⟩
  | .load ptr => attempt a world (b.load a i ptr)
  | .store value ptr => attempt a world (b.store a i value ptr)
  | .element base _ => attempt a world (b.element a i base)
  | .call callee args | .invoke callee args _ _ => b.call h a world i callee args
  | .ret value => attempt a world (b.ret a i value)
  | .br _ | .condBr .. | .unreachable => return ⟨.ok false, a, world⟩

/-- Visit an instruction. -/
def visit (b : Body R) (h : CallHandler R σ) (edges : PhiEdges) (a : Activation R) (world : σ)
    (i : Instruction R) : Fresh (Outcome R σ Bool) := do
  if a.pinned.contains i.id then return ⟨.ok true, a, world⟩
  else
    match i.scalarInfo? with
    | none => b.operate h edges a world i
    | some info =>
      if info.initialError.isSome then
        let s ← a.store.seed (b.key i) info
        return ⟨.ok true, { a with store := s }, world⟩
      else
        let s := a.store.setRange (b.key i) info.rangeOrZero
        b.operate h edges { a with store := s } world i

/-- Visit instructions one after the other up to the first fault, and count those that had data. -/
def visitAll (b : Body R) (h : CallHandler R σ) (edges : PhiEdges) (count : Nat)
    (a : Activation R) (world : σ) : List (Instruction R) → Fresh (Outcome R σ Nat)
  | [] => return ⟨.ok count, a, world⟩
  | i :: is => do
    let o ← b.visit h edges a world i
    match o.answer with
    | .error fault => return ⟨.error fault, o.state, o.world⟩
    | .ok found => b.visitAll h edges (if found then count + 1 else count) o.state o.world is

/-- Visit the instructions of a block. -/
def visitBlock (b : Body R) (h : CallHandler R σ) (v : Visit) (a : Activation R) (world : σ) :
    Fresh (Outcome R σ Nat) :=
  b.visitAll h v.edges 0 a world (b.function.blockInsts v.block)

end Body

end Roundoff
