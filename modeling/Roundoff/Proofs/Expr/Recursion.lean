/-
# Evaluation by recursion

The bounds of an expression are found by visits that work on two stacks.  What the visits of an
expression leave on the stack is what the recursion over the expression gives: the bounds of an
operation are made of those of its operands, and the first obstacle from the left ends the
evaluation.  So facts about evaluation are proved by induction over expressions, and the stacks are
met only here.
-/
import Roundoff.ClosedForm.Evaluation

namespace Roundoff

/-- A computation in two stages succeeds if both of them do. -/
theorem Except.bind_eq_ok_iff {ε α β : Type} {m : Except ε α} {f : α → Except ε β} {b : β} :
    m >>= f = .ok b ↔ ∃ a, m = .ok a ∧ f a = .ok b := by
  cases m with
  | error e => simp [bind, Except.bind]
  | ok a => simp [bind, Except.bind]

variable {R : Type} [Number R] {lookup : SymbolBounds R} {o : Arith}

/-- The bounds of the result of an operation, or why there are none. -/
def Arith.bounds (x y : Bounds R) (o : Arith) : Except (Obstacle R) (Bounds R) :=
  match o.bounds? x y with
  | some z => .ok z
  | none => .error .unboundedDerivative

theorem Arith.bounds_eq_ok_iff {x y z : Bounds R} :
    o.bounds x y = .ok z ↔ o.bounds? x y = some z := by
  rw [bounds]
  cases o.bounds? x y <;> simp

/-- The bounds of an expression, made of the bounds of its operands. -/
def Expr.bounds (lookup : SymbolBounds R) : Expr R → Except (Obstacle R) (Bounds R)
  | const c => .ok (Bounds.point c)
  | symbol s => lookup s
  | op o a b => do
    let x ← a.bounds lookup
    let y ← b.bounds lookup
    o.bounds x y

/-! ## Visits -/

namespace Evaluation

variable {whole : Expr R} {work : List (Visit R)} {values : List (Bounds R)}

theorem run_nil {x : Bounds R} : run lookup whole ⟨[], x :: values⟩ = .ok x := by
  rw [run]

theorem run_cons {v : Visit R} :
    run lookup whole ⟨v :: work, values⟩
      = visit lookup ⟨work, values⟩ v >>= run lookup whole := by
  rw [run]
  split
  · next s h =>
    rw [h]
    rfl
  · next o h =>
    rw [h]
    rfl

/-- The second visit of an operation finds the bounds of its operands on the stack. -/
theorem run_combine (a b : Expr R) {x y : Bounds R} :
    run lookup whole ⟨.combine (.op o a b) :: work, y :: x :: values⟩
      = o.bounds x y >>= fun z => run lookup whole ⟨work, z :: values⟩ := by
  simp only [run_cons, visit, combine, Arith.bounds]
  cases o.bounds? x y <;> rfl

/-- The visits of an expression put its bounds on the stack, or an obstacle ends the evaluation. -/
theorem run_enter (e : Expr R) (work : List (Visit R)) (values : List (Bounds R)) :
    run lookup whole ⟨.enter e :: work, values⟩
      = e.bounds lookup >>= fun x => run lookup whole ⟨work, x :: values⟩ := by
  induction e generalizing work values with
  | const c => exact run_cons
  | symbol s =>
    rw [run_cons, visit, enter, Expr.bounds]
    cases lookup s <;> rfl
  | op o a b iha ihb =>
    rw [run_cons]
    change run lookup whole ⟨.enter a :: .enter b :: .combine (.op o a b) :: work, values⟩ = _
    rw [iha, Expr.bounds]
    -- an obstacle in an operand ends both sides; otherwise the operation finds its operands on top
    cases a.bounds lookup with
    | error obstacle => rfl
    | ok x =>
      change run lookup whole ⟨.enter b :: .combine (.op o a b) :: work, x :: values⟩ = _
      rw [ihb]
      cases b.bounds lookup with
      | error obstacle => rfl
      | ok y => exact run_combine a b

end Evaluation

/-! ## Evaluation -/

namespace Expr

variable {a b : Expr R}

/-- **The evaluation on stacks is the recursion over the expression.** -/
theorem evaluate_eq_bounds (e : Expr R) (lookup : SymbolBounds R) :
    e.evaluate lookup = e.bounds lookup := by
  rw [evaluate, Evaluation.start, Evaluation.run_enter]
  cases e.bounds lookup with
  | error o => rfl
  | ok x => exact Evaluation.run_nil

@[simp] theorem evaluate_const (c : R) : (const c).evaluate lookup = .ok (Bounds.point c) :=
  evaluate_eq_bounds _ _

theorem evaluate_symbol (s : Nat) : (symbol s).evaluate lookup = lookup s :=
  evaluate_eq_bounds _ _

/-- An operation has bounds if its operands have bounds between which it is defined. -/
theorem evaluate_op_eq_ok_iff {z : Bounds R} :
    (op o a b).evaluate lookup = .ok z ↔
      ∃ x, a.evaluate lookup = .ok x ∧ ∃ y, b.evaluate lookup = .ok y ∧
        o.bounds? x y = some z := by
  simp only [evaluate_eq_bounds, bounds, Except.bind_eq_ok_iff, Arith.bounds_eq_ok_iff]

end Expr

end Roundoff
