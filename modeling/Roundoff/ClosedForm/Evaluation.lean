/-
# Bounds of expressions

The bounds of an expression follow from the bounds of its symbols.  The evaluation does not recurse:
one stack holds the visits still to be made, another one the bounds found so far.  An operation is
visited before its operands and again after them, when the bounds of the operands are on top of the
second stack and are combined.  A visit takes itself off the first stack and puts at most the visits
to the parts of its expression there, which bounds the number of visits.
-/
import Roundoff.ClosedForm.Bounds
import Roundoff.ClosedForm.Obstacle

namespace Roundoff

variable {R : Type}

/-- The number of visits that an expression takes: one for a constant or a symbol, two for an
operation besides those of its operands. -/
def Expr.visits : Expr R → Nat
  | const _ | symbol _ => 1
  | op _ a b => a.visits + b.visits + 2

/-- A visit of an expression. -/
inductive Evaluation.Visit (R : Type) where
  /-- The visit before the operands. -/
  | enter (e : Expr R)
  /-- The visit after the operands. -/
  | combine (e : Expr R)
deriving Repr

/-- The stacks of an evaluation, both with the top in front. -/
structure Evaluation (R : Type) where
  /-- The visits still to be made. -/
  work : List (Evaluation.Visit R)
  /-- The bounds found so far. -/
  values : List (Bounds R)
deriving Repr

namespace Evaluation

/-- The number of visits that a visit leads to, itself included. -/
def Visit.cost : Visit R → Nat
  | enter e => e.visits
  | combine _ => 1

/-- The number of visits left, if no obstacle ends the evaluation. -/
def remaining (s : Evaluation R) : Nat := s.work.foldr (fun v n => v.cost + n) 0

/-- The evaluation of an expression begins with entering it. -/
def start (e : Expr R) : Evaluation R := ⟨[.enter e], []⟩

/-- Put bounds on the stack. -/
def push (s : Evaluation R) (x : Bounds R) : Evaluation R := { s with values := x :: s.values }

end Evaluation

/-- The bounds of symbols, as far as they are known. -/
abbrev SymbolBounds (R : Type) := Nat → Except (Obstacle R) (Bounds R)

variable [Number R]

/-- The bounds of the result of an operation, unless a divisor may be zero. -/
def Arith.bounds? (x y : Bounds R) : Arith → Option (Bounds R)
  | add => some (x.add y)
  | sub => some (x.sub y)
  | mul => some (x.mul y)
  | div => x.div y

namespace Evaluation

/-! ## Visits -/

/-- Enter an expression: a constant or a symbol has bounds, those of an operation have to wait for
its operands. -/
def enter (lookup : SymbolBounds R) (s : Evaluation R) : Expr R → Except (Obstacle R) (Evaluation R)
  | .const c => .ok (s.push (Bounds.point c))
  | .symbol n => (lookup n).map s.push
  | .op o a b => .ok { s with work := .enter a :: .enter b :: .combine (.op o a b) :: s.work }

/-- Combine the bounds of the operands of an operation, those of the right one on top. -/
def combine (s : Evaluation R) (e : Expr R) : Except (Obstacle R) (Evaluation R) :=
  match s.values, e with
  | y :: x :: values, .op o _ _ =>
    match o.bounds? x y with
    | some z => .ok ⟨s.work, z :: values⟩
    | none => .error .unboundedDerivative
  | _, _ => .error (.unsupportedValue (.expression e))

/-- Make a visit. -/
def visit (lookup : SymbolBounds R) (s : Evaluation R) :
    Visit R → Except (Obstacle R) (Evaluation R)
  | .enter e => s.enter lookup e
  | .combine e => s.combine e

/-- What a visit does where it meets no obstacle. -/
inductive Leads (lookup : SymbolBounds R) (s : Evaluation R) : Visit R → Evaluation R → Prop
  | const (c : R) : Leads lookup s (.enter (.const c)) (s.push (Bounds.point c))
  | symbol {n : Nat} {x : Bounds R} (h : lookup n = .ok x) :
    Leads lookup s (.enter (.symbol n)) (s.push x)
  | operands (o : Arith) (a b : Expr R) :
    Leads lookup s (.enter (.op o a b))
      { s with work := .enter a :: .enter b :: .combine (.op o a b) :: s.work }
  | result {o : Arith} (a b : Expr R) {x y z : Bounds R} {values : List (Bounds R)}
    (hvalues : s.values = y :: x :: values) (hz : o.bounds? x y = some z) :
    Leads lookup s (.combine (.op o a b)) ⟨s.work, z :: values⟩

variable {lookup : SymbolBounds R} {s s' : Evaluation R} {v : Visit R}

theorem leads_of_enter {e : Expr R} (h : s.enter lookup e = .ok s') :
    s.Leads lookup (.enter e) s' := by
  cases e with
  | const c =>
    cases h
    exact .const c
  | symbol n =>
    rw [enter] at h
    cases hn : lookup n with
    | error o =>
      rw [hn] at h
      cases h
    | ok x =>
      rw [hn] at h
      cases h
      exact .symbol hn
  | op o a b =>
    cases h
    exact .operands o a b

theorem leads_of_combine {e : Expr R} (h : s.combine e = .ok s') :
    s.Leads lookup (.combine e) s' := by
  unfold combine at h
  split at h
  · next y x values o a b hvalues =>
    cases hz : o.bounds? x y with
    | none =>
      rw [hz] at h
      cases h
    | some z =>
      rw [hz] at h
      cases h
      exact .result a b hvalues hz
  · cases h

theorem leads_of_visit (h : s.visit lookup v = .ok s') : s.Leads lookup v s' := by
  cases v with
  | enter e => exact leads_of_enter h
  | combine e => exact leads_of_combine h

/-- A visit takes itself off those that are left. -/
theorem Leads.remaining (h : s.Leads lookup v s') :
    s'.remaining + 1 = v.cost + s.remaining := by
  cases h with
  | const c => exact Nat.add_comm _ _
  | symbol _ => exact Nat.add_comm _ _
  | operands o a b =>
    simp only [Evaluation.remaining, List.foldr_cons, Visit.cost, Expr.visits]
    omega
  | result a b _ _ => exact Nat.add_comm _ _

/-! ## The whole evaluation -/

/-- Make the visits that are left in the evaluation of `e`. -/
def run (lookup : SymbolBounds R) (e : Expr R) : Evaluation R → Except (Obstacle R) (Bounds R)
  | ⟨[], x :: _⟩ => .ok x
  | ⟨[], []⟩ => .error (.unsupportedValue (.expression e))
  | ⟨v :: work, values⟩ =>
    match _h : visit lookup ⟨work, values⟩ v with
    | .ok s => run lookup e s
    | .error o => .error o
termination_by s => s.remaining
decreasing_by
  have hremaining := (leads_of_visit _h).remaining
  simp only [remaining, List.foldr_cons] at hremaining ⊢
  omega

end Evaluation

/-- The bounds of an expression. -/
def Expr.evaluate (e : Expr R) (lookup : SymbolBounds R) : Except (Obstacle R) (Bounds R) :=
  (Evaluation.start e).run lookup e

/-- The largest magnitude of an expression. -/
def Expr.maxAbs (e : Expr R) (lookup : SymbolBounds R) : Except (Obstacle R) R :=
  match e.const? with
  | some c => .ok (Number.abs c)
  | none => (e.evaluate lookup).map Bounds.maxAbs

end Roundoff
