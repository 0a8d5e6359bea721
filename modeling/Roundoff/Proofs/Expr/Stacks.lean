/-
# The stacks of an evaluation

An evaluation makes its visits one after the other.  Each of them takes itself off the visits that
are left, so the evaluation of an expression ends after `Expr.visits` turns at the latest.  What a
turn keeps is the balance of the two stacks (`Balances`): the visits that are left find an operation
and the bounds of both its operands wherever bounds are combined, and leave a single pair of bounds
at the end.  So the only obstacles are those of the expression itself, an unknown symbol or a
divisor that may be zero, and the evaluation meets the first one of them in postorder.
-/
import Roundoff.Number.Double
import Roundoff.Proofs.Expr.Recursion

namespace Roundoff

variable {R : Type} [Number R] {lookup : SymbolBounds R}

namespace Evaluation

variable {s s' : Evaluation R} {n : Nat}

/-! ## Turns -/

/-- A turn of an evaluation: the visit on top of the stack is made, without an obstacle. -/
def Turn (lookup : SymbolBounds R) (s s' : Evaluation R) : Prop :=
  ∃ v work, s.work = v :: work ∧ visit lookup ⟨work, s.values⟩ v = .ok s'

/-- A number of turns, one after the other. -/
inductive Turns (lookup : SymbolBounds R) (s : Evaluation R) : Nat → Evaluation R → Prop
  | none : Turns lookup s 0 s
  | next {n : Nat} {s' s'' : Evaluation R} (h : Turns lookup s n s') (hturn : Turn lookup s' s'') :
    Turns lookup s (n + 1) s''

theorem Turn.remaining (h : Turn lookup s s') : s'.remaining + 1 = s.remaining := by
  obtain ⟨v, work, hwork, hvisit⟩ := h
  rw [(leads_of_visit hvisit).remaining, Evaluation.remaining, Evaluation.remaining, hwork]
  rfl

theorem Turns.remaining (h : Turns lookup s n s') : n + s'.remaining = s.remaining := by
  induction h with
  | none => exact Nat.zero_add _
  | next _ hturn ih =>
    have hremaining := hturn.remaining
    omega

theorem Turn.run_eq (h : Turn lookup s s') (e : Expr R) : s'.run lookup e = s.run lookup e := by
  obtain ⟨v, work, hwork, hvisit⟩ := h
  obtain ⟨_, values⟩ := s
  obtain rfl : _ = v :: work := hwork
  rw [run_cons, hvisit]
  rfl

/-- The turns are those of the evaluation: it gives the same result from every state that they
reach. -/
theorem Turns.run_eq (h : Turns lookup s n s') (e : Expr R) : s'.run lookup e = s.run lookup e := by
  induction h with
  | none => rfl
  | next _ hturn ih => rw [hturn.run_eq e, ih]

/-! ## Balance -/

/-- On a stack of the given height, visits find the bounds that they combine and leave a single pair
of bounds in the end. -/
def Balances : List (Visit R) → Nat → Prop
  | [], height => height = 1
  | .enter _ :: work, height => Balances work (height + 1)
  | .combine (.op _ _ _) :: work, height + 2 => Balances work (height + 1)
  | .combine _ :: _, _ => False

theorem Turn.balances (h : Turn lookup s s') (hs : Balances s.work s.values.length) :
    Balances s'.work s'.values.length := by
  obtain ⟨v, work, hwork, hvisit⟩ := h
  rw [hwork] at hs
  cases leads_of_visit hvisit with
  | const c => exact hs
  | symbol _ => exact hs
  | operands o a b => exact hs
  | result a b hvalues _ =>
    rw [show s.values = _ from hvalues] at hs
    exact hs

theorem Turns.balances (h : Turns lookup s n s') (hs : Balances s.work s.values.length) :
    Balances s'.work s'.values.length := by
  induction h with
  | none => exact hs
  | next _ hturn ih => exact hturn.balances ih

/-- The checks of the stacks do not fail. -/
structure IsBalanced (s : Evaluation R) : Prop where
  /-- Only operations are combined, and the bounds of both operands are there. -/
  operands : ∀ e work, s.work = .combine e :: work →
    ∃ o a b x y values, e = .op o a b ∧ s.values = y :: x :: values
  /-- In the end there is a single pair of bounds. -/
  result : s.work = [] → ∃ x, s.values = [x]

omit [Number R] in
theorem isBalanced_of_balances (h : Balances s.work s.values.length) : s.IsBalanced := by
  constructor
  · intro e work hwork
    rw [hwork] at h
    match e, s.values, h with
    | .op o a b, y :: x :: values, _ => exact ⟨o, a, b, x, y, values, rfl, rfl⟩
  · intro hwork
    rw [hwork] at h
    exact List.length_eq_one_iff.1 h

theorem Turns.isBalanced {e : Expr R} (h : Turns lookup (start e) n s) : s.IsBalanced :=
  isBalanced_of_balances (h.balances rfl)

end Evaluation

/-! ## The first obstacle -/

namespace Expr

variable {a b e : Expr R} {o : Arith}

/-- The parts of an expression in postorder: from left to right, each operation after its operands. -/
def postorder : Expr R → List (Expr R)
  | const c => [const c]
  | symbol s => [symbol s]
  | op o a b => a.postorder ++ b.postorder ++ [op o a b]

/-- The obstacle that an expression meets itself, its operands having bounds: the one that keeps a
symbol from having bounds, or a divisor that may be zero. -/
def obstacle? (lookup : SymbolBounds R) : Expr R → Option (Obstacle R)
  | symbol s =>
    match lookup s with
    | .ok _ => none
    | .error o => some o
  | op .div a b =>
    match a.bounds lookup, b.bounds lookup with
    | .ok _, .ok y => if y.containsZero then some .unboundedDerivative else none
    | _, _ => none
  | _ => none

/-- What keeps an expression from having bounds. -/
def failure? (lookup : SymbolBounds R) (e : Expr R) : Option (Obstacle R) :=
  match e.bounds lookup with
  | .ok _ => none
  | .error o => some o

theorem failure?_of_ok {x : Bounds R} (h : e.bounds lookup = .ok x) : e.failure? lookup = none := by
  rw [failure?, h]

theorem failure?_of_error {obstacle : Obstacle R} (h : e.bounds lookup = .error obstacle) :
    e.failure? lookup = some obstacle := by
  rw [failure?, h]

/-- Between operands that have bounds an operation fails by itself. -/
theorem obstacle?_op {x y : Bounds R} (ha : a.bounds lookup = .ok x)
    (hb : b.bounds lookup = .ok y) :
    (op o a b).obstacle? lookup = (op o a b).failure? lookup := by
  rw [failure?, bounds, ha, hb]
  change _ = match o.bounds x y with | .ok _ => none | .error o => some o
  cases o with
  | add => rfl
  | sub => rfl
  | mul => rfl
  | div =>
    simp only [obstacle?, ha, hb, Arith.bounds, Arith.bounds?, Bounds.div]
    cases y.containsZero <;> rfl

/-- An operation fails where its left operand fails, then where its right one does, then by itself. -/
theorem failure?_op (o : Arith) (a b : Expr R) :
    (op o a b).failure? lookup
      = ((a.failure? lookup).or (b.failure? lookup)).or ((op o a b).obstacle? lookup) := by
  cases ha : a.bounds lookup with
  | error obstacle =>
    have h : (op o a b).bounds lookup = .error obstacle := by
      rw [bounds, ha]
      rfl
    rw [failure?_of_error h, failure?_of_error ha]
    rfl
  | ok x =>
    cases hb : b.bounds lookup with
    | error obstacle =>
      have h : (op o a b).bounds lookup = .error obstacle := by
        rw [bounds, ha, hb]
        rfl
      rw [failure?_of_error h, failure?_of_ok ha, failure?_of_error hb]
      rfl
    | ok y =>
      rw [obstacle?_op ha hb, failure?_of_ok ha, failure?_of_ok hb]
      rfl

/-- An expression fails where the first of its parts does, in postorder. -/
theorem failure?_eq (e : Expr R) (lookup : SymbolBounds R) :
    e.failure? lookup = e.postorder.findSome? (obstacle? lookup) := by
  induction e with
  | const c => rfl
  | symbol s =>
    rw [failure?, postorder, bounds, List.findSome?_singleton, obstacle?]
  | op o a b iha ihb =>
    rw [failure?_op, iha, ihb, postorder, List.findSome?_append, List.findSome?_append,
      List.findSome?_singleton]

theorem evaluate_eq_error_iff {o : Obstacle R} :
    e.evaluate lookup = .error o ↔ e.failure? lookup = some o := by
  rw [evaluate_eq_bounds, failure?]
  cases e.bounds lookup <;> simp

theorem exists_evaluate_eq_ok (h : ∀ t ∈ e.postorder, t.obstacle? lookup = none) :
    ∃ x, e.evaluate lookup = .ok x := by
  cases hx : e.evaluate lookup with
  | ok x => exact ⟨x, rfl⟩
  | error o =>
    rw [evaluate_eq_error_iff, failure?_eq, List.findSome?_eq_none_iff.2 h] at hx
    cases hx

/-- **The evaluation on stacks refines the recursion over the expression**, whatever the numbers and
the bounds of the symbols are.  It gives the bounds that the recursion gives; it gives some if no
part of the expression meets an obstacle, and the first obstacle in postorder otherwise.  After `n`
turns exactly `e.visits - n` are left, none of the checks of its stacks fails, and what is left
gives the same result. -/
theorem evaluate_refines_recursion (e : Expr R) (lookup : SymbolBounds R) :
    e.evaluate lookup = e.bounds lookup ∧
      ((∀ t ∈ e.postorder, t.obstacle? lookup = none) → ∃ x, e.evaluate lookup = .ok x) ∧
      (∀ o, e.evaluate lookup = .error o ↔ e.postorder.findSome? (obstacle? lookup) = some o) ∧
      ∀ n s, Evaluation.Turns lookup (.start e) n s →
        n + s.remaining = e.visits ∧ s.IsBalanced ∧ s.run lookup e = e.evaluate lookup := by
  refine ⟨evaluate_eq_bounds e lookup, exists_evaluate_eq_ok, fun o => ?_, fun n s h => ?_⟩
  · rw [evaluate_eq_error_iff, failure?_eq]
  · exact ⟨h.remaining, h.isBalanced, h.run_eq e⟩

end Expr

/-! ## Over doubles -/

namespace MixedRanges

/-- The first symbol lies between 1 and 2, the second one between -3 and 1, and nothing is known of
the third one. -/
def ranges : SymbolBounds Float
  | 0 => .ok ⟨1.0, 2.0⟩
  | 1 => .ok ⟨-3.0, 1.0⟩
  | _ => .error (.missingRange (.named "s2"))

/-- The difference of 10 and the first symbol. -/
def difference : Expr Float := .op .sub (.const 10.0) (.symbol 0)

/-- The sum of a quotient by the second symbol and the third symbol. -/
def sum : Expr Float := .op .add (.op .div (.const 1.0) (.symbol 1)) (.symbol 2)

/-- The state after the sum, the quotient and the dividend have been entered. -/
def entered : Evaluation Float :=
  ⟨[.enter (.symbol 1), .combine (.op .div (.const 1.0) (.symbol 1)), .enter (.symbol 2),
    .combine sum], [⟨1.0, 1.0⟩]⟩

theorem turns_entered : Evaluation.Turns ranges (.start sum) 3 entered :=
  ((Evaluation.Turns.none.next ⟨_, _, rfl, rfl⟩).next ⟨_, _, rfl, rfl⟩).next ⟨_, _, rfl, rfl⟩

/-- No part of the difference meets an obstacle, and its bounds are those of the operands in order.
The divisor of the sum may be zero, which is noted before the symbol without a range; after three of
its seven turns four are left. -/
theorem evaluate_refines_recursion_of_doubles :
    (∃ x, difference.evaluate ranges = .ok x) ∧ difference.evaluate ranges = .ok ⟨8.0, 9.0⟩ ∧
      sum.evaluate ranges = .error .unboundedDerivative ∧
      3 + entered.remaining = 7 ∧ entered.IsBalanced := by
  obtain ⟨hdifference, hok, -, -⟩ := Expr.evaluate_refines_recursion difference ranges
  obtain ⟨-, -, hsum, hturns⟩ := Expr.evaluate_refines_recursion sum ranges
  obtain ⟨hremaining, hbalanced, -⟩ := hturns 3 entered turns_entered
  refine ⟨hok ?_, hdifference.trans rfl, (hsum _).2 rfl, hremaining, hbalanced⟩
  intro t ht
  have hparts : difference.postorder = [.const 10.0, .symbol 0, difference] := rfl
  simp only [hparts, List.mem_cons, List.not_mem_nil, or_false] at ht
  rcases ht with rfl | rfl | rfl <;> rfl

end MixedRanges

end Roundoff
