/-
# Chains of definitions

The expression of a value is found by following its definition back to phis, constants and values
from outside the loop.  A module may be valid although this never comes to an end, since a value of
a loop may be computed from itself without a phi.  So the search takes a number of steps, and a
value for which they do not suffice is an obstacle.

That is no restriction.  The obstacle that is met does not depend on what has been found before, so
each value needs a certain number of steps, or none suffices.  A value that needs more steps than
one reads a value that needs one step less.  On the way down no instruction is met twice, since it
would need two different numbers of steps.  So if any number of steps suffices, then one more than
there are instructions does, and the expression is the same.
-/
import Mathlib
import Roundoff.Program.Validity
import Roundoff.Proofs.Loop.Symbols
import Roundoff.Proofs.Number.Exact

namespace Roundoff

variable {R : Type} {α β : Type}

/-- The operands to which the search for an expression goes on. -/
def Reading.operands : Reading R → List (Value R)
  | .arith _ x y => [x, y]
  | .operand x => [x]
  | .phi _ | .unsupported => []

/-! ## Obstacles that are met whatever has been found -/

namespace Collect

variable {m : Collect R α} {f : α → Collect R β} {o o' : Option (Obstacle R)}

/-- Whatever has been found before, the search stops at the obstacle, if there is one. -/
def StopsAt (m : Collect R α) (o : Option (Obstacle R)) : Prop :=
  ∀ S, (∃ r, m.run S = .ok r ∧ o = none) ∨ ∃ e, m.run S = .error e ∧ o = some e

lemma stopsAt_pure (a : α) : StopsAt (pure a : Collect R α) none := fun S => .inl ⟨(a, S), rfl, rfl⟩

lemma stopsAt_throw (e : Obstacle R) : StopsAt (throw e : Collect R α) (some e) :=
  fun _ => .inr ⟨e, rfl, rfl⟩

lemma stopsAt_symbol (k : Key) (v : Value R) : StopsAt (symbol k v) none := by
  intro S
  rw [symbol, StateT.run_bind, StateT.run_get, pure_bind]
  cases S.findIdx? fun s => s.key == k with
  | none => exact .inl ⟨(S.length, S ++ [{ key := k, value := v }]), rfl, rfl⟩
  | some n => exact .inl ⟨(n, S), rfl, rfl⟩

lemma stopsAt_change (n : ℕ) (f : PendingSymbol R → PendingSymbol R) : StopsAt (change n f) none :=
  fun S => .inl ⟨((), S.modify n f), rfl, rfl⟩

/-- What is known is passed on. -/
lemma StopsAt.ok_bind {a : α} (hf : StopsAt (f a) o) :
    StopsAt ((liftM (.ok a : Except (Obstacle R) α) : Collect R α) >>= f) o := hf

lemma stopsAt_error_bind (f : α → Collect R β) (e : Obstacle R) :
    StopsAt ((liftM (.error e : Except (Obstacle R) α) : Collect R α) >>= f) (some e) :=
  fun _ => .inr ⟨e, rfl, rfl⟩

lemma StopsAt.bind (hm : StopsAt m o) (hf : ∀ a, StopsAt (f a) o') :
    StopsAt (m >>= f) (o.or o') := by
  intro S
  rcases hm S with ⟨⟨a, S'⟩, hrun, rfl⟩ | ⟨e, hrun, rfl⟩
  · rw [StateT.run_bind, hrun]
    exact hf a S'
  · rw [StateT.run_bind, hrun]
    exact .inr ⟨e, rfl, rfl⟩

/-- The search does not stop because it takes too many steps. -/
def IsNotCircular (m : Collect R α) : Prop := ∀ S u, m.run S ≠ .error (.circular u)

lemma StopsAt.isNotCircular (hm : StopsAt m o) (ho : ∀ u, o ≠ some (.circular u)) :
    m.IsNotCircular := by
  intro S u hrun
  rcases hm S with ⟨r, hok, -⟩ | ⟨e, herror, rfl⟩
  · cases hok.symm.trans hrun
  · exact ho u (congrArg some (Except.error.inj (herror.symm.trans hrun)))

lemma IsNotCircular.bind (hm : m.IsNotCircular) (hf : ∀ a, (f a).IsNotCircular) :
    (m >>= f).IsNotCircular := by
  intro S u
  rw [StateT.run_bind]
  cases hrun : m.run S with
  | error e =>
    intro h
    cases h
    exact hm S u hrun
  | ok r => exact hf r.1 r.2 u

lemma isNotCircular_lift {x : Except (Obstacle R) α} (hx : ∀ u, x ≠ .error (.circular u)) :
    IsNotCircular (liftM x : Collect R α) := by
  intro S u
  cases x with
  | error e =>
    intro h
    cases h
    exact hx u rfl
  | ok a => exact nofun

end Collect

/-! ## The obstacle on the way to an expression -/

namespace Body

variable {b : Body R} {shape : LoopShape} {i : Instruction R} {v x : Value R} {n n' : ℕ}

/-- The obstacle that a phi inside an expression is. -/
def phiObstacle? (b : Body R) (shape : LoopShape) (i : Instruction R)
    (incoming : List (Value R × BlockId)) : Option (Obstacle R) :=
  if i.block ≠ shape.cond then some (.unsupportedOperation i.name i.op.name)
  else match carried shape i incoming with
    | .error o => some o
    | .ok (_, body) => match b.symbolKey body with
      | .error o => some o
      | .ok _ => none

/-- The obstacle on the way to the expression of an instruction, where `operand` tells those on the
ways to the expressions of its operands. -/
def readObstacle? (b : Body R) (shape : LoopShape) (i : Instruction R)
    (operand : Value R → Option (Obstacle R)) : Option (Obstacle R) :=
  match i.op.reading with
  | .arith _ x y => (operand x).or (operand y)
  | .operand x => operand x
  | .phi incoming => b.phiObstacle? shape i incoming
  | .unsupported => some (.unsupportedOperation i.name i.op.name)

/-- The obstacle on the way to the expression of a value in the given number of steps. -/
def obstacle? (b : Body R) (shape : LoopShape) : (steps : ℕ) → Value R → Option (Obstacle R)
  | 0, v => some (.circular (b.nameOf v))
  | steps + 1, v =>
    match v with
    | .constInt _ | .constFloat _ | .arg _ | .global _ => none
    | .function _ | .undef => some (.unsupportedValue (b.nameOf v))
    | .inst id =>
      match b.function.inst? id with
      | none => some (.unsupportedValue (b.nameOf v))
      | some i =>
        if shape.contains i.block then b.readObstacle? shape i (b.obstacle? shape steps) else none

lemma obstacle?_inst {id : InstId} (hi : b.function.inst? id = some i) (n : ℕ) :
    b.obstacle? shape (n + 1) (.inst id) =
      if shape.contains i.block then b.readObstacle? shape i (b.obstacle? shape n) else none := by
  rw [obstacle?, hi]

lemma obstacle?_inst_of_eq_none {id : InstId} (hi : b.function.inst? id = none) (n : ℕ) :
    b.obstacle? shape (n + 1) (.inst id) = some (.unsupportedValue (b.nameOf (.inst id))) := by
  rw [obstacle?, hi]

lemma stopsAt_externalSymbol {k : Key} (hk : b.keyOf? v = some k) :
    (b.externalSymbol v).StopsAt none := by
  have hkey : b.symbolKey v = .ok k := by rw [symbolKey, hk]
  unfold externalSymbol
  rw [hkey]
  refine Collect.StopsAt.ok_bind ((Collect.stopsAt_symbol k v).bind fun n => ?_)
  exact (Collect.stopsAt_change n _).bind fun _ => Collect.stopsAt_pure _

lemma stopsAt_phiSymbol (i : Instruction R) (incoming : List (Value R × BlockId)) :
    (b.phiSymbol shape i incoming).StopsAt (b.phiObstacle? shape i incoming) := by
  rw [phiSymbol, phiObstacle?]
  by_cases hcond : i.block ≠ shape.cond
  · rw [if_pos hcond, if_pos hcond]
    exact fun _ => .inr ⟨_, rfl, rfl⟩
  · rw [if_neg hcond, if_neg hcond]
    cases carried shape i incoming with
    | error o => exact Collect.stopsAt_error_bind _ o
    | ok p =>
      obtain ⟨entry, body⟩ := p
      refine Collect.StopsAt.ok_bind ?_
      dsimp only
      cases b.symbolKey body with
      | error o => exact Collect.stopsAt_error_bind _ o
      | ok k =>
        refine Collect.StopsAt.ok_bind ((Collect.stopsAt_symbol k body).bind fun n => ?_)
        exact (Collect.stopsAt_change n _).bind fun _ => Collect.stopsAt_pure _

lemma stopsAt_readExpr {operand : Value R → Collect R (Expr R)} {o : Value R → Option (Obstacle R)}
    (h : ∀ x, (operand x).StopsAt (o x)) :
    (b.readExpr shape i operand).StopsAt (b.readObstacle? shape i o) := by
  rw [readExpr, readObstacle?]
  cases i.op.reading with
  | arith op x y =>
    have hrest : ∀ left, Collect.StopsAt
        (do let right ← operand y; return Expr.op op left right) (o y) := by
      intro left
      have hright : Collect.StopsAt (operand y >>= fun right => pure (Expr.op op left right))
          ((o y).or none) :=
        (h y).bind fun right => Collect.stopsAt_pure (Expr.op op left right)
      rwa [Option.or_none] at hright
    exact (h x).bind hrest
  | operand x => exact h x
  | phi incoming => exact stopsAt_phiSymbol i incoming
  | unsupported => exact Collect.stopsAt_throw _

/-- The search for an expression meets this obstacle, whatever symbols have been found. -/
lemma stopsAt_exprOf [Number R] (b : Body R) (store : Store R) (shape : LoopShape) (n : ℕ)
    (format : Option Format) (v : Value R) :
    (b.exprOf store shape n format v).StopsAt (b.obstacle? shape n v) := by
  induction n generalizing format v with
  | zero => exact Collect.stopsAt_throw _
  | succ n ih =>
    cases v with
    | constInt | constFloat => exact Collect.stopsAt_pure _
    | arg | global => exact stopsAt_externalSymbol rfl
    | function | undef => exact Collect.stopsAt_throw _
    | inst id =>
      cases hi : b.function.inst? id with
      | none =>
        rw [obstacle?_inst_of_eq_none hi, exprOf, hi]
        exact Collect.stopsAt_throw _
      | some i =>
        rw [obstacle?_inst hi, exprOf_inst hi]
        by_cases hin : shape.contains i.block = true
        · rw [if_pos hin, if_pos hin]
          exact stopsAt_readExpr fun x => ih _ x
        · rw [if_neg hin, if_neg hin]
          exact stopsAt_externalSymbol rfl

/-! ## The number of steps -/

/-- The number of steps suffices to find the expression of a value, or an obstacle on the way. -/
def Suffices (b : Body R) (shape : LoopShape) (n : ℕ) (v : Value R) : Prop :=
  ∀ u, b.obstacle? shape n v ≠ some (.circular u)

lemma not_suffices_zero (b : Body R) (shape : LoopShape) (v : Value R) : ¬ b.Suffices shape 0 v :=
  fun h => h _ rfl

lemma carried_ne_circular (shape : LoopShape) (i : Instruction R)
    (incoming : List (Value R × BlockId)) (u : ValueName R) :
    carried shape i incoming ≠ .error (.circular u) := by
  rw [carried]
  cases incomingFrom? incoming shape.body <;> simp

lemma symbolKey_ne_circular (b : Body R) (v : Value R) (u : ValueName R) :
    b.symbolKey v ≠ .error (.circular u) := by
  rw [symbolKey]
  cases b.keyOf? v <;> simp

lemma phiObstacle?_ne_circular (b : Body R) (shape : LoopShape) (i : Instruction R)
    (incoming : List (Value R × BlockId)) (u : ValueName R) :
    b.phiObstacle? shape i incoming ≠ some (.circular u) := by
  rw [phiObstacle?]
  split
  · exact nofun
  · cases hcarried : carried shape i incoming with
    | error o =>
      intro h
      exact carried_ne_circular shape i incoming u (by rw [hcarried, Option.some.inj h])
    | ok p =>
      dsimp only
      cases hkey : b.symbolKey p.2 with
      | error o =>
        intro h
        exact b.symbolKey_ne_circular p.2 u (by rw [hkey, Option.some.inj h])
      | ok k => exact nofun

section Operands

variable {o o' : Value R → Option (Obstacle R)}
  (hagree : ∀ x, (∀ u, o x ≠ some (.circular u)) → o' x = o x)

include hagree

/-- What is met depends on the operands only. -/
lemma readObstacle?_congr (h : ∀ u, b.readObstacle? shape i o ≠ some (.circular u)) :
    b.readObstacle? shape i o' = b.readObstacle? shape i o := by
  rw [readObstacle?] at h ⊢
  rw [readObstacle?]
  cases hread : i.op.reading with
  | arith op x y =>
    simp only [hread] at h ⊢
    have hx : o' x = o x := by
      refine hagree x fun u hu => h u ?_
      rw [hu, Option.some_or]
    rw [hx]
    cases hox : o x with
    | some e => rw [Option.some_or, Option.some_or]
    | none =>
      rw [hox] at h
      exact hagree y h
  | operand x =>
    simp only [hread] at h ⊢
    exact hagree x h
  | phi incoming => rfl
  | unsupported => rfl

/-- If the steps do not suffice for an instruction and one more does, then the same is true of one
of its operands. -/
lemma exists_operand_of_circular {u : ValueName R}
    (h : ∀ u, b.readObstacle? shape i o' ≠ some (.circular u))
    (hcircular : b.readObstacle? shape i o = some (.circular u)) :
    ∃ x, (∀ u, o' x ≠ some (.circular u)) ∧ ∃ u, o x = some (.circular u) := by
  rw [readObstacle?] at h hcircular
  cases hread : i.op.reading with
  | arith op x y =>
    simp only [hread] at h hcircular
    have hx : ∀ u, o' x ≠ some (.circular u) := by
      intro u hu
      exact h u (by rw [hu, Option.some_or])
    cases hox : o x with
    | some e =>
      rw [hox, Option.some_or] at hcircular
      exact ⟨x, hx, u, by rw [hox, hcircular]⟩
    | none =>
      rw [hagree x (by simp [hox]), hox] at h
      rw [hox] at hcircular
      exact ⟨y, h, u, hcircular⟩
  | operand x =>
    simp only [hread] at h hcircular
    exact ⟨x, h, u, hcircular⟩
  | phi incoming =>
    simp only [hread] at h hcircular
    exact absurd hcircular (h u)
  | unsupported =>
    simp only [hread] at hcircular
    cases hcircular

end Operands

/-- More steps meet the same obstacle. -/
lemma obstacle?_succ (h : b.Suffices shape n v) :
    b.obstacle? shape (n + 1) v = b.obstacle? shape n v := by
  induction n generalizing v with
  | zero => exact absurd h (not_suffices_zero b shape v)
  | succ n ih =>
    cases v with
    | inst id =>
      cases hi : b.function.inst? id with
      | none => rw [obstacle?_inst_of_eq_none hi, obstacle?_inst_of_eq_none hi]
      | some i =>
        rw [Suffices, obstacle?_inst hi] at h
        rw [obstacle?_inst hi, obstacle?_inst hi]
        by_cases hin : shape.contains i.block = true
        · rw [if_pos hin] at h ⊢
          rw [if_pos hin]
          exact readObstacle?_congr (fun x hx => ih hx) h
        · rw [if_neg hin, if_neg hin]
    | _ => rfl

lemma obstacle?_eq_of_le (h : b.Suffices shape n v) (hle : n ≤ n') :
    b.obstacle? shape n' v = b.obstacle? shape n v := by
  induction n', hle using Nat.le_induction with
  | base => rfl
  | succ m _ ih =>
    rw [← ih]
    refine obstacle?_succ fun u => ?_
    rw [ih]
    exact h u

/-- More steps suffice as well. -/
lemma Suffices.mono (h : b.Suffices shape n v) (hle : n ≤ n') : b.Suffices shape n' v := by
  intro u
  rw [obstacle?_eq_of_le h hle]
  exact h u

/-- A value needs one more step than the given number. -/
structure Needs (b : Body R) (shape : LoopShape) (n : ℕ) (v : Value R) : Prop where
  /-- One more step suffices. -/
  suffices_succ : b.Suffices shape (n + 1) v
  /-- The given number does not suffice. -/
  not_suffices : ¬ b.Suffices shape n v

/-- A value needs one number of steps. -/
lemma Needs.unique (h : b.Needs shape n v) (h' : b.Needs shape n' v) : n = n' := by
  by_contra hne
  rcases Nat.lt_or_gt_of_ne hne with hlt | hlt
  · exact h'.not_suffices (h.suffices_succ.mono hlt)
  · exact h.not_suffices (h'.suffices_succ.mono hlt)

/-- A value that needs more than one step is an instruction, and reads a value that needs one step
less. -/
lemma Needs.exists_operand (h : b.Needs shape (n + 1) v) :
    ∃ id i, v = .inst id ∧ b.function.inst? id = some i ∧ ∃ x, b.Needs shape n x := by
  have hnot := h.not_suffices
  have hsuffices := h.suffices_succ
  simp only [Suffices, not_forall, not_not] at hnot
  obtain ⟨u, hu⟩ := hnot
  cases v with
  | inst id =>
    cases hi : b.function.inst? id with
    | none =>
      rw [obstacle?_inst_of_eq_none hi] at hu
      cases hu
    | some i =>
      rw [Suffices, obstacle?_inst hi] at hsuffices
      rw [obstacle?_inst hi] at hu
      by_cases hin : shape.contains i.block = true
      · rw [if_pos hin] at hsuffices hu
        obtain ⟨x, hx, hx'⟩ :=
          exists_operand_of_circular (fun x hx => obstacle?_succ hx) hsuffices hu
        exact ⟨id, i, rfl, hi, x, hx, fun h => hx'.elim h⟩
      · rw [if_neg hin] at hu
        cases hu
  | constInt | constFloat | arg | global => cases hu
  | function | undef => cases hu

/-- On the way down from a value that needs `n + 1` steps, there is an instruction for each smaller
number but one. -/
lemma Needs.exists_inst (h : b.Needs shape n v) {m : ℕ} (hm : m < n) :
    ∃ id, (b.function.inst? id).isSome ∧ b.Needs shape (m + 1) (.inst id) := by
  induction n generalizing v with
  | zero => omega
  | succ n ih =>
    obtain ⟨id, i, rfl, hi, x, hx⟩ := h.exists_operand
    rcases Nat.lt_succ_iff_lt_or_eq.1 hm with hlt | rfl
    · exact ih hx hlt
    · exact ⟨id, by rw [hi]; rfl, h⟩

/-- No value needs more steps than one for each instruction and one more. -/
lemma Needs.le_size (h : b.Needs shape n v) : n ≤ b.function.insts.size := by
  choose id hid hneeds using fun m : Fin n => h.exists_inst m.isLt
  have hlt (m : Fin n) : (id m).val.toNat < b.function.insts.size :=
    (Array.getElem?_eq_some_iff.1 (Option.get_mem (hid m))).1
  have hinj : Function.Injective fun m : Fin n => (⟨(id m).val.toNat, hlt m⟩ : Fin _) := by
    intro m m' heq
    have hid' : id m = id m' := congrArg InstId.mk (UInt32.toNat_inj.1 (Fin.mk.inj heq))
    have hnumber := (hneeds m).unique (hid' ▸ hneeds m')
    exact Fin.ext (Nat.succ.inj hnumber)
  simpa using Fintype.card_le_of_injective _ hinj

/-- If some number of steps suffices, then one for each instruction and one more do. -/
theorem Suffices.size_succ (h : b.Suffices shape n v) :
    b.Suffices shape (b.function.insts.size + 1) v := by
  classical
  have hex : ∃ m, b.Suffices shape m v := ⟨n, h⟩
  have hleast := Nat.find_spec hex
  -- the least number of steps that suffices is not zero
  cases hm : Nat.find hex with
  | zero =>
    rw [hm] at hleast
    exact absurd hleast (not_suffices_zero b shape v)
  | succ m =>
    rw [hm] at hleast
    have hneeds : b.Needs shape m v := ⟨hleast, Nat.find_min hex (by omega)⟩
    exact hleast.mono (Nat.succ_le_succ hneeds.le_size)

/-! ## The expression -/

/-- What is read depends on what is found for the operands only. -/
lemma run_readExpr_congr {o : Value R → Option (Obstacle R)}
    {operand operand' : Value R → Collect R (Expr R)} (hstops : ∀ x, (operand x).StopsAt (o x))
    (hagree : ∀ x, (∀ u, o x ≠ some (.circular u)) → ∀ S, (operand' x).run S = (operand x).run S)
    (h : ∀ u, b.readObstacle? shape i o ≠ some (.circular u)) (S : List (PendingSymbol R)) :
    (b.readExpr shape i operand').run S = (b.readExpr shape i operand).run S := by
  rw [readObstacle?] at h
  rw [readExpr, readExpr]
  cases hread : i.op.reading with
  | arith op x y =>
    simp only [hread] at h
    have hx := hagree x (fun u hu => h u (by rw [hu, Option.some_or])) S
    dsimp only
    rw [StateT.run_bind, StateT.run_bind, hx]
    rcases hstops x S with ⟨⟨left, S'⟩, hrun, hnone⟩ | ⟨e, hrun, -⟩
    · rw [hnone] at h
      rw [hrun]
      change StateT.run (do let right ← operand' y; return Expr.op op left right) S'
        = StateT.run (do let right ← operand y; return Expr.op op left right) S'
      rw [StateT.run_bind, StateT.run_bind, hagree y h S']
    · rw [hrun]
      rfl
  | operand x =>
    simp only [hread] at h
    exact hagree x h S
  | phi incoming => rfl
  | unsupported => rfl

variable [Number R] {store : Store R} {format : Option Format} {S : List (PendingSymbol R)}

/-- More steps find the same expression, and the same symbols on the way. -/
lemma run_exprOf_succ (h : b.Suffices shape n v) (format : Option Format)
    (S : List (PendingSymbol R)) :
    (b.exprOf store shape (n + 1) format v).run S = (b.exprOf store shape n format v).run S := by
  induction n generalizing v format S with
  | zero => exact absurd h (not_suffices_zero b shape v)
  | succ n ih =>
    cases v with
    | inst id =>
      cases hi : b.function.inst? id with
      | none => simp only [exprOf, hi]
      | some i =>
        rw [exprOf_inst hi, exprOf_inst hi]
        rw [Suffices, obstacle?_inst hi] at h
        by_cases hin : shape.contains i.block = true
        · rw [if_pos hin] at h
          rw [if_pos hin, if_pos hin]
          exact run_readExpr_congr (fun x => b.stopsAt_exprOf store shape n _ x)
            (fun x hx S => ih hx _ S) h S
        · rw [if_neg hin, if_neg hin]
    | _ => rfl

lemma run_exprOf_eq_of_le (h : b.Suffices shape n v) (hle : n ≤ n') :
    (b.exprOf store shape n' format v).run S = (b.exprOf store shape n format v).run S := by
  induction n', hle using Nat.le_induction with
  | base => rfl
  | succ m hle ih => rw [run_exprOf_succ (h.mono hle), ih]

/-- Whether the steps suffice does not depend on what has been found. -/
lemma suffices_iff : b.Suffices shape n v ↔
    ∀ u, (b.exprOf store shape n format v).run S ≠ .error (.circular u) := by
  rw [Suffices]
  rcases b.stopsAt_exprOf store shape n format v S with ⟨r, hrun, hnone⟩ | ⟨e, hrun, hsome⟩
  · simp [hrun, hnone]
  · simp [hrun, hsome]

/-- **The bound of the steps is no restriction.**  If the search for an expression ends after any
number of steps, then it ends after one more than there are instructions, with the same result. -/
theorem run_exprOf_size_succ
    (h : ∀ u, (b.exprOf store shape n format v).run S ≠ .error (.circular u)) :
    (b.exprOf store shape (b.function.insts.size + 1) format v).run S
      = (b.exprOf store shape n format v).run S := by
  have hsuffices := suffices_iff.2 h
  rcases le_total n (b.function.insts.size + 1) with hle | hle
  · exact run_exprOf_eq_of_le hsuffices hle
  · exact (run_exprOf_eq_of_le hsuffices.size_succ hle).symm

/-! ## Chains that do not lead back -/

lemma mapM_finishSymbol_ne_circular (ps : List (PendingSymbol R × ℕ)) (u : ValueName R) :
    ps.mapM (fun p => b.finishSymbol p.2 p.1) ≠ .error (.circular u) := by
  induction ps with
  | nil => exact nofun
  | cons p ps ih =>
    rw [List.mapM_cons]
    intro h
    cases hp : b.finishSymbol p.2 p.1 with
    | error e =>
      rw [hp] at h
      cases h
      rw [finishSymbol] at hp
      split at hp <;> cases hp
    | ok t =>
      rw [hp] at h
      cases hps : ps.mapM fun p => b.finishSymbol p.2 p.1 with
      | error e =>
        rw [hps] at h
        cases h
        exact ih hps
      | ok ts =>
        rw [hps] at h
        cases h

/-- An instruction of the loop is followed to an operand. -/
def ReadsOperand (b : Body R) (shape : LoopShape) (x v : Value R) : Prop :=
  ∃ id i, v = .inst id ∧ b.function.inst? id = some i ∧ shape.contains i.block = true ∧
    x ∈ i.op.reading.operands

omit [Number R] in
lemma suffices_of_operands {id : InstId}
    (h : ∀ x, b.ReadsOperand shape x (.inst id) → b.Suffices shape n x) :
    b.Suffices shape (n + 1) (.inst id) := by
  intro u
  cases hi : b.function.inst? id with
  | none =>
    rw [obstacle?_inst_of_eq_none hi]
    exact nofun
  | some i =>
    rw [obstacle?_inst hi]
    by_cases hin : shape.contains i.block = true
    · rw [if_pos hin, readObstacle?]
      replace h (x : Value R) (hx : x ∈ i.op.reading.operands) : b.Suffices shape n x :=
        h x ⟨id, i, rfl, hi, hin, hx⟩
      cases hread : i.op.reading with
      | arith op x y =>
        rw [hread] at h
        dsimp only
        rw [ne_eq, Option.or_eq_some_iff, not_or, not_and]
        exact ⟨h x List.mem_cons_self u, fun _ => h y (by simp [Reading.operands]) u⟩
      | operand x =>
        rw [hread] at h
        exact h x List.mem_cons_self u
      | phi incoming => exact b.phiObstacle?_ne_circular shape i incoming u
      | unsupported => exact nofun
    · rw [if_neg hin]
      exact nofun

omit [Number R] in
lemma exists_suffices_forall {xs : List (Value R)} (h : ∀ x ∈ xs, ∃ n, b.Suffices shape n x) :
    ∃ n, ∀ x ∈ xs, b.Suffices shape n x := by
  induction xs with
  | nil => exact ⟨0, nofun⟩
  | cons x xs ih =>
    obtain ⟨m, hm⟩ := h x List.mem_cons_self
    obtain ⟨n, hn⟩ := ih fun y hy => h y (List.mem_cons_of_mem _ hy)
    refine ⟨max m n, fun y hy => ?_⟩
    rcases List.mem_cons.1 hy with rfl | hy
    · exact hm.mono (le_max_left _ _)
    · exact (hn y hy).mono (le_max_right _ _)

instance : Finite InstId := by
  refine Finite.of_injective (fun id : InstId => id.val.toFin) fun id id' h => ?_
  cases id
  cases id'
  exact congrArg InstId.mk (UInt32.toFin_inj.1 h)

variable (hchains : ∀ id, ¬ Relation.TransGen (b.ReadsOperand shape) (.inst id) (.inst id))

include hchains

omit [Number R] in
/-- If no chain leads back to where it begins, then some number of steps suffices. -/
lemma exists_suffices_inst (id : InstId) : ∃ n, b.Suffices shape n (.inst id) := by
  let below (id' id : InstId) : Prop :=
    Relation.TransGen (b.ReadsOperand shape) (.inst id') (.inst id)
  have : IsTrans InstId below := ⟨fun _ _ _ h h' => h.trans h'⟩
  have : Std.Irrefl below := ⟨hchains⟩
  have hwf : WellFounded below := Finite.wellFounded_of_trans_of_irrefl below
  induction id using hwf.induction with
  | _ id ih =>
    have hoperand : ∀ x, b.ReadsOperand shape x (.inst id) → ∃ n, b.Suffices shape n x := by
      intro x hx
      cases x with
      | inst id' => exact ih id' (.single hx)
      | _ => exact ⟨1, fun u => nofun⟩
    by_cases hreads : ∃ i, b.function.inst? id = some i ∧ shape.contains i.block = true
    · obtain ⟨i, hi, hin⟩ := hreads
      obtain ⟨n, hn⟩ : ∃ n, ∀ x ∈ i.op.reading.operands, b.Suffices shape n x :=
        exists_suffices_forall fun x hx => hoperand x ⟨id, i, rfl, hi, hin, hx⟩
      refine ⟨n + 1, suffices_of_operands ?_⟩
      rintro x ⟨_, j, hid, hj, -, hx⟩
      obtain rfl := Value.inst.inj hid
      obtain rfl := Option.some.inj (hi.symm.trans hj)
      exact hn x hx
    · refine ⟨1, suffices_of_operands ?_⟩
      rintro x ⟨_, j, hid, hj, hin, -⟩
      obtain rfl := Value.inst.inj hid
      exact absurd ⟨j, hj, hin⟩ hreads

omit [Number R] in
/-- One step for each instruction and one more suffice for every value. -/
lemma suffices_size_succ (v : Value R) : b.Suffices shape (b.function.insts.size + 1) v := by
  cases v with
  | inst id =>
    obtain ⟨n, hn⟩ := exists_suffices_inst hchains id
    exact hn.size_succ
  | _ => exact fun u => nofun

lemma collectPhi_isNotCircular (store : Store R) (i : Instruction R) :
    (b.collectPhi store shape i).IsNotCircular := by
  have hpure : ∀ α (a : α), (pure a : Collect R α).IsNotCircular := fun _ a =>
    (Collect.stopsAt_pure a).isNotCircular nofun
  unfold collectPhi
  cases i.op.incoming? with
  | none => exact (Collect.stopsAt_throw _).isNotCircular fun u => nofun
  | some incoming =>
    refine (Collect.isNotCircular_lift (carried_ne_circular shape i incoming)).bind fun p => ?_
    refine (Collect.isNotCircular_lift (b.symbolKey_ne_circular p.2)).bind fun key => ?_
    refine Collect.IsNotCircular.bind (fun S u => nofun) fun S => ?_
    dsimp only
    split
    · exact hpure _ _
    · have hexpr := b.stopsAt_exprOf store shape (b.function.insts.size + 1) none p.2
      refine (hexpr.isNotCircular (suffices_size_succ hchains p.2)).bind fun e => ?_
      refine ((Collect.stopsAt_symbol key p.2).isNotCircular nofun).bind fun n => ?_
      exact (Collect.stopsAt_change n _).isNotCircular nofun

/-- **A search without circles ends.**  If no chain of definitions in the loop leads back to where
it begins, then the system of the loop is found, or some other obstacle. -/
theorem loopSystem_ne_circular (store : Store R) (u : ValueName R) :
    b.loopSystem store shape ≠ .error (.circular u) := by
  have hphis : ∀ is : List (Instruction R), (is.forM (b.collectPhi store shape)).IsNotCircular := by
    intro is
    induction is with
    | nil => exact fun S u => nofun
    | cons i is ih => exact (collectPhi_isNotCircular hchains store i).bind fun _ => ih
  rw [loopSystem]
  cases hrun : ((b.function.phis shape.cond).forM (b.collectPhi store shape)).run [] with
  | error e =>
    intro h
    cases h
    exact hphis _ [] u hrun
  | ok r => exact mapM_finishSymbol_ne_circular r.2.zipIdx u

end Body

namespace SelfDefined

/-- A loop that passes on the value `y = y + x`. -/
def function : Function ℝ where
  id := ⟨0⟩
  name := "f"
  params := #[⟨"x", .float 64, none⟩]
  retTy := .float 64
  blocks := #[⟨⟨0⟩, "entry", [⟨0⟩], none, none⟩, ⟨⟨1⟩, "loop", [⟨1⟩, ⟨2⟩, ⟨3⟩], none, some 3⟩,
    ⟨⟨2⟩, "exit", [⟨4⟩], none, none⟩]
  insts := #[⟨⟨0⟩, ⟨0⟩, "", .void, .br ⟨1⟩, none, none⟩,
    ⟨⟨1⟩, ⟨1⟩, "p", .float 64, .phi [(.arg 0, ⟨0⟩), (.inst ⟨2⟩, ⟨1⟩)], none, none⟩,
    ⟨⟨2⟩, ⟨1⟩, "y", .float 64, .binary .fadd (.inst ⟨2⟩) (.arg 0), none, none⟩,
    ⟨⟨3⟩, ⟨1⟩, "", .void, .condBr (.constInt 1) ⟨1⟩ ⟨2⟩, none, none⟩,
    ⟨⟨4⟩, ⟨2⟩, "", .void, .ret (some (.inst ⟨2⟩)), none, none⟩]
  maxRecursion := none
  entryPoint := false

/-- The module of the loop. -/
def module : Module ℝ := ⟨"m", #[function], #[], #[]⟩

/-- The body of the function. -/
def body : Body ℝ := Body.of module {} function

/-- The shape of the loop. -/
def shape : LoopShape := ⟨⟨1⟩, ⟨0⟩, ⟨1⟩, ⟨1⟩, ⟨2⟩⟩

lemma obstacle?_eq_circular (n : ℕ) :
    body.obstacle? shape n (.inst ⟨2⟩) = some (.circular (.named "y")) := by
  induction n with
  | zero => rfl
  | succ n ih =>
    change (body.obstacle? shape n (.inst ⟨2⟩)).or (body.obstacle? shape n (.arg 0)) = _
    rw [ih, Option.some_or]

/-- No number of steps suffices for the value, although the module is valid and the shape of the
loop is recognized. -/
theorem run_exprOf_eq_circular :
    module.validate = .ok () ∧ (Flow.of function).loops.shape ⟨1⟩ = .ok shape ∧
      ∀ store n format S, (body.exprOf store shape n format (.inst ⟨2⟩)).run S
        = .error (.circular (.named "y")) := by
  refine ⟨rfl, by decide +kernel, fun store n format S => ?_⟩
  rcases body.stopsAt_exprOf store shape n format (.inst ⟨2⟩) S with
    ⟨r, -, hnone⟩ | ⟨e, hrun, hsome⟩
  · rw [obstacle?_eq_circular] at hnone
    cases hnone
  · rw [obstacle?_eq_circular] at hsome
    rw [hrun, Option.some.inj hsome]

end SelfDefined

end Roundoff
