/-
# What a closed form leaves behind

A loop that is bounded in closed form leaves for every symbol that is defined in it an error as
large as the linear recurrence says: the matrix consists of bounds of the derivatives, the
recurrence starts with the errors with which the symbols enter the loop, and it adds the errors that
one pass leaves when all errors have been set to zero.  The main result is
`isBounded_of_closedForm`.
-/
import Mathlib
import Roundoff.Proofs.Affine.Order
import Roundoff.Proofs.Transfer.Runs

namespace Roundoff

/-- Symbols with one key are one symbol. -/
lemma LoopSystem.eq_of_key_eq {system : LoopSystem ℝ} (hkeys : (system.map LoopSymbol.key).Nodup)
    {i j : Fin system.length} (h : (system.get i).key = (system.get j).key) : i = j := by
  have hget : (system.map LoopSymbol.key).get (i.cast (by simp))
      = (system.map LoopSymbol.key).get (j.cast (by simp)) := by
    simpa using h
  have hcast := List.nodup_iff_injective_get.1 hkeys hget
  exact Fin.ext (congrArg (fun k => k.val) hcast)

namespace Body

variable {b : Body ℝ} {a settled : Activation ℝ} {shape : LoopShape} {system : LoopSystem ℝ}
  {header : BlockId} {k : ℕ} {bound : LoopBound ℝ} {n n₂ : Symbol}

/-! ## Settled errors -/

lemma error?_pin (a : Activation ℝ) (i : Instruction ℝ) (k : Key) (x : ℝ) (n : Symbol) (l : Key) :
    (pin a i k x n).1.store.error? l
      = if k = l then some (Affine.withError 0 x n).1 else a.store.error? l :=
  Store.error?_setError _ _ _ _

/-- Settling a symbol changes no error of another key. -/
lemma error?_pinSymbol_of_ne (s : LoopSymbol ℝ) (x : ℝ) (n : Symbol) {l : Key} (hl : s.key ≠ l) :
    (b.pinSymbol shape a s x n).1.store.error? l = a.store.error? l := by
  rw [pinSymbol]
  cases b.function.definition? s.value with
  | none => rfl
  | some i =>
    dsimp only
    by_cases hcontains : shape.contains i.block
    · rw [if_pos hcontains, error?_pin, if_neg hl]
    · rw [if_neg hcontains]
      rfl

lemma error?_pinSymbol (s : LoopSymbol ℝ) (x : ℝ) (n : Symbol) {i : Instruction ℝ}
    (hi : b.function.definition? s.value = some i) (hcontains : shape.contains i.block) :
    ∃ g, (b.pinSymbol shape a s x n).1.store.error? s.key = some g ∧ g.noiseBound = |x| := by
  refine ⟨(Affine.withError 0 x n).1, ?_, Affine.noiseBound_withError 0 x⟩
  rw [pinSymbol, hi]
  dsimp only
  rw [if_pos hcontains, error?_pin, if_pos rfl]

/-- The symbols are settled one after the other. -/
lemma error?_pinSymbols (b : Body ℝ) (shape : LoopShape) (errors : Vector ℝ system.length)
    (hkeys : (system.map LoopSymbol.key).Nodup) {js : List (Fin system.length)} (hjs : js.Nodup) :
    (∀ l, (∀ j ∈ js, (system.get j).key ≠ l) →
      (js.foldlM (fun a j => b.pinSymbol shape a (system.get j) (errors.get j)) a n).1.store.error?
        l = a.store.error? l) ∧
    ∀ j ∈ js, ∀ i, b.function.definition? (system.get j).value = some i → shape.contains i.block →
      ∃ g, (js.foldlM (fun a j => b.pinSymbol shape a (system.get j) (errors.get j)) a
        n).1.store.error? (system.get j).key = some g ∧ g.noiseBound = |errors.get j| := by
  induction js generalizing a n with
  | nil => exact ⟨fun _ _ => rfl, fun j hj => absurd hj List.not_mem_nil⟩
  | cons j js ih =>
    obtain ⟨hnot, hjs⟩ := List.nodup_cons.1 hjs
    let r := b.pinSymbol shape a (system.get j) (errors.get j) n
    have hrun : (j :: js).foldlM (fun a j => b.pinSymbol shape a (system.get j) (errors.get j)) a n
        = js.foldlM (fun a j => b.pinSymbol shape a (system.get j) (errors.get j)) r.1 r.2 := rfl
    obtain ⟨hother, hpinned⟩ := ih (a := r.1) (n := r.2) hjs
    have hne : ∀ j' ∈ js, (system.get j').key ≠ (system.get j).key := by
      intro j' hj' heq
      obtain rfl : j' = j := LoopSystem.eq_of_key_eq hkeys heq
      exact hnot hj'
    rw [hrun]
    refine ⟨fun l hl => ?_, fun j' hj' i hi hcontains => ?_⟩
    · rw [hother l fun j' hj' => hl j' (List.mem_cons_of_mem _ hj')]
      exact error?_pinSymbol_of_ne _ _ _ (hl j List.mem_cons_self)
    · rcases List.mem_cons.1 hj' with rfl | hj'
      · rw [hother _ hne]
        exact error?_pinSymbol _ _ _ hi hcontains
      · exact hpinned j' hj' i hi hcontains

/-- A phi after the loop gets the error that it is settled with, whatever becomes of its range. -/
lemma error?_pinExit (a : Activation ℝ) (i : Instruction ℝ) (s : LoopSymbol ℝ) (x : ℝ) (n : Symbol)
    (l : Key) :
    (b.pinExit a i s x n).1.store.error? l
      = if b.key i = l then some (Affine.withError 0 x n).1 else a.store.error? l := by
  let r := pin a i (b.key i) x n
  rw [← error?_pin]
  rw [pinExit]
  cases a.store.range? s.key with
  | none => rfl
  | some range =>
    change (if _ then r.1 else
      { r.1 with store := r.1.store.setRange (b.key i) range }).store.error? l = _
    split
    · rfl
    · exact Store.error?_setRange _ _ _ _

/-- Settling phis after the loop changes no error of another key. -/
lemma error?_pinExits (b : Body ℝ) (shape : LoopShape) (errors : Vector ℝ system.length)
    {is : List (Instruction ℝ)} {l : Key}
    (hl : ∀ i ∈ is, b.key i ≠ l) :
    (b.pinExits shape system errors a is n).1.2.store.error? l = a.store.error? l := by
  induction is generalizing a n with
  | nil => rfl
  | cons i is ih =>
    replace ih {a : Activation ℝ} {n : Symbol} :=
      ih (a := a) (n := n) fun j hj => hl j (List.mem_cons_of_mem _ hj)
    rw [pinExits]
    cases b.exitSymbol? shape system i with
    | none => exact ih
    | some j =>
      let r := b.pinExit a i (system.get j) (errors.get j) n
      have hpin : r.1.store.error? l = a.store.error? l := by
        rw [error?_pinExit, if_neg (hl i List.mem_cons_self)]
      exact (ih (a := r.1) (n := r.2)).trans hpin

/-! ## The closed form -/

/-- The loop with the given header has been bounded in closed form after `k` iterations; the
computation has started in the state `a` from the symbol `n`, and has led to the state `settled`. -/
structure IsBounded (b : Body ℝ) (a settled : Activation ℝ) (header : BlockId) (k : ℕ) (n : Symbol)
    (shape : LoopShape) (system : LoopSystem ℝ) (K : DenseMatrix ℝ system.length system.length)
    (a' : Activation ℝ) : Prop where
  /-- The blocks of the loop. -/
  shape_eq : b.flow.loops.shape header = .ok shape
  /-- The system of the loop. -/
  system_eq : b.loopSystem a.store shape = .ok system
  /-- The bounds of the derivatives. -/
  lipschitz_eq : system.lipschitz a.store = .ok K
  /-- One pass with all errors set to zero. -/
  pass_eq : (b.visitBlocks { store := a.store.zeroed } shape.blocks n).1 = .ok a'
  /-- A symbol that is defined in the loop has the error of the recurrence. -/
  error_eq : (system.map LoopSymbol.key).Nodup → ∀ (j : Fin system.length) (i : Instruction ℝ),
    b.function.definition? (system.get j).value = some i → shape.contains i.block →
      (∀ e ∈ b.function.phis shape.exit, b.key e ≠ (system.get j).key) →
        ∃ g, settled.store.error? (system.get j).key = some g ∧
          g.noiseBound = |(b.closedErrors a a' system K k).get j|

lemma Settling.isBounded {K : DenseMatrix ℝ system.length system.length} {a' middle : Activation ℝ}
    (h : b.Settling a header k n system K a' middle bound settled n₂) :
    b.IsBounded a settled header k n bound.shape system K a' where
  shape_eq := h.shape_eq
  system_eq := h.system_eq
  lipschitz_eq := h.lipschitz_eq
  pass_eq := h.pass_eq
  error_eq hkeys j i hi hcontains hne := by
    obtain ⟨n₁, -, n₃, hmiddle, hexits⟩ := h.settled_eq
    obtain ⟨g, hg, hbound⟩ := (error?_pinSymbols (a := a) (n := n₁) b bound.shape
      (b.closedErrors a a' system K k) hkeys (List.nodup_finRange system.length)).2 j
      (List.mem_finRange j) i hi hcontains
    refine ⟨g, ?_, hbound⟩
    have hexit : (b.pinExits bound.shape system (b.closedErrors a a' system K k) middle
        (b.function.phis bound.shape.exit) n₃).1.2.store.error? (system.get j).key
          = middle.store.error? (system.get j).key :=
      error?_pinExits b bound.shape (b.closedErrors a a' system K k) hne
    rw [hexits] at hexit
    rw [← hg]
    exact hexit.trans (congrArg (fun r => r.1.store.error? (system.get j).key) hmiddle.symm)

/-- **What a closed form leaves behind.** -/
theorem isBounded_of_closedForm (h : (b.closedForm a header k).run n = (.ok (bound, settled), n₂)) :
    ∃ shape system K a', b.IsBounded a settled header k n shape system K a' := by
  obtain ⟨system, K, a', middle, hsettling⟩ := exists_settling h
  exact ⟨bound.shape, system, K, a', hsettling.isBounded⟩

end Body

end Roundoff
