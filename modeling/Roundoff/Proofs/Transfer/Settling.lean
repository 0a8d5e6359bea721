/-
# What a closed form settles

A closed form settles the errors of the symbols that a loop computes, and then those of the phis
after the loop.  It sets estimates for these only, and gives no verdict on a comparison.  The
instructions that it settles can be read as expressions or are phis, so they are neither
comparisons, calls nor returns.

`Settling` says how a closed form succeeds.  What is kept whenever an instruction is settled, and
whenever a phi takes over a range, is kept by all that is settled (`Settling.kept`).
-/
import Mathlib
import Roundoff.ClosedForm.Bound
import Roundoff.Proofs.Loop.Symbols
import Roundoff.Proofs.Matrix.Recurrence
import Roundoff.Proofs.Program.Positions
import Roundoff.Proofs.Store
import Roundoff.Proofs.Transfer.Frame

namespace Roundoff

variable {R : Type} [Number R]

namespace Body

variable {b : Body R} {a a' a'' : Activation R} {i : Instruction R} {shape : LoopShape}

omit [Number R] in
/-- The key of a value that an instruction defines belongs to the function. -/
lemma owner?_of_definition? {v : Value R} {k : Key} (hv : b.keyOf? v = some k)
    (hi : b.function.definition? v = some i) : k.owner? = some b.function.id := by
  obtain ⟨id, hid, -⟩ := Option.bind_eq_some_iff.1 hi
  cases v with
  | inst id => exact Option.some.inj hv ▸ rfl
  | _ => cases hid

/-- Estimates have been set for the function only, and instructions have been settled that are phis
or can be read as expressions. -/
structure Settles (b : Body R) (a a' : Activation R) : Prop where
  /-- There are no new verdicts. -/
  verdicts_eq : a'.verdicts = a.verdicts
  /-- Estimates are set for the instructions and formal parameters of the function. -/
  writes : a.store.Writes {k | k.owner? = some b.function.id} a'.store
  /-- An instruction is settled only if it can be read. -/
  reading_ne : ∀ id, a'.pinned.contains id = true → a.pinned.contains id = true ∨
    ∃ i ∈ b.function.insts, i.id = id ∧ i.op.reading ≠ .unsupported

namespace Settles

omit [Number R] in
lemma refl (b : Body R) (a : Activation R) : b.Settles a a := ⟨rfl, .refl _ _, fun _ h => .inl h⟩

omit [Number R] in
lemma trans (h : b.Settles a a') (h' : b.Settles a' a'') : b.Settles a a'' where
  verdicts_eq := h'.verdicts_eq.trans h.verdicts_eq
  writes := h.writes.trans h'.writes
  reading_ne id hid := (h'.reading_ne id hid).elim (h.reading_ne id) .inr

end Settles

/-! ## Settling instructions -/

omit [Number R] in
/-- The phis at the top of a block are read as phis. -/
lemma mem_insts_of_mem_phis {c : BlockId} (hi : i ∈ b.function.phis c) :
    i ∈ b.function.insts ∧ i.isPhi = true := by
  obtain ⟨id, hid⟩ :=
    Function.exists_inst?_of_mem_blockInsts (List.takeWhile_subset _ hi)
  exact ⟨Array.mem_of_getElem? hid, List.mem_takeWhile_imp hi⟩

omit [Number R] in
lemma reading_ne_of_isPhi (hphi : i.isPhi = true) : i.op.reading ≠ .unsupported := by
  obtain ⟨incoming, hop⟩ := Option.isSome_iff_exists.1 hphi
  rw [Operation.eq_phi_of_incoming? hop]
  exact nofun

/-- A range that is recorded stays recorded. -/
lemma range?_pin {l : Key} {range : Range R} (h : a.store.range? l = some range) (k : Key)
    (error : R) (n : Symbol) : (pin a i k error n).1.store.range? l = some range := by
  obtain ⟨e, he, rfl⟩ := Option.map_eq_some_iff.1 h
  change (a.store.setError k _).range? l = _
  rw [Store.range?, Store.get?_setError]
  split
  · next hk => rw [hk, he, Option.map_some, Option.getD_some]
  · rw [he, Option.map_some]

/-- Settle the errors of the symbols, one after the other. -/
abbrev pinSymbols (b : Body R) (shape : LoopShape) {system : LoopSystem R}
    (errors : Vector R system.length) (a : Activation R) : Fresh (Activation R) :=
  (List.finRange system.length).foldlM
    (fun a j => b.pinSymbol shape a (system.get j) (errors.get j)) a

/-- Whatever the errors are that a closed form settles, `Q` is kept; it is a property of a state and
of the first symbol in supply. -/
structure KeptBySettling (b : Body R) (Q : Activation R → Symbol → Prop) : Prop where
  /-- Symbols may be drawn. -/
  later : ∀ a n n', n ≤ n' → Q a n → Q a n'
  /-- An instruction is settled that is a phi or can be read as an expression. -/
  pin : ∀ a n i k error, i ∈ b.function.insts → i.op.reading ≠ .unsupported →
    k.owner? = some b.function.id → Q a n → Fresh.Attains n (pin a i k error) Q
  /-- A phi takes over the range recorded for a symbol. -/
  setRange : ∀ a n i k range, i ∈ b.function.insts → i.isPhi = true →
    a.store.range? k = some range → Q a n →
    Q { a with store := a.store.setRange (b.key i) range } n

namespace KeptBySettling

variable {Q : Activation R → Symbol → Prop} {n : Symbol} {system : LoopSystem R}
  (hQ : b.KeptBySettling Q) (ha : Q a n)

include hQ ha

lemma pinSymbol {symbol : LoopSymbol R} (hkey : b.keyOf? symbol.value = some symbol.key)
    (hread : ∀ i, b.function.definition? symbol.value = some i → shape.contains i.block →
      i.op.reading ≠ .unsupported) (error : R) :
    Fresh.Attains n (b.pinSymbol shape a symbol error) Q := by
  rw [Body.pinSymbol]
  split
  · next i hi =>
    split
    · next hblock =>
      obtain ⟨id, -, hid⟩ := Option.bind_eq_some_iff.1 hi
      exact hQ.pin _ _ _ _ _ (Array.mem_of_getElem? hid) (hread i hi hblock)
        (owner?_of_definition? hkey hi) ha
    · exact Fresh.attains_pure ha
  · exact Fresh.attains_pure ha

lemma pinSymbols {store : Store R} (hsystem : b.loopSystem store shape = .ok system)
    (errors : Vector R system.length) : Fresh.Attains n (b.pinSymbols shape errors a) Q := by
  have hformed (j : Fin system.length) := formed_of_mem_loopSystem hsystem _ (List.getElem_mem j.2)
  exact Fresh.attains_foldlM
    (fun a' n' _ j _ ha' => hQ.pinSymbol ha' (hformed j).1 (hformed j).2 _) ha

lemma pinExit (hi : i ∈ b.function.insts) (hphi : i.isPhi = true) (symbol : LoopSymbol R)
    (error : R) : Fresh.Attains n (b.pinExit a i symbol error) Q := by
  rw [Body.pinExit]
  have hpin : Fresh.Attains n (Body.pin a i (b.key i) error) fun a' n' =>
      Q a' n' ∧ ∀ range, a.store.range? symbol.key = some range →
        a'.store.range? symbol.key = some range := by
    obtain ⟨hn, ha'⟩ := hQ.pin a n i (b.key i) error hi (reading_ne_of_isPhi hphi) rfl ha
    exact ⟨hn, ha', fun range h => range?_pin h _ _ _⟩
  refine hpin.bind fun a' n' _ ⟨ha', hranges⟩ => ?_
  split
  · next range hrange =>
    refine Fresh.attains_pure ?_
    split
    · exact ha'
    · exact hQ.setRange _ _ _ _ _ hi hphi (hranges range hrange) ha'
  · exact Fresh.attains_pure ha'

lemma pinExits (errors : Vector R system.length) {is : List (Instruction R)}
    (his : ∀ i ∈ is, i ∈ b.function.insts ∧ i.isPhi = true) :
    Fresh.Attains n (b.pinExits shape system errors a is) fun r => Q r.2 := by
  induction is generalizing a n with
  | nil => exact Fresh.attains_pure ha
  | cons i is ih =>
    have hrest := fun j hj => his j (List.mem_cons_of_mem i hj)
    obtain ⟨hi, hphi⟩ := his i List.mem_cons_self
    rw [Body.pinExits]
    split
    · exact ih ha hrest
    · exact (hQ.pinExit ha hi hphi _ _).bind fun a' _ _ ha' => (ih ha' hrest).bind
        fun r _ _ hr => Fresh.attains_pure hr

end KeptBySettling

/-- What a closed form settles for a function is settled. -/
lemma keptBySettling_settles (b : Body R) (a₀ : Activation R) :
    b.KeptBySettling fun a _ => b.Settles a₀ a where
  later _ _ _ _ ha := ha
  pin a n i k error hi hread hk ha := by
    have hpin : (pin a i k error).Ensures (b.Settles a) := by
      refine (Affine.ensures_withError 0 error).andThen fun f => Fresh.ensures_pure ⟨rfl, ?_, ?_⟩
      · exact (a.store.writes_setError k f).mono (Set.singleton_subset_iff.2 hk)
      · intro id hid
        dsimp only at hid
        rw [Table.contains, Table.get?_insert] at hid
        split at hid
        · next heq => exact .inr ⟨i, hi, heq, hread⟩
        · exact .inl hid
    exact (hpin n).attains.mono fun _ _ _ h => ha.trans h
  setRange a n i k range _ _ _ ha := by
    refine ha.trans ⟨rfl, ?_, fun _ h => .inl h⟩
    exact (a.store.writes_setRange _ range).mono (Set.singleton_subset_iff.2 rfl)

/-! ## Closed forms -/

/-- The errors of the symbols after `k` iterations, where `a'` is the state after a pass with all
errors set to zero. -/
def closedErrors (b : Body R) (a a' : Activation R) (system : LoopSystem R)
    (K : DenseMatrix R system.length system.length) (k : ℕ) : Vector R system.length :=
  K.afterIterations k (b.initialErrors a.store system)
    (system.column fun s => boundOrZero a'.store s.key)

/-- How a closed form succeeds that starts from the symbol `n`: the symbols are settled first, which
leads to the state `middle`, and the phis after the loop are settled then. -/
structure Settling (b : Body R) (a : Activation R) (header : BlockId) (k : ℕ) (n : Symbol)
    (system : LoopSystem R) (K : DenseMatrix R system.length system.length)
    (a' middle : Activation R) (bound : LoopBound R) (settled : Activation R) (n' : Symbol) :
    Prop where
  /-- The blocks of the loop. -/
  shape_eq : b.flow.loops.shape header = .ok bound.shape
  /-- The system of the loop. -/
  system_eq : b.loopSystem a.store bound.shape = .ok system
  /-- The bounds of the derivatives. -/
  lipschitz_eq : system.lipschitz a.store = .ok K
  /-- One pass with all errors set to zero. -/
  pass_eq : (b.visitBlocks { store := a.store.zeroed } bound.shape.blocks n).1 = .ok a'
  /-- The symbols are settled, and then the phis after the loop. -/
  settled_eq : ∃ n₁ ≥ n, ∃ n₂,
    b.pinSymbols bound.shape (b.closedErrors a a' system K k) a n₁ = (middle, n₂) ∧
    b.pinExits bound.shape system (b.closedErrors a a' system K k) middle
      (b.function.phis bound.shape.exit) n₂ = ((bound.exits, settled), n')

/-- What is kept whenever an error is settled is kept by a closed form that succeeds. -/
theorem Settling.kept {header : BlockId} {k : ℕ} {n n' : Symbol} {system : LoopSystem R}
    {K : DenseMatrix R system.length system.length} {middle settled : Activation R}
    {bound : LoopBound R} {Q : Activation R → Symbol → Prop}
    (h : b.Settling a header k n system K a' middle bound settled n') (hQ : b.KeptBySettling Q)
    (ha : Q a n) : Q settled n' := by
  obtain ⟨n₁, hn, n₂, hmiddle, hsettled⟩ := h.settled_eq
  have hQmiddle := hQ.pinSymbols (hQ.later _ _ _ hn ha) h.system_eq (b.closedErrors a a' system K k)
  rw [Fresh.Attains, hmiddle] at hQmiddle
  have hQsettled : Fresh.Attains n₂ (b.pinExits bound.shape system (b.closedErrors a a' system K k)
      middle (b.function.phis bound.shape.exit)) fun r => Q r.2 :=
    hQ.pinExits hQmiddle.2 _ fun i => mem_insts_of_mem_phis
  rw [Fresh.Attains, hsettled] at hQsettled
  exact hQsettled.2

end Body

end Roundoff
