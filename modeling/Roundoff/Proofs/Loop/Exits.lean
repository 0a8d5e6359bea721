/-
# Phis after a loop

A loop that is bounded in closed form settles the phis after it: a phi that takes over a value of
the loop from the condition block gets the error of this value after the last iteration, and visits
leave it alone from then on.  No other value that the phi receives counts.

When a phi is visited, it gets the largest of the errors that are recorded for the values that it
receives.  So settling a phi never records more than a visit would, and it records as much as a
visit unless the block after the loop is also reached around the loop with a larger error.
-/
import Mathlib
import Roundoff.Proofs.Loop.Rules
import Roundoff.Proofs.Loop.Settle
import Roundoff.Proofs.Loop.Symbols
import Roundoff.Proofs.Transfer.Visits

namespace Roundoff

namespace Body

/-! ## What is settled -/

section Settled

variable {b : Body ℝ} {a a' settled : Activation ℝ} {shape : LoopShape} {system : LoopSystem ℝ}
  {header : BlockId} {k : ℕ} {bound : LoopBound ℝ} {n n₂ : Symbol} {i : Instruction ℝ}
  {is : List (Instruction ℝ)} {errors : Vector ℝ system.length} {exits : List Key}

/-- The phis after a loop have been settled: those that take over a symbol are listed, and each of
them has the error of the symbol. -/
structure SettlesExits (b : Body ℝ) (shape : LoopShape) (system : LoopSystem ℝ)
    (errors : Vector ℝ system.length) (is : List (Instruction ℝ)) (exits : List Key)
    (settled : Activation ℝ) : Prop where
  /-- The phis that take over a symbol are listed. -/
  exits_eq : exits = (is.filter fun i => (b.exitSymbol? shape system i).isSome).map b.key
  /-- They are settled. -/
  pinned : ∀ i ∈ is, ∀ j, b.exitSymbol? shape system i = some j →
    settled.pinned.contains i.id = true
  /-- The error of a phi is as large as that of the symbol. -/
  error_eq : ∀ i ∈ is, ∀ j, b.exitSymbol? shape system i = some j →
    ∃ g, settled.store.error? (b.key i) = some g ∧ g.noiseBound = |errors.get j|

lemma pinned_pinExit (s : LoopSymbol ℝ) (x : ℝ) (n : Symbol) :
    (b.pinExit a i s x n).1.pinned = a.pinned.insert i.id () := by
  rw [pinExit]
  cases a.store.range? s.key with
  | none => rfl
  | some range =>
    change (if _ then (pin a i (b.key i) x n).1 else
      { (pin a i (b.key i) x n).1 with
        store := (pin a i (b.key i) x n).1.store.setRange (b.key i) range }).pinned = _
    split <;> rfl

/-- The phis are settled one after the other. -/
lemma pinExits_cons (a : Activation ℝ) (n : Symbol) :
    b.pinExits shape system errors a (i :: is) n
      = match b.exitSymbol? shape system i with
        | none => b.pinExits shape system errors a is n
        | some l =>
          let r := b.pinExit a i (system.get l) (errors.get l) n
          let q := b.pinExits shape system errors r.1 is r.2
          ((b.key i :: q.1.1, q.1.2), q.2) := by
  rw [pinExits]
  cases b.exitSymbol? shape system i <;> rfl

lemma contains_insert (t : Table InstId Unit) (id id' : InstId) :
    (t.insert id ()).contains id' = (decide (id = id') || t.contains id') := by
  rw [Table.contains, Table.get?_insert]
  by_cases h : id = id'
  · rw [if_pos h, decide_eq_true h]
    rfl
  · rw [if_neg h, decide_eq_false h]
    rfl

/-- What is settled stays settled. -/
lemma contains_pinExits {id : InstId} (hid : a.pinned.contains id = true) :
    (b.pinExits shape system errors a is n).1.2.pinned.contains id = true := by
  induction is generalizing a n with
  | nil => exact hid
  | cons i is ih =>
    rw [pinExits_cons]
    cases b.exitSymbol? shape system i with
    | none => exact ih hid
    | some l => exact ih (by rw [pinned_pinExit, contains_insert, hid, Bool.or_true])

lemma settlesExits_cons_none {q : List Key × Activation ℝ}
    (hsymbol : b.exitSymbol? shape system i = none)
    (h : b.SettlesExits shape system errors is q.1 q.2) :
    b.SettlesExits shape system errors (i :: is) q.1 q.2 where
  exits_eq := by rw [h.exits_eq, List.filter_cons_of_neg (by simp [hsymbol])]
  pinned j hj l hl := by
    rcases List.mem_cons.1 hj with rfl | hj
    · cases hsymbol.symm.trans hl
    · exact h.pinned j hj l hl
  error_eq j hj l hl := by
    rcases List.mem_cons.1 hj with rfl | hj
    · cases hsymbol.symm.trans hl
    · exact h.error_eq j hj l hl

lemma settlesExits_cons_some {q : List Key × Activation ℝ} {l : Fin system.length}
    (hsymbol : b.exitSymbol? shape system i = some l) (hcontains : q.2.pinned.contains i.id = true)
    (herror : ∃ g, q.2.store.error? (b.key i) = some g ∧ g.noiseBound = |errors.get l|)
    (h : b.SettlesExits shape system errors is q.1 q.2) :
    b.SettlesExits shape system errors (i :: is) (b.key i :: q.1) q.2 where
  exits_eq := by
    rw [h.exits_eq, List.filter_cons_of_pos (by simp [hsymbol]), List.map_cons]
  pinned j hj l' hl := by
    rcases List.mem_cons.1 hj with rfl | hj
    · exact hcontains
    · exact h.pinned j hj l' hl
  error_eq j hj l' hl := by
    rcases List.mem_cons.1 hj with rfl | hj
    · obtain rfl := Option.some.inj (hsymbol.symm.trans hl)
      exact herror
    · exact h.error_eq j hj l' hl

lemma settlesExits_pinExits (a : Activation ℝ) (n : Symbol)
    (hids : ∀ i ∈ is, ∀ j ∈ is, i.id = j.id → i = j) :
    b.SettlesExits shape system errors is (b.pinExits shape system errors a is n).1.1
      (b.pinExits shape system errors a is n).1.2 := by
  induction is generalizing a n with
  | nil =>
    have hrun : b.pinExits shape system errors a [] n = (([], a), n) := rfl
    rw [hrun]
    exact ⟨rfl, fun _ hi => (nomatch hi), fun _ hi => (nomatch hi)⟩
  | cons i is ih =>
    replace ih (a : Activation ℝ) (n : Symbol) := ih a n fun j hj l hl =>
      hids j (List.mem_cons_of_mem _ hj) l (List.mem_cons_of_mem _ hl)
    rw [pinExits_cons]
    cases hsymbol : b.exitSymbol? shape system i with
    | none => exact settlesExits_cons_none hsymbol (ih a n)
    | some l =>
      let r := b.pinExit a i (system.get l) (errors.get l) n
      have hsettles := ih r.1 r.2
      have hpinned : r.1.pinned = a.pinned.insert i.id () := pinned_pinExit _ _ _
      have hcontains : r.1.pinned.contains i.id = true := by
        rw [hpinned, contains_insert, decide_eq_true rfl, Bool.true_or]
      refine settlesExits_cons_some hsymbol (contains_pinExits hcontains) ?_ hsettles
      by_cases hmem : i ∈ is
      · exact hsettles.error_eq i hmem l hsymbol
      · -- no phi behind it has its key
        have hother : ∀ j ∈ is, b.key j ≠ b.key i := fun j hj heq =>
          hmem (hids j (List.mem_cons_of_mem _ hj) i List.mem_cons_self (Key.inst.inj heq).2 ▸ hj)
        refine ⟨(Affine.withError 0 (errors.get l) n).1, ?_, Affine.noiseBound_withError 0 _⟩
        have hfirst : r.1.store.error? (b.key i)
            = some (Affine.withError 0 (errors.get l) n).1 := by
          rw [error?_pinExit, if_pos rfl]
        exact (error?_pinExits b shape errors hother).trans hfirst

/-- **What the phis after a loop get** from its closed form: the errors of the symbols that they
take over. -/
theorem settlesExits_of_closedForm (hplace : b.function.InstsInPlace)
    (h : (b.closedForm a header k).run n = (.ok (bound, settled), n₂)) :
    ∃ shape system K a', b.IsBounded a settled header k n shape system K a' ∧
      b.SettlesExits shape system (b.closedErrors a a' system K k) (b.function.phis shape.exit)
        bound.exits settled := by
  obtain ⟨system, K, a', middle, hsettling⟩ := exists_settling h
  refine ⟨bound.shape, system, K, a', hsettling.isBounded, ?_⟩
  obtain ⟨_, -, n₁, -, hexits⟩ := hsettling.settled_eq
  have hids : ∀ i ∈ b.function.phis bound.shape.exit, ∀ j ∈ b.function.phis bound.shape.exit,
      i.id = j.id → i = j := by
    intro i hi j hj hid
    have hget := hplace.inst?_of_mem_blockInsts (List.takeWhile_subset _ hi)
    have hget' := hplace.inst?_of_mem_blockInsts (List.takeWhile_subset _ hj)
    exact Function.eq_of_inst?_id hget hget' hid
  have hsettles : b.SettlesExits bound.shape system (b.closedErrors a a' system K k) _ _ _ :=
    settlesExits_pinExits middle n₁ hids
  rwa [hexits] at hsettles

end Settled

/-! ## Visits afterwards -/

section Visits

variable {R σ : Type} [Number R] {b : Body R} {h : CallHandler R σ} {edges : PhiEdges}
  {a : Activation R} {w : σ} {i j : Instruction R} {n : Symbol}

omit [Number R] in
lemma key_notMem_written (hne : i.id ≠ j.id) : b.key i ∉ b.written j := by
  have hkey : b.key i ≠ b.key j := fun heq => hne (Key.inst.inj heq).2
  rw [written]
  cases j.op with
  | store v ptr =>
    rintro (heq | ⟨_, -, heq⟩)
    · exact hkey heq
    · cases heq
  | ret v =>
    rintro (heq | heq)
    · exact hkey heq
    · cases heq
  | _ => exact hkey

/-- A visit that follows no call leaves a settled instruction alone. -/
lemma visit_settled (hp : a.pinned.contains i.id = true) (hbody : b.calledBody? j = none)
    (n : Symbol) :
    (b.visit h edges a w j n).1.state.pinned.contains i.id = true ∧
      (b.visit h edges a w j n).1.state.store.error? (b.key i) = a.store.error? (b.key i) := by
  have hframe : a.Frame (b.visit h edges a w j n).1.state (b.written j) :=
    visit_frame_of_calledBody? hbody n
  refine ⟨by rwa [hframe.pinned_eq], ?_⟩
  by_cases hid : i.id = j.id
  · rw [visit, if_pos (hid ▸ hp)]
    rfl
  · exact hframe.writes.error?_eq (key_notMem_written hid)

/-- **What is settled is left alone** by visits that follow no calls. -/
theorem visitAll_settled {is : List (Instruction R)} (his : ∀ j ∈ is, b.calledBody? j = none)
    (hp : a.pinned.contains i.id = true) (count : ℕ) (n : Symbol) :
    (b.visitAll h edges count a w is n).1.state.pinned.contains i.id = true ∧
      (b.visitAll h edges count a w is n).1.state.store.error? (b.key i)
        = a.store.error? (b.key i) := by
  induction is generalizing a w n count with
  | nil => exact ⟨hp, rfl⟩
  | cons j is ih =>
    obtain ⟨hvisited, herror⟩ : (b.visit h edges a w j n).1.state.pinned.contains i.id = true ∧ _ :=
      visit_settled hp (his j List.mem_cons_self) n
    rw [visitAll, Fresh.bind_apply]
    generalize b.visit h edges a w j n = r at hvisited herror ⊢
    obtain ⟨⟨answer, a', w'⟩, n'⟩ := r
    cases answer with
    | error fault => exact ⟨hvisited, herror⟩
    | ok found =>
      obtain ⟨hrest, hrest'⟩ := ih (fun j hj => his j (List.mem_cons_of_mem _ hj)) hvisited
        (if found then count + 1 else count) (w := w') n'
      exact ⟨hrest, hrest'.trans herror⟩

end Visits

/-! ## The rule for phis -/

section Rule

variable {b : Body ℝ} {a settled : Activation ℝ} {i d : Instruction ℝ} {edges : PhiEdges}
  {incoming : List (Value ℝ × BlockId)} {v : Value ℝ} {k : Key} {g : Affine ℝ}

/-- A number is at least as large as each error that is recorded for a value that the phi reads. -/
def BoundsIncoming (b : Body ℝ) (a : Activation ℝ) (i : Instruction ℝ) (edges : PhiEdges)
    (incoming : List (Value ℝ × BlockId)) (x : ℝ) : Prop :=
  ∀ v ∈ b.visible i edges incoming, ∀ k g, b.keyOf? v = some k → a.store.error? k = some g →
    g.noiseBound ≤ x

/-- A phi with data for one of its values records noise of the size of the largest error. -/
lemma exists_phi_run {n : Symbol} {x : ℝ} (hx : maxAbsError? (b.operandsWithData a.store
      ((b.resultRange? a.store i).map Range.format) (b.visible i edges incoming) n).1 = some x) :
    ∃ r m, ((b.phi a i edges incoming).run n).1
      = some (b.writeEstimate a i ⟨r, some (Affine.withError 0 x m).1⟩) := by
  have hlift (m : Fresh (List (Operand ℝ))) :
      (liftM m : Attempt (List (Operand ℝ))).run n = (some (m n).1, (m n).2) := rfl
  rw [visible] at hx
  rw [phi, OptionT.run_bind, Option.elimM, Fresh.bind_apply, hlift]
  dsimp only [Option.elim]
  rw [hx]
  exact ⟨_, _, rfl⟩

/-- **A phi that is visited** gets an error that bounds the errors of the values that it reads, if
one of them has data. -/
theorem exists_phi_bounds (hv : v ∈ b.visible i edges incoming) (hk : b.keyOf? v = some k)
    (hg : a.store.error? k = some g) (n : Symbol) :
    ∃ a' g', ((b.phi a i edges incoming).run n).1 = some a' ∧
      a'.store.error? (b.key i) = some g' ∧ b.BoundsIncoming a i edges incoming g'.noiseBound := by
  let format := (b.resultRange? a.store i).map Range.format
  let os := (b.operandsWithData a.store format (b.visible i edges incoming) n).1
  -- every value with data is among the operands
  have hmem : ∀ u ∈ b.visible i edges incoming, ∀ k g, b.keyOf? u = some k →
      a.store.error? k = some g → ∃ o ∈ os, o.absError = g.noiseBound := by
    intro u hu k g hk hg
    refine exists_mem_operandsWithData (fun n => ?_) hu n
    obtain ⟨r, hrun⟩ := operand_run_of_error? hk hg format n
    exact ⟨⟨r, g⟩, by rw [hrun], rfl⟩
  obtain ⟨o, ho, -⟩ := hmem v hv k g hk hg
  obtain ⟨x, hx, -⟩ := exists_maxAbsError? ho
  obtain ⟨r, m, hrun⟩ := exists_phi_run hx
  refine ⟨_, _, hrun, (writeEstimate_records a i r _).error_self, fun u hu k g hk hg => ?_⟩
  obtain ⟨o, ho, habs⟩ := hmem u hu k g hk hg
  obtain ⟨x', hx', hle⟩ := exists_maxAbsError? ho
  obtain rfl := Option.some.inj (hx.symm.trans hx')
  rw [Affine.noiseBound_withError, ← habs]
  exact hle.trans (le_abs_self x)

/-- **Settling a phi records no more than visiting it would**, where the value that it receives from
the condition block is itself a symbol that the loop computes.  What a visit records bounds the
errors of the other values as well. -/
theorem exists_phi_ge_of_settled {shape : LoopShape} {system : LoopSystem ℝ}
    {K : DenseMatrix ℝ system.length system.length} {a' : Activation ℝ} {header : BlockId}
    {n : Symbol}
    {times : ℕ} {exits : List Key} {l : Fin system.length}
    (hbounded : b.IsBounded a settled header times n shape system K a')
    (hexits : b.SettlesExits shape system (b.closedErrors a a' system K times)
      (b.function.phis shape.exit) exits settled)
    (hi : i ∈ b.function.phis shape.exit) (hl : b.exitSymbol? shape system i = some l)
    (hv : v ∈ b.visible i edges incoming) (hvalue : v = (system.get l).value)
    (hd : b.function.definition? v = some d) (hcontains : shape.contains d.block)
    (hexit : ∀ e ∈ b.function.phis shape.exit, b.key e ≠ (system.get l).key) (m : Symbol) :
    ∃ g g' a'', settled.store.error? (b.key i) = some g ∧
      ((b.phi settled i edges incoming).run m).1 = some a'' ∧
      a''.store.error? (b.key i) = some g' ∧ g.noiseBound ≤ g'.noiseBound ∧
      b.BoundsIncoming settled i edges incoming g'.noiseBound := by
  have hkeys := nodup_keys_loopSystem hbounded.system_eq
  have hkey := keyOf?_of_mem_loopSystem hbounded.system_eq _ (List.get_mem system l)
  obtain ⟨e, he, hle⟩ := hbounded.error_eq hkeys l d (hvalue ▸ hd) hcontains hexit
  obtain ⟨g, hg, hgle⟩ := hexits.error_eq i hi l hl
  obtain ⟨a'', g', hrun, hg', hbounds⟩ := exists_phi_bounds hv (hvalue ▸ hkey) he m
  refine ⟨g, g', a'', hg, hrun, hg', ?_, hbounds⟩
  rw [hgle, ← hle]
  exact hbounds v hv _ e (hvalue ▸ hkey) he

end Rule

end Body

end Roundoff
