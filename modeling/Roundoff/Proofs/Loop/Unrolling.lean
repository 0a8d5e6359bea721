/-
# Closed form and unrolling

A pass through linear code advances the linear recurrence of the closed form by at least what it
adds to the errors of the symbols: the amounts follow the updates, whose rates are bounded by the
matrix, and the rest is what the pass with all errors set to zero leaves.  The noise is chosen anew
for each symbol, such that its error is as large as its noise bound.

So the errors of all symbols after the passes of an unrolled loop are at most those of the closed
form.  The main result is `passes_le_closedForm`.
-/
import Mathlib
import Roundoff.Proofs.ClosedForm.Trajectory
import Roundoff.Proofs.Loop.Settle
import Roundoff.Proofs.Loop.System
import Roundoff.Proofs.Program.Positions

namespace Roundoff

namespace Body

variable {b : Body ℝ} {shape : LoopShape} {outside : Set Key} {system : LoopSystem ℝ}
  {L y Y : Key → ℝ} {s s' : Store ℝ} {i : Instruction ℝ} {entry latch : Value ℝ} {k : Key}
  {σ : Type} {h : CallHandler ℝ σ} {a a' z : Activation ℝ} {world : σ} {edges : PhiEdges}
  {n m : Symbol} {e : Fin system.length → ℝ} {K : DenseMatrix ℝ system.length system.length}

/-! ## Amounts -/

lemma bounds_ordered (system : LoopSystem ℝ) (s : Store ℝ) (n : ℕ) (r : Bounds ℝ)
    (h : system.bounds s n = .ok r) : r.lo ≤ r.hi := by
  unfold LoopSystem.bounds at h
  split at h
  · cases h
  · split at h
    · split at h
      · cases h
      · cases h
        rw [Bounds.ofRange, Bounds.of, Number.min_real, Number.max_real]
        exact min_le_max
    · cases h

/-- The amount of a symbol is bounded by what comes in, each times a bound of the derivative. -/
lemma Describes.abs_amount_le (hd : b.Describes shape outside L y system)
    (hK : system.lipschitz s = .ok K)
    (j : Fin system.length) :
    |L (system.get j).key| ≤ ∑ i, K.get j i * |y (system.get i).key| := by
  obtain ⟨x, hx⟩ := SymbolBounds.exists_admits (bounds_ordered system s)
  have hrate := hd.expr (system.get j) (List.getElem_mem _)
  have hmain := Expr.abs_rate_le (d := LoopSystem.assignment fun i => y (system.get i).key)
    (K := LoopSystem.assignment fun i => K.get j i)
    (fun n (hn : n ∉ Finset.range system.length) => by
      simp [LoopSystem.assignment, Finset.mem_range.not.1 hn])
    (hrate.isDefinedAt x)
    (fun t => hrate.value_line x _ t fun n k hn => ?_) hx
    (fun n hn => by
      have hn' := Finset.mem_range.1 hn
      rw [LoopSystem.assignment, dif_pos hn']
      exact LoopSystem.lipschitz_eq_ok_iff.1 hK j ⟨n, hn'⟩)
  · rw [Finset.sum_range] at hmain
    simp only [LoopSystem.assignment_apply] at hmain
    exact hmain
  · obtain ⟨hlt, hk⟩ := List.getElem?_eq_some_iff.1 hn
    rw [List.length_map] at hlt
    rw [LoopSystem.assignment, dif_pos hlt, ← hk, List.getElem_map]
    rfl

/-- What comes in with the symbols, for any amounts. -/
lemma IsLinearLoop.exists_brings (hloop : b.IsLinearLoop shape outside) (L : Key → ℝ) :
    ∃ y, b.Brings shape outside L y := by
  classical
  refine ⟨fun k => if h : ∃ i entry latch, b.Carries shape i entry latch ∧ b.keyOf? latch = some k
    then L (b.key h.choose) else L k, fun k hk => ?_, fun i entry latch k hcarries hk => ?_⟩
  · refine dif_neg ?_
    rintro ⟨i, entry, latch, hcarries, hlatch⟩
    obtain ⟨l, hl, hkey⟩ := hloop.latch_mem i entry latch hcarries
    obtain rfl : l = k := Option.some.inj (hkey.symm.trans hlatch)
    exact Set.disjoint_left.1 hloop.code.disjoint hk hl
  · have h : ∃ i entry latch, b.Carries shape i entry latch ∧ b.keyOf? latch = some k :=
      ⟨i, entry, latch, hcarries, hk⟩
    obtain ⟨entry', latch', hcarries', hk'⟩ := h.choose_spec
    rw [dif_pos h, hloop.latch_inj _ i entry' entry latch' latch hcarries' hcarries
      (hk'.trans hk.symm)]

/-- Two phis with the same key are the same. -/
lemma IsLinearLoop.inst_inj (hloop : b.IsLinearLoop shape outside) {i' : Instruction ℝ}
    {entry' latch' : Value ℝ} (hcarries : b.Carries shape i entry latch)
    (hcarries' : b.Carries shape i' entry' latch') (hkey : b.key i = b.key i') : i = i' := by
  have hi := hloop.inst?_of_mem (mem_loopInsts_of_mem_phis hcarries.mem_phis)
  have hi' := hloop.inst?_of_mem (mem_loopInsts_of_mem_phis hcarries'.mem_phis)
  exact Function.eq_of_inst?_id hi hi' (Key.inst.inj hkey).2

/-- Bounds `e` of the symbols as bounds of what the phis bring in. -/
lemma IsLinearLoop.exists_bounds (hloop : b.IsLinearLoop shape outside)
    (hnodup : (system.map LoopSymbol.key).Nodup) (he : ∀ j, 0 ≤ e j) :
    ∃ Y : Key → ℝ, (∀ k, 0 ≤ Y k) ∧ ∀ i entry latch (j : Fin system.length),
      b.Carries shape i entry latch → b.keyOf? latch = some (system.get j).key →
        Y (b.key i) = e j := by
  classical
  -- a phi has one key, and its value one symbol
  have hunique : ∀ i i' entry entry' latch latch' (j j' : Fin system.length),
      b.Carries shape i entry latch → b.Carries shape i' entry' latch' → b.key i = b.key i' →
        b.keyOf? latch = some (system.get j).key → b.keyOf? latch' = some (system.get j').key →
          j = j' := by
    intro i i' entry entry' latch latch' j j' hcarries hcarries' hkey hj hj'
    obtain rfl := hloop.inst_inj hcarries hcarries' hkey
    obtain ⟨-, rfl⟩ := hcarries.unique hcarries'
    have hkeys : (system.get j).key = (system.get j').key := Option.some.inj (hj.symm.trans hj')
    exact LoopSystem.eq_of_key_eq hnodup hkeys
  refine ⟨fun k => if h : ∃ j : Fin system.length, ∃ i entry latch, b.Carries shape i entry latch ∧
    b.key i = k ∧ b.keyOf? latch = some (system.get j).key then e h.choose else 0, fun k => ?_, ?_⟩
  · dsimp only
    split
    · exact he _
    · exact le_rfl
  · intro i entry latch j hcarries hj
    have h : ∃ j' : Fin system.length, ∃ i' entry' latch', b.Carries shape i' entry' latch' ∧
        b.key i' = b.key i ∧ b.keyOf? latch' = some (system.get j').key :=
      ⟨j, i, entry, latch, hcarries, rfl, hj⟩
    obtain ⟨i', entry', latch', hcarries', hkey, hj'⟩ := h.choose_spec
    exact (dif_pos h).trans
      (congrArg e (hunique i' i _ _ _ _ _ _ hcarries' hcarries hkey hj' hj))

/-! ## One pass -/

/-- What a pass in the state `a` from the symbol `n` starts from: no instruction of the loop is
settled, and values from outside have errors. -/
structure Enters (b : Body ℝ) (shape : LoopShape) (outside : Set Key) (a : Activation ℝ)
    (n : Symbol) : Prop where
  /-- No instruction of the loop is settled. -/
  pinned_eq : ∀ i ∈ b.loopInsts shape, a.pinned.contains i.id = false
  /-- Values from outside have errors whose terms are in order. -/
  error : ∀ k ∈ outside, ∃ g, a.store.error? k = some g ∧ g.IsOrdered n

/-- The errors of all symbols that have any are bounded by `e`. -/
def BoundedBy (system : LoopSystem ℝ) (a : Activation ℝ) (ks : Set Key)
    (e : Fin system.length → ℝ) : Prop :=
  ∀ j g, (system.get j).key ∈ ks → a.store.error? (system.get j).key = some g → g.noiseBound ≤ e j

/-- What all phis read is bounded by the bounds of their symbols. -/
def OffersBounds (b : Body ℝ) (shape : LoopShape) (system : LoopSystem ℝ) (edges : PhiEdges)
    (a : Activation ℝ) (e : Fin system.length → ℝ) : Prop :=
  ∀ i entry latch (j : Fin system.length), b.Carries shape i entry latch →
    b.keyOf? latch = some (system.get j).key → b.Offers edges a (e j) entry latch

/-- The amounts of values from outside with the noise `ε`. -/
noncomputable def amountsAt (ε : Symbol → ℝ) (a : Activation ℝ) : Key → ℝ :=
  fun k => ((a.store.error? k).map fun g => g.value ε).getD 0

lemma amountsAt_eq {ε : Symbol → ℝ} {g : Affine ℝ} (hg : a.store.error? k = some g) :
    amountsAt ε a k = g.value ε := by
  rw [amountsAt, hg]
  rfl

lemma Enters.splits (ha : b.Enters shape outside a n)
    (hz : ∀ k ∈ outside, (z.store.error? k).isSome) (ε : Symbol → ℝ) (w : Supply) :
    a.store.Splits ε z.store.zeroed outside n w (amountsAt ε a) := by
  intro k hk
  obtain ⟨g, hg, hordered⟩ := ha.error k hk
  obtain ⟨f, hf⟩ := Option.isSome_iff_exists.1 (hz k hk)
  refine ⟨g, Affine.zero, hg, by rw [Store.error?_zeroed, hf]; rfl, hordered, ?_⟩
  rw [amountsAt_eq hg, sub_self]
  exact Affine.isError_zero

/-- What a pass does to the state `a`, besides recording the errors of its results. -/
structure Advances (outside : Set Key) (a : Activation ℝ) (n : Symbol)
    (r : Outcome ℝ σ Unit × Symbol) : Prop where
  /-- There is no fault. -/
  answer_eq : r.1.answer = .ok ()
  /-- Symbols are only taken from the supply. -/
  le : n ≤ r.2
  /-- No instruction is settled. -/
  pinned_eq : r.1.state.pinned = a.pinned
  /-- The errors of values from outside are as before. -/
  error_eq : ∀ k ∈ outside, r.1.state.store.error? k = a.store.error? k

/-- The system of a loop without any amounts. -/
lemma IsLinearLoop.describes_zero (hloop : b.IsLinearLoop shape outside)
    (hsystem : b.loopSystem s shape = .ok system) : b.Describes shape outside 0 0 system := by
  have hamount (v : Value ℝ) : v.amount b.function.id 0 = 0 := by
    rw [Value.amount]
    cases Key.of? b.function.id v <;> rfl
  refine loopSystem_describes hloop hsystem (Y := 0) (fun i hi => ?_)
    ⟨fun _ _ => rfl, fun _ _ _ _ _ _ => rfl⟩
  rcases hloop.code.of_mem hi with hsilent | ⟨α, x, β, y, hforms, -⟩ | ⟨entry, latch, hcarries⟩
  · exact Or.inl hsilent
  · refine Or.inr (Or.inl ⟨α, x, β, y, hforms, ?_⟩)
    rw [hamount, hamount, mul_zero, mul_zero, add_zero]
    rfl
  · exact Or.inr (Or.inr ⟨entry, latch, hcarries, abs_zero.le⟩)

/-- The key of a symbol is outside or recorded in the loop. -/
lemma Describes.key_mem (hd : b.Describes shape outside L y system)
    (hloop : b.IsLinearLoop shape outside) (j : Fin system.length) :
    (system.get j).key ∈ outside ∪ b.recordedKeys (b.loopInsts shape) := by
  have henters := hd.initial (system.get j) (List.getElem_mem _)
  generalize (system.get j).key = k, (system.get j).initial = source at henters ⊢
  cases henters with
  | outside hk hv => exact Or.inl hk
  | carried hcarries hk =>
    obtain ⟨l, hl, hkey⟩ := hloop.latch_mem _ _ _ hcarries
    obtain rfl : l = k := Option.some.inj (hkey.symm.trans hk)
    exact Or.inr hl

/-- What comes in with the symbols is bounded, if the amounts of the phis and those of values from
outside are. -/
lemma Describes.abs_brings_le (hd : b.Describes shape outside L y system)
    (hy : b.Brings shape outside L y) {e : Fin system.length → ℝ}
    (hout : ∀ j : Fin system.length, (system.get j).key ∈ outside → |L (system.get j).key| ≤ e j)
    (hphi : ∀ i entry latch (j : Fin system.length), b.Carries shape i entry latch →
      b.keyOf? latch = some (system.get j).key → |L (b.key i)| ≤ e j) (j : Fin system.length) :
    |y (system.get j).key| ≤ e j := by
  have henters := hd.initial (system.get j) (List.getElem_mem _)
  replace hout := hout j
  replace hphi := fun i entry latch => hphi i entry latch j
  generalize (system.get j).key = k, (system.get j).initial = source at henters hout hphi ⊢
  cases henters with
  | outside hk hv =>
    rw [hy.outside_eq k hk]
    exact hout hk
  | carried hcarries hk =>
    rw [hy.latch_eq _ _ _ k hcarries hk]
    exact hphi _ _ _ hcarries hk

/-- With any noise, the errors that a pass leaves are bounded by the next step of the recurrence. -/
lemma pass_value_le (h : CallHandler ℝ σ) (world : σ) (hloop : b.IsLinearLoop shape outside)
    (hsystem : b.loopSystem s shape = .ok system) (hK : system.lipschitz s' = .ok K)
    (hz : ∀ k ∈ outside, (z.store.error? k).isSome) (m : Symbol) (ha : b.Enters shape outside a n)
    (he : ∀ j, 0 ≤ e j) (hout : BoundedBy system a outside e)
    (hoffers : b.OffersBounds shape system edges a e) {ε : Symbol → ℝ} (hε : ∀ t, |ε t| ≤ 1) :
    let r := b.runVisits h a world (Flow.leafVisits shape.header edges shape.blocks) n
    Advances outside a n r ∧
      ∃ a', (b.visitBlocks { store := z.store.zeroed } shape.blocks m).1 = .ok a' ∧
        ∀ j, ∃ g, r.1.state.store.error? (system.get j).key = some g ∧ g.IsOrdered r.2 ∧
          g.value ε ≤ ∑ i, K.get j i * e i + boundOrZero a'.store (system.get j).key := by
  intro r
  have hzero := hloop.describes_zero hsystem
  obtain ⟨Y, hY, hYe⟩ := hloop.exists_bounds hzero.nodup he
  have hall : b.OffersAll shape edges a Y (b.loopInsts shape) := by
    intro i hi entry latch hcarries
    obtain ⟨l, hl, hkey⟩ := hloop.latch_mem i entry latch hcarries
    obtain ⟨t, ht, rfl⟩ := List.mem_map.1 (hzero.latch_mem i entry latch l hcarries hkey)
    obtain ⟨j, hj, rfl⟩ := List.mem_iff_getElem.1 ht
    rw [hYe i entry latch ⟨j, hj⟩ hcarries hkey]
    exact hoffers i entry latch ⟨j, hj⟩ hcarries hkey
  let w : Supply := ⟨m, fun _ => 0, fun _ => by rw [abs_zero]; exact zero_le_one⟩
  let zeroed : Activation ℝ := { store := z.store.zeroed }
  have hcomes : b.ComesTo shape edges ε Y outside (b.loopInsts shape)
    (amountsAt ε a) a zeroed n w :=
    ⟨ha.splits hz ε w, fun i hi => ⟨ha.pinned_eq i hi, rfl⟩, hall⟩
  obtain ⟨hle, w', -, -, hanswer, a', hr, hpairs⟩ :=
    pass_pairs h world hε hY hloop.cond_eq hloop.code hcomes
  obtain ⟨L, hL, hflows, hsplits⟩ := hpairs.splits
  replace hflows := hflows L fun _ _ => rfl
  obtain ⟨y, hy⟩ := hloop.exists_brings L
  have hd := loopSystem_describes hloop hsystem hflows hy
  have hbrings : ∀ j : Fin system.length, |y (system.get j).key| ≤ e j := by
    refine hd.abs_brings_le hy (fun j hj => ?_) fun i entry latch j hcarries hj => ?_
    · obtain ⟨g, hg, hordered⟩ := ha.error _ hj
      rw [hL _ hj, amountsAt_eq hg]
      exact (hordered.abs_value_le hε).trans (hout j g hj hg)
    · rw [← hYe i entry latch j hcarries hj]
      exact (hflows i (mem_loopInsts_of_mem_phis hcarries.mem_phis)).abs_le hcarries
  refine ⟨⟨hanswer, hle, hpairs.pinned_eq.1, fun k hk => hpairs.error_eq k fun hmem => ?_⟩,
    a', hr, fun j => ?_⟩
  · exact Set.disjoint_left.1 hloop.code.disjoint hk hmem
  · obtain ⟨g, f, hg, hf, hgf⟩ := hsplits _ (hd.key_mem hloop j)
    refine ⟨g, hg, hgf.isOrdered, ?_⟩
    have hbound : boundOrZero a'.store (system.get j).key = f.noiseBound := by
      rw [boundOrZero, hf]
    calc g.value ε
        = L (system.get j).key + (g.value ε - L (system.get j).key) := by ring
      _ ≤ |L (system.get j).key| + |g.value ε - L (system.get j).key| :=
          add_le_add (le_abs_self _) (le_abs_self _)
      _ ≤ ∑ i, K.get j i * |y (system.get i).key| + f.noiseBound :=
          add_le_add (hd.abs_amount_le hK j) hgf.rest.abs_le_noiseBound
      _ ≤ ∑ i, K.get j i * e i + boundOrZero a'.store (system.get j).key := by
          rw [hbound]
          gcongr with i
          · exact LoopSystem.lipschitz_nonneg hK j i
          · exact hbrings i

lemma getElem_iteration (K : DenseMatrix ℝ system.length system.length)
    (r v : Vector ℝ system.length) (j : Fin system.length) :
    (K.iteration r v).get j = ∑ i, K.get j i * v.get i + r.get j :=
  congrFun (DenseMatrix.entries_iteration K r v) j

@[simp] lemma getElem_column (f : LoopSymbol ℝ → ℝ) (j : Fin system.length) :
    (system.column f).get j = f (system.get j) := by
  simp [LoopSystem.column]

/-- The errors of all symbols are bounded by a vector. -/
def IsBelow (system : LoopSystem ℝ) (a : Activation ℝ) (v : Vector ℝ system.length) : Prop :=
  ∀ j : Fin system.length, ∃ g, a.store.error? (system.get j).key = some g ∧ g.noiseBound ≤ v.get j

/-- **One pass advances the recurrence by one step.** -/
lemma pass_le (h : CallHandler ℝ σ) (world : σ) (hloop : b.IsLinearLoop shape outside)
    (hsystem : b.loopSystem s shape = .ok system) (hK : system.lipschitz s' = .ok K)
    (hz : ∀ k ∈ outside, (z.store.error? k).isSome)
    (hpass : (b.visitBlocks { store := z.store.zeroed } shape.blocks m).1 = .ok a')
    (ha : b.Enters shape outside a n) {v : Vector ℝ system.length}
    (hv : ∀ j : Fin system.length, 0 ≤ v.get j) (hout : BoundedBy system a outside fun j => v.get j)
    (hoffers : b.OffersBounds shape system edges a fun j => v.get j) :
    let r := b.runVisits h a world (Flow.leafVisits shape.header edges shape.blocks) n
    Advances outside a n r ∧ IsBelow system r.1.state
      (K.iteration (system.column fun t => boundOrZero a'.store t.key) v) := by
  intro r
  have hvalue {ε : Symbol → ℝ} (hε : ∀ t, |ε t| ≤ 1) := pass_value_le h world hloop
    hsystem hK hz m ha hv hout hoffers hε
  refine ⟨(hvalue (ε := fun _ => 0) (by simp)).1, fun j => ?_⟩
  obtain ⟨-, _, -, hg⟩ := hvalue (ε := fun _ => 0) (by simp)
  obtain ⟨g, hg, hordered, -⟩ := hg j
  refine ⟨g, hg, ?_⟩
  -- the noise that makes the error of this symbol as large as it can be
  obtain ⟨ε, hε, hmax⟩ := hordered.exists_value_eq_noiseBound
  obtain ⟨-, a₁, ha₁, hbound⟩ := hvalue hε
  obtain rfl : a' = a₁ := Except.ok.inj (hpass.symm.trans ha₁)
  obtain ⟨g', hg', -, hle⟩ := hbound j
  obtain rfl : g = g' := Option.some.inj (hg.symm.trans hg')
  rw [← hmax, getElem_iteration, getElem_column]
  exact hle

/-! ## All passes -/

section Visits

variable {v : Visit} {vs : List Visit}

lemma runVisits_cons_of_ok {count : ℕ} (hv : (b.visitBlock h v a world n).1.answer = .ok count) :
    b.runVisits h a world (v :: vs) n =
      b.runVisits h (b.visitBlock h v a world n).1.state (b.visitBlock h v a world n).1.world vs
        (b.visitBlock h v a world n).2 := by
  rw [runVisits, Fresh.bind_apply, hv]

/-- A fault ends the visits. -/
lemma runVisits_cons_of_error {fault : Fault}
    (hv : (b.visitBlock h v a world n).1.answer = .error fault) :
    (b.runVisits h a world (v :: vs) n).1.answer = .error fault := by
  rw [runVisits, Fresh.bind_apply, hv]
  rfl

end Visits

lemma runVisits_append {vs ws : List Visit} (hvs : (b.runVisits h a world vs n).1.answer = .ok ()) :
    b.runVisits h a world (vs ++ ws) n =
      b.runVisits h (b.runVisits h a world vs n).1.state (b.runVisits h a world vs n).1.world ws
        (b.runVisits h a world vs n).2 := by
  induction vs generalizing a world n with
  | nil => rfl
  | cons v vs ih =>
    rw [List.cons_append]
    cases hanswer : (b.visitBlock h v a world n).1.answer with
    | error fault =>
      rw [runVisits_cons_of_error hanswer] at hvs
      cases hvs
    | ok count =>
      rw [runVisits_cons_of_ok hanswer] at hvs ⊢
      rw [runVisits_cons_of_ok hanswer]
      exact ih hvs

/-- The state after a pass can be passed through again. -/
lemma Advances.enters {r : Outcome ℝ σ Unit × Symbol} (hr : Advances outside a n r)
    (ha : b.Enters shape outside a n) : b.Enters shape outside r.1.state r.2 where
  pinned_eq i hi := by
    rw [hr.pinned_eq]
    exact ha.pinned_eq i hi
  error k hk := by
    obtain ⟨g, hg, hordered⟩ := ha.error k hk
    exact ⟨g, by rw [hr.error_eq k hk, hg], hordered.mono hr.le⟩

lemma Advances.trans {r : Outcome ℝ σ Unit × Symbol} {r' : Outcome ℝ σ Unit × Symbol}
    (hr : Advances outside a n r) (hr' : Advances outside r.1.state r.2 r') :
    Advances outside a n r' where
  answer_eq := hr'.answer_eq
  le := hr.le.trans hr'.le
  pinned_eq := hr'.pinned_eq.trans hr.pinned_eq
  error_eq k hk := (hr'.error_eq k hk).trans (hr.error_eq k hk)

namespace IsBelow

variable {v : Vector ℝ system.length}

lemma nonneg (ha : IsBelow system a v) (j : Fin system.length) : 0 ≤ v.get j := by
  obtain ⟨g, -, hle⟩ := ha j
  exact g.noiseBound_nonneg.trans hle

lemma boundedBy (ha : IsBelow system a v) (ks : Set Key) :
    BoundedBy system a ks fun j => v.get j := by
  intro j g _ hg
  obtain ⟨g', hg', hle⟩ := ha j
  obtain rfl : g = g' := Option.some.inj (hg.symm.trans hg')
  exact hle

/-- What the phis read from the latch are the symbols. -/
lemma offersBounds (ha : IsBelow system a v) :
    b.OffersBounds shape system .latch a fun j => v.get j := by
  intro i entry latch j _ hj
  obtain ⟨g, hg, hle⟩ := ha j
  exact Or.inr ⟨rfl, _, g, hj, hg, hle⟩

end IsBelow

/-- **Passes through the loop follow the recurrence.** -/
lemma passes_le (h : CallHandler ℝ σ) (world : σ) (hloop : b.IsLinearLoop shape outside)
    (hsystem : b.loopSystem s shape = .ok system) (hK : system.lipschitz s' = .ok K)
    (hz : ∀ k ∈ outside, (z.store.error? k).isSome)
    (hpass : (b.visitBlocks { store := z.store.zeroed } shape.blocks m).1 = .ok a') (t : ℕ)
    (ha : b.Enters shape outside a n) {v : Vector ℝ system.length} (hv : IsBelow system a v) :
    let r := b.runVisits h a world
      (List.replicate t (Flow.leafVisits shape.header .latch shape.blocks)).flatten n
    Advances outside a n r ∧ IsBelow system r.1.state
      ((K.iteration (system.column fun s => boundOrZero a'.store s.key))^[t] v) := by
  induction t generalizing a world n v with
  | zero => exact ⟨⟨rfl, le_rfl, rfl, fun _ _ => rfl⟩, hv⟩
  | succ t ih =>
    intro r
    obtain ⟨hadvances, hbelow⟩ := pass_le h world hloop hsystem hK hz hpass ha
      hv.nonneg (hv.boundedBy outside) hv.offersBounds
    obtain ⟨hrest, hfinal⟩ := ih _ (hadvances.enters ha) hbelow
    have hr : r = _ := runVisits_append hadvances.answer_eq
    rw [hr]
    exact ⟨hadvances.trans hrest, hfinal⟩

/-! ## The errors on entry -/

lemma boundOrZero_nonneg (s : Store ℝ) (k : Key) : 0 ≤ boundOrZero s k := by
  rw [boundOrZero]
  split
  · exact Affine.noiseBound_nonneg _
  · exact le_rfl

lemma initialErrors_nonneg (j : Fin system.length) : 0 ≤ (b.initialErrors s system).get j := by
  rw [initialErrors, getElem_column]
  split
  · exact boundOrZero_nonneg _ _
  · exact le_rfl

lemma getElem_initialErrors {j : Fin system.length} {v : Value ℝ}
    (hv : (system.get j).initial = some v) (hk : b.keyOf? v = some k) :
    (b.initialErrors s system).get j = boundOrZero s k := by
  rw [initialErrors, getElem_column, hv, Option.bind_some, hk]

/-- A symbol that is handed on to a phi enters the loop with what the phi receives on entry. -/
lemma Describes.initial_of_carries (hd : b.Describes shape outside L y system)
    (hloop : b.IsLinearLoop shape outside) {j : Fin system.length}
    (hcarries : b.Carries shape i entry latch) (hj : b.keyOf? latch = some (system.get j).key) :
    (system.get j).initial = some entry := by
  have henters := hd.initial (system.get j) (List.getElem_mem _)
  generalize (system.get j).key = k, (system.get j).initial = source at hj henters ⊢
  cases henters with
  | outside hk hv =>
    obtain ⟨l, hl, hkey⟩ := hloop.latch_mem i entry latch hcarries
    obtain rfl : l = k := Option.some.inj (hkey.symm.trans hj)
    exact absurd hl (Set.disjoint_left.1 hloop.code.disjoint hk)
  | @carried i' entry' latch' hcarries' hk =>
    have hkey := hloop.latch_inj _ _ _ _ _ _ hcarries hcarries' (hj.trans hk.symm)
    obtain rfl := hloop.inst_inj hcarries hcarries' hkey
    rw [(hcarries.unique hcarries').1]

lemma Describes.initial_of_outside (hd : b.Describes shape outside L y system)
    (hloop : b.IsLinearLoop shape outside) {j : Fin system.length}
    (hj : (system.get j).key ∈ outside) :
    ∃ v, (system.get j).initial = some v ∧ b.keyOf? v = some (system.get j).key := by
  have henters := hd.initial (system.get j) (List.getElem_mem _)
  generalize (system.get j).key = k, (system.get j).initial = source at hj henters ⊢
  cases henters with
  | outside hk hv => exact ⟨_, rfl, hv⟩
  | carried hcarries hk =>
    obtain ⟨l, hl, hkey⟩ := hloop.latch_mem _ _ _ hcarries
    obtain rfl : l = k := Option.some.inj (hkey.symm.trans hk)
    exact absurd hl (Set.disjoint_left.1 hloop.code.disjoint hj)

/-- The initial errors are those with which the loop is entered. -/
lemma Describes.initialErrors_boundedBy (hd : b.Describes shape outside L y system)
    (hloop : b.IsLinearLoop shape outside)
    (hs : ∀ k ∈ outside, s.error? k = a.store.error? k) :
    BoundedBy system a outside fun j => (b.initialErrors s system).get j := by
  intro j g hj hg
  obtain ⟨v, hv, hkey⟩ := hd.initial_of_outside hloop hj
  change g.noiseBound ≤ (b.initialErrors s system).get j
  rw [getElem_initialErrors hv hkey, boundOrZero, hs _ hj, hg]

lemma Describes.initialErrors_offersBounds (hd : b.Describes shape outside L y system)
    (hloop : b.IsLinearLoop shape outside)
    (hs : ∀ k ∈ outside, s.error? k = a.store.error? k) :
    b.OffersBounds shape system .entry a fun j => (b.initialErrors s system).get j := by
  intro i entry latch j hcarries hj
  refine Or.inl ⟨rfl, fun k g hk hg => ?_⟩
  have hmem := mem_loopInsts_of_mem_phis hcarries.mem_phis
  have hout : k ∈ outside := (hloop.code.of_carries hmem hcarries).1.mem_of_keyOf? hk
  change g.noiseBound ≤ (b.initialErrors s system).get j
  rw [getElem_initialErrors (hd.initial_of_carries hloop hcarries hj) hk, boundOrZero, hs k hout,
    hg]

/-! ## The errors of the closed form -/

/-- A symbol that is computed in the loop is settled, and not by a phi after the loop. -/
lemma Describes.settles (hd : b.Describes shape outside L y system)
    (hloop : b.IsLinearLoop shape outside) {j : Fin system.length}
    (hj : (system.get j).key ∈ b.recordedKeys (b.loopInsts shape)) :
    ∃ i, b.function.definition? (system.get j).value = some i ∧ shape.contains i.block ∧
      ∀ e ∈ b.function.phis shape.exit, b.key e ≠ (system.get j).key := by
  have hkey := hd.keyOf_eq (system.get j) (List.getElem_mem _)
  obtain ⟨i, hi, -, hmem⟩ := hj
  rw [← hmem] at hkey ⊢
  have hvalue : (system.get j).value = .inst i.id := by
    generalize (system.get j).value = v at hkey ⊢
    cases v with
    | inst id => rw [(Key.inst.inj (Option.some.inj hkey)).2]
    | _ => cases hkey
  refine ⟨i, ?_, ((hloop.inst_iff i.id i (hloop.inst?_of_mem hi)).2).2 hi, fun e he heq => ?_⟩
  · rw [hvalue]
    exact hloop.inst?_of_mem hi
  · have hid : e.id = i.id := (Key.inst.inj heq).2
    have hinst := hloop.inst?_of_mem_blockInsts (List.takeWhile_subset _ he)
    rw [hid, hloop.inst?_of_mem hi] at hinst
    obtain rfl := Option.some.inj hinst
    exact hloop.exits i he (((hloop.inst_iff i.id i (hloop.inst?_of_mem hi)).2).2 hi)

/-- **Closed form and unrolling.**  The errors of the values that a loop of linear code carries are
at most as large after `t` passes as after the closed form for `t` iterations. -/
theorem passes_le_closedForm (hloop : b.IsLinearLoop shape outside)
    (ha : b.Enters shape outside a n) {header : BlockId}
    (hshape : b.flow.loops.shape header = .ok shape) {t : ℕ} {bound : LoopBound ℝ}
    {settled : Activation ℝ} {n₂ : Symbol}
    (hclosed : (b.closedForm (b.runVisits h a world
        (Flow.leafVisits shape.header .entry shape.blocks) n).1.state header (t + 1)).run
      (b.runVisits h a world (Flow.leafVisits shape.header .entry shape.blocks) n).2
        = (.ok (bound, settled), n₂)) :
    let r := b.runVisits h a world (Flow.leafVisits shape.header .entry shape.blocks ++
      (List.replicate t (Flow.leafVisits shape.header .latch shape.blocks)).flatten) n
    r.1.answer = .ok () ∧ ∀ i entry latch k, b.Carries shape i entry latch →
      b.keyOf? latch = some k → ∃ g g', settled.store.error? k = some g ∧
        r.1.state.store.error? k = some g' ∧ g'.noiseBound ≤ g.noiseBound := by
  intro r
  let first := b.runVisits h a world (Flow.leafVisits shape.header .entry shape.blocks) n
  obtain ⟨shape', system, K, a', hbounded⟩ := isBounded_of_closedForm hclosed
  obtain rfl : shape = shape' := Except.ok.inj (hshape.symm.trans hbounded.shape_eq)
  have hd := hloop.describes_zero hbounded.system_eq
  have hsome : ∀ k ∈ outside, (a.store.error? k).isSome := by
    intro k hk
    obtain ⟨g, hg, -⟩ := ha.error k hk
    rw [hg]
    rfl
  -- the entry pass leaves the values from outside alone, so the closed form starts with their
  -- errors
  have hentry : Advances outside a n first :=
    (pass_value_le (ε := fun _ => 0) h world hloop hbounded.system_eq
      hbounded.lipschitz_eq hsome 0 ha initialErrors_nonneg
      (hd.initialErrors_boundedBy hloop fun _ _ => rfl)
      (hd.initialErrors_offersBounds hloop fun _ _ => rfl) (by simp)).1
  have hz : ∀ k ∈ outside, (first.1.state.store.error? k).isSome := by
    intro k hk
    rw [hentry.error_eq k hk]
    exact hsome k hk
  obtain ⟨-, hbelow⟩ := pass_le h world hloop hbounded.system_eq
    hbounded.lipschitz_eq hz hbounded.pass_eq ha initialErrors_nonneg
    (hd.initialErrors_boundedBy hloop hentry.error_eq)
    (hd.initialErrors_offersBounds hloop hentry.error_eq)
  obtain ⟨hrest, hfinal⟩ := passes_le h first.1.world hloop hbounded.system_eq
    hbounded.lipschitz_eq hz hbounded.pass_eq t (hentry.enters ha) hbelow
  have hr : r = _ := runVisits_append hentry.answer_eq
  rw [hr]
  refine ⟨hrest.answer_eq, fun i entry latch k hcarries hk => ?_⟩
  obtain ⟨s, hs, rfl⟩ := List.mem_map.1 (hd.latch_mem i entry latch k hcarries hk)
  obtain ⟨j, hj, rfl⟩ := List.mem_iff_getElem.1 hs
  obtain ⟨g', hg', hle⟩ := hfinal ⟨j, hj⟩
  have hrecorded : (system.get ⟨j, hj⟩).key ∈ b.recordedKeys (b.loopInsts shape) := by
    obtain ⟨l, hl, hkey⟩ := hloop.latch_mem i entry latch hcarries
    obtain rfl := Option.some.inj (hkey.symm.trans hk)
    exact hl
  obtain ⟨d, hdef, hcontains, hexits⟩ := hd.settles hloop (j := ⟨j, hj⟩) hrecorded
  obtain ⟨g, hg, heq⟩ := hbounded.error_eq hd.nodup ⟨j, hj⟩ d hdef hcontains hexits
  refine ⟨g, g', hg, hg', hle.trans ?_⟩
  rw [heq]
  refine le_trans (le_of_eq ?_) (le_abs_self _)
  rw [closedErrors, DenseMatrix.afterIterations_eq_iterate, Function.iterate_succ_apply]

end Body

end Roundoff
