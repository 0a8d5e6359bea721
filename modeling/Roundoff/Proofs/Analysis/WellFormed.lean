/-
# All that is recorded is well formed

In the course of the analysis of a module, all ranges have their bounds in order, and all errors
have the central value zero and terms that are in order, none of which is zero, over symbols that
have been drawn from the supply.  This holds of the stores of activations, including those that wait
for others and the copies with zero errors, of what is known of global variables, and of the
findings.
-/
import Mathlib
import Roundoff.Proofs.Analysis.Invariants
import Roundoff.Proofs.Analysis.Merging

namespace Roundoff

variable {n n' : Symbol}

/-! ## Findings -/

namespace Findings

variable {w w' : Findings ℝ} {f : FunctionId} {a : Activation ℝ}

/-- All estimates in the findings are well formed, over symbols below `n`. -/
structure IsWellFormed (w : Findings ℝ) (n : Symbol) : Prop where
  /-- The worst returned values. -/
  summary : ∀ f e, (w.summary f).error = some e → e.IsWellFormed n
  /-- The worst results of instructions. -/
  values : w.results.values.All fun _ e => e.IsWellFormed n

namespace IsWellFormed

lemma mono (hw : w.IsWellFormed n) (hn : n ≤ n') : w.IsWellFormed n' :=
  ⟨fun f e he => (hw.summary f e he).mono hn, hw.values.mono fun _ _ he => he.mono hn⟩

lemma congr (hw : w.IsWellFormed n) (h : w'.Agrees w) : w'.IsWellFormed n :=
  ⟨fun f e he => hw.summary f e (h.error_eq f ▸ he), h.results_eq ▸ hw.values⟩

lemma returned? (hw : w.IsWellFormed n) {e : Affine ℝ} (h : w.returned? f = some e) :
    e.IsWellFormed n := by
  obtain ⟨g, hg, he⟩ := Option.bind_eq_some_iff.1 h
  exact (hw.summary f g hg).error e he

/-- The outcome of an activation with a well-formed store is taken in. -/
lemma finish (hw : w.IsWellFormed n) (ha : a.store.IsWellFormed n) :
    (w.finish f a).IsWellFormed n where
  summary g e he := by
    rw [summary_finish] at he
    split at he
    · cases hreturned : a.store.get? (.function f) with
      | none =>
        rw [hreturned] at he
        exact hw.summary g e he
      | some e' =>
        rw [hreturned, Option.elim_some, Summary.raise] at he
        split at he
        · exact hw.summary g e he
        · split at he
          · exact hw.summary g e he
          · cases he
            exact ha.get? hreturned
    · exact hw.summary g e he
  values := by
    rw [results_finish]
    exact Results.all_absorb hw.values ha.entries f

end IsWellFormed

end Findings

/-! ## The analysis -/

/-- At the end of an activation for a call, the store of the caller stays well formed. -/
lemma Store.IsWellFormed.afterCall {s other : Store ℝ} (hs : s.IsWellFormed n)
    (hother : other.IsWellFormed n) (m : Module ℝ) (caller callee : Function ℝ)
    (args : List (Value ℝ)) : (s.afterCall other m caller callee args).IsWellFormed n :=
  .of_all (hs.all.afterCall (Estimate.isPartwise_isWellFormed n) hother.all m caller callee args)

namespace Plan

variable {m : Module ℝ} {settings : Settings}

/-- **Every step of the analysis keeps estimates well formed.** -/
theorem preserves_isWellFormed (p : Plan ℝ) :
    p.PreservesSessions Store.IsWellFormed Findings.IsWellFormed where
  step _ _ _ _ _ h hs := h.wellFormed hs
  returned _ _ _ _ _ _ k _ he hs hw := hs.setError k (hw.returned? he)
  atCall caller callee args s n hs :=
    (Store.attains_atCall p.module s caller callee args n).mono fun _ _ _ h => h.2 hs
  afterCall caller callee args _ _ _ _ hn hs hother :=
    (hs.mono hn).afterCall hother p.module caller callee args
  later _ _ _ hn hw := hw.mono hn
  agrees _ _ _ h hw := hw.congr h
  finish _ _ _ _ ha hw := hw.finish ha
  globals n := (Store.attains_seedGlobals p.module _ n).mono fun _ _ _ h =>
    h.2 (Store.isWellFormed_forModule p.module)
  empty _ := ⟨nofun, Table.all_empty⟩
  entry f s n hs :=
    (Store.attains_seedArguments p.module s f n).mono fun _ _ _ h => h.wellFormed hs
  merge _ _ other _ hn hs hother := ((hs.mono hn).mergeGlobals hother).mergeTargets other

/-- So do the visits of blocks by which the rounding errors of a loop are found. -/
lemma preserves_isWellFormed_none (b : Body ℝ) :
    b.Preserves CallHandler.none Store.IsWellFormed fun _ _ => True where
  step _ _ _ _ h hs := h.wellFormed hs
  later _ _ _ _ _ := trivial
  returned _ _ _ _ _ _ _ he _ _ := nomatch he
  answer _ hs _ := ⟨le_rfl, hs, trivial⟩

/-- What is recorded is well formed at every moment of the analysis of a module, over the symbols
that have been drawn from the supply by then, and these are never given back. -/
structure StaysWellFormed (m : Module ℝ) (settings : Settings) : Prop where
  /-- Between the analyses of functions. -/
  between : ∀ s n, (Plan.of m settings).Between s n →
    s.globals.IsWellFormed n ∧ s.findings.IsWellFormed n
  /-- At every moment of an activation. -/
  passes : ∀ x xs, (Plan.of m settings).IsStack x xs → ∀ y, (Plan.of m settings).Passes x y →
    x.supply ≤ y.supply ∧ y.state.store.IsWellFormed y.supply ∧ y.world.IsWellFormed y.supply
  /-- When a call comes up, and when it has been answered. -/
  calls : ∀ x xs, (Plan.of m settings).IsStack x xs → ∀ c ∈ (Plan.of m settings).callsOf x,
    x.supply ≤ c.supply ∧ c.store.IsWellFormed c.supply ∧ c.world.IsWellFormed c.supply ∧
      let r := (Plan.of m settings).calls.answer c
      c.supply ≤ r.2 ∧ r.1.1.IsWellFormed r.2 ∧ r.1.2.IsWellFormed r.2
  /-- In the stores that wait for an activation, at every moment of it. -/
  suspends : ∀ x xs s, (Plan.of m settings).Suspends x xs s →
    ∀ y, (Plan.of m settings).Passes x y → s.IsWellFormed y.supply
  /-- In the copy with zero errors in which the rounding errors of a loop are found, at every moment
  of visits of instructions in it, and when blocks have been visited. -/
  zeroed : ∀ x xs, (Plan.of m settings).IsStack x xs → ∀ y, (Plan.of m settings).Passes x y →
    (∀ z, ((Plan.of m settings).body x.function).Passes CallHandler.none
      ⟨{ store := y.state.store.zeroed }, (), y.supply⟩ z →
        y.supply ≤ z.supply ∧ z.state.store.IsWellFormed z.supply) ∧
    ∀ blocks a n, ((Plan.of m settings).body x.function).visitBlocks
      { store := y.state.store.zeroed } blocks y.supply = (.ok a, n) → a.store.IsWellFormed n
  /-- At the end of the analysis. -/
  analyse : ∀ n, let r := m.analyse settings n
    r.1.globals.IsWellFormed r.2 ∧ r.1.findings.IsWellFormed r.2
  /-- The magnitude of a well-formed error is at most its noise bound, and a symbol that is drawn
  from the supply is none of those that it uses. -/
  error : ∀ (f : Affine ℝ) n, f.IsWellFormed n →
    (∀ ε : Symbol → ℝ, (∀ s, |ε s| ≤ 1) → |f.value ε| ≤ f.noiseBound) ∧
      ∀ n', n ≤ n' → ∀ t ∈ f.terms, t.1 ≠ n'

/-- **All that is recorded is well formed at every moment.** -/
theorem staysWellFormed (m : Module ℝ) (settings : Settings) : StaysWellFormed m settings := by
  have hp := preserves_isWellFormed (Plan.of m settings)
  refine ⟨fun s n hs => hp.between hs, fun x xs hx y hy => ?_, fun x xs hx c hc => ?_,
    fun x xs s hs y hy => ?_, fun x xs hx y hy => ?_, fun n => ?_, fun f n hf => ?_⟩
  · obtain ⟨le, hstore, hworld⟩ := hp.passes (hp.isStack hx) hy
    exact ⟨le, hstore, hworld⟩
  · have hcall := hp.call_holds (hp.isStack hx) hc
    exact ⟨hcall.le, hcall.store, hcall.world,
      (hp.follow (Plan.of m settings).depth).answer c hcall.store hcall.world⟩
  · exact (hp.suspends hs).mono (hp.passes (hp.isStack hs.isStack) hy).le
  · have hstart := (hp.passes (hp.isStack hx) hy).store.zeroed
    have hzeroed {z : Moment ℝ Unit} (hz : ((Plan.of m settings).body x.function).Passes
        CallHandler.none ⟨{ store := y.state.store.zeroed }, (), y.supply⟩ z) :=
      Body.Passes.holds (preserves_isWellFormed_none _) hz hstart trivial
    exact ⟨fun z hz => ⟨(hzeroed hz).le, (hzeroed hz).store⟩,
      fun blocks a n h => (hzeroed (Body.Passes.start.visitBlocks h)).store⟩
  · exact hp.between (between_analyse m settings n)
  · exact ⟨fun ε hε => hf.isOrdered.abs_value_le hε, fun n' hn t ht => hf.ne_of_mem hn ht⟩

end Plan

end Roundoff
