/-
# Calls lose no error

A call changes what is recorded for the callee, for what is behind pointers that are passed, and for
global variables.  The first two are only raised.  What is recorded for a global variable is
replaced by what the activation of the callee has recorded for it; but this has been recorded by the
caller, or has taken its place at the end of another call, and so on however deep the calls are
nested.  So errors never become smaller, and the same holds of the errors of labels.
-/
import Mathlib
import Roundoff.Proofs.Analysis.Globals
import Roundoff.Proofs.Analysis.Invariants
import Roundoff.Proofs.Analysis.Merging

namespace Roundoff

/-! ## Records that rise -/

namespace Store

variable {base s s' s'' other : Store ℝ} {k l : Key} {e : Estimate ℝ} {f : FunctionId}
  {caller callee : Function ℝ} {args : List (Value ℝ)} {m : Module ℝ}

lemma Raises.risesAt {P : Key → Estimate ℝ → Prop} (h : s.Raises P s') (k : Key) :
    s.RisesAt s' k := by
  induction h with
  | refl => exact .of_eq rfl
  | raise _ _ ih => exact ih.trans (risesAt_raise _ _ _ _)

/-! ## Stores that descend from another one -/

/-- The entries are sorted, and neither what is recorded for global variables nor what is kept for
labels has fallen below what it is in another store. -/
structure GrowsFrom (base s : Store ℝ) : Prop where
  /-- The entries are sorted. -/
  isSorted : s.entries.IsSorted
  /-- The errors of global variables are not smaller. -/
  risesAt : ∀ g, base.RisesAt s (.global g)
  /-- The errors of labels are not smaller. -/
  targets : base.targets.Rises s.targets

namespace GrowsFrom

lemma refl (hs : s.entries.IsSorted) : s.GrowsFrom s := ⟨hs, fun _ => .of_eq rfl, .refl _⟩

/-- What is edited for a function belongs to no global variable. -/
lemma edits (hs : base.GrowsFrom s) (h : s.Edits {k | belongsTo f k = true} s') :
    base.GrowsFrom s' := by
  refine ⟨h.writes.isSorted hs.isSorted, fun g => ?_, hs.targets.trans h.rises⟩
  exact (hs.risesAt g).trans (.of_eq (h.writes.get?_eq (by simp [belongsTo, Key.owner?])))

lemma eraseFunction (hs : base.GrowsFrom s) (f : Function ℝ) :
    base.GrowsFrom (s.eraseFunction f) := by
  refine ⟨hs.isSorted.filterKeys _, fun g => (hs.risesAt g).trans (.of_eq ?_), hs.targets⟩
  rw [get?_eraseFunction, if_neg]
  simp [belongsTo, Key.owner?]

/-- Of a global variable the other store is preferred, which knows as much. -/
lemma risesAt_mergeGlobals (hother : base.GrowsFrom other) (s : Store ℝ) (g : GlobalId) :
    base.RisesAt (s.mergeGlobals other) (.global g) := by
  intro e he
  obtain ⟨e', he', hle⟩ := hother.risesAt g e he
  exact ⟨e', by rw [get?_mergeGlobals hother.isSorted, he', Option.some_or], hle⟩

lemma merge (hs : base.GrowsFrom s) (hother : base.GrowsFrom other) (o : Objects ℝ) :
    base.GrowsFrom (mergeTargets { s.mergeGlobals other with objects := o } other) where
  isSorted := hs.isSorted.update _
  risesAt := hother.risesAt_mergeGlobals s
  targets := hs.targets.merge hother.targets

lemma afterCall (hs : base.GrowsFrom s) (hother : base.GrowsFrom other) (m : Module ℝ)
    (caller callee : Function ℝ) (args : List (Value ℝ)) :
    base.GrowsFrom (s.afterCall other m caller callee args) := by
  obtain ⟨s', hraises, heq⟩ := exists_afterCall_eq s other m caller callee args
  have hedits : s.Edits Set.univ s' := hraises.edits fun _ _ _ => Set.mem_univ _
  have hs' : base.GrowsFrom s' :=
    ⟨hedits.writes.isSorted hs.isSorted, fun g => (hs.risesAt g).trans (hraises.risesAt _),
      hs.targets.trans hedits.rises⟩
  rw [heq]
  exact hs'.merge hother _

end GrowsFrom

/-! ## The store of the caller -/

/-- What a call does to the store of the caller. -/
structure GrowsBy (caller callee : Function ℝ) (args : List (Value ℝ)) (s s' : Store ℝ) : Prop where
  /-- Nothing changes but what is recorded for the callee, for arguments that are passed for
  pointers, and for global variables. -/
  frame : ∀ k, s'.get? k ≠ s.get? k →
    k = .function callee.id ∨ k ∈ pointers caller callee args ∨ ∃ g, k = .global g
  /-- Nothing is lost that is recorded, and no error becomes smaller. -/
  risesAt : ∀ k, s.RisesAt s' k
  /-- No label is lost, and no error of a label becomes smaller. -/
  targets : s.targets.Rises s'.targets

lemma GrowsBy.refl (caller callee : Function ℝ) (args : List (Value ℝ)) (s : Store ℝ) :
    GrowsBy caller callee args s s := ⟨fun _ h => absurd rfl h, fun _ => .of_eq rfl, .refl _⟩

/-- **The store of the caller grows** if that of the activation has grown from it. -/
lemma growsBy_afterCall (hother : s.GrowsFrom other) (m : Module ℝ) (caller callee : Function ℝ)
    (args : List (Value ℝ)) :
    GrowsBy caller callee args s (s.afterCall other m caller callee args) := by
  obtain ⟨s', hraises, heq⟩ := exists_afterCall_eq s other m caller callee args
  have hedits := hraises.edits fun _ _ => Returns.mem
  have hmerge {k : Key} (hk : k.isGlobal = false) : (s'.mergeGlobals other).get? k = s'.get? k :=
    (s'.writes_mergeGlobals other).get?_eq (by simp [hk])
  rw [heq]
  refine ⟨fun k hk => ?_, fun k => ?_, hedits.rises.merge hother.targets⟩
  · change (s'.mergeGlobals other).get? k ≠ _ at hk
    by_contra hframe
    obtain ⟨hcallee, hpointers, hglobal⟩ : k ≠ .function callee.id ∧
        k ∉ pointers caller callee args ∧ ∀ g, k ≠ .global g := by simpa using hframe
    refine hk ((hmerge ?_).trans (hedits.writes.get?_eq ?_))
    · cases k with
      | global g => exact absurd rfl (hglobal g)
      | _ => rfl
    · rintro (rfl | h)
      · exact hcallee rfl
      · exact hpointers h
  · change s.RisesAt (s'.mergeGlobals other) k
    cases k with
    | global g => exact hother.risesAt_mergeGlobals s' g
    | _ => exact (hraises.risesAt _).trans (.of_eq (hmerge rfl))

end Store

namespace Plan

/-- **However deep calls are nested, activations only grow.** -/
theorem preserves_growsFrom (p : Plan ℝ) (base : Store ℝ) :
    p.Preserves (fun s _ => base.GrowsFrom s) fun _ _ => True where
  step _ _ _ _ _ h hs := hs.edits h.edits
  returned _ _ _ _ _ e _ hk _ hs _ := hs.edits (.setError .refl hk e)
  atCall caller callee args s n hs :=
    (Store.attains_atCall p.module s caller callee args n).mono fun _ _ _ h =>
      (hs.eraseFunction callee).edits h.1
  afterCall caller callee args _ _ _ _ _ hs hother :=
    hs.afterCall hother p.module caller callee args
  later _ _ _ _ _ := trivial
  agrees _ _ _ _ _ := trivial
  finish _ _ _ _ _ _ := trivial

/-- Throughout the analysis, stores grow from the one without entries. -/
lemma preservesSessions_growsFrom (p : Plan ℝ) :
    p.PreservesSessions (fun s _ => (Store.forModule p.module).GrowsFrom s) fun _ _ => True where
  toPreserves := p.preserves_growsFrom _
  globals n := (Store.attains_seedGlobals p.module _ n).mono fun _ _ _ h =>
    ⟨h.1.writes.isSorted Table.isSorted_empty, fun _ _ he => (nomatch he), h.1.rises⟩
  empty _ := trivial
  entry f s n hs :=
    (Store.attains_seedArguments p.module s f n).mono fun _ _ _ h => hs.edits h.edits
  merge _ _ _ _ _ hs hother := hs.merge hother _

/-- Calls only grow the store of the caller. -/
structure CallsGrow (p : Plan ℝ) : Prop where
  /-- A call that is followed to any depth, from any store whose entries are sorted. -/
  call : ∀ depth w caller callee args (s : Store ℝ) n, s.entries.IsSorted →
    s.GrowsBy caller callee args (p.call depth w caller callee args s n).1.1
  /-- The entries are sorted at all calls that come up, so these grow the store of the caller. -/
  answer : ∀ x xs, p.IsStack x xs → ∀ c ∈ p.callsOf x,
    c.store.entries.IsSorted ∧ c.store.GrowsBy c.caller c.callee c.args (p.calls.answer c).1.1

/-- The answer to a call grows the store of the caller. -/
lemma growsBy_answer (p : Plan ℝ) (depth : ℕ) (c : Call ℝ (Findings ℝ))
    (hs : c.store.entries.IsSorted) :
    c.store.GrowsBy c.caller c.callee c.args ((p.follow depth).answer c).1.1 := by
  cases depth with
  | zero => exact .refl _ _ _ _
  | succ depth =>
    have hp := p.preserves_growsFrom c.store
    rw [answer_follow_succ, respond]
    split
    · -- the activation grows from the store of the caller, and so do the calls that it makes
      have hbegin := (hp.begin (.refl hs) trivial).2
      have hend := (hp.outcome (hp.follow depth) hbegin).store
      rw [conclude, merged]
      dsimp only
      split
      · exact .refl _ _ _ _
      · exact Store.growsBy_afterCall (hend.edits (f := c.callee.id) (.objects .refl _)) _ _ _ _
    · exact .refl _ _ _ _

/-- **Calls lose no error, and change nothing but what they are to change.** -/
theorem callsGrow (p : Plan ℝ) : p.CallsGrow where
  call depth w caller callee args s n hs :=
    p.growsBy_answer depth ⟨w, caller, callee, args, s, n⟩ hs
  answer x xs hx c hc := by
    have hp := p.preservesSessions_growsFrom
    have hs := (hp.call_holds (hp.isStack hx) hc).store.isSorted
    exact ⟨hs, p.growsBy_answer p.depth c hs⟩

end Plan

/-! ## A pointer that is passed -/

namespace PassedPointer

/-- The function is passed a pointer, and its annotation says what error is behind it. -/
noncomputable def callee : Function ℝ where
  id := ⟨1⟩
  name := "callee"
  params := #[⟨"p", .pointer (.float 64), some (.scalar ⟨⟨32, 16, true⟩, none, some 1⟩)⟩]
  retTy := .void
  blocks := #[⟨⟨0⟩, "entry", [⟨0⟩], none, none⟩]
  insts := #[⟨⟨0⟩, ⟨0⟩, "", .void, .ret none, none, none⟩]
  maxRecursion := none
  entryPoint := false

/-- The function passes on a pointer that it has been passed. -/
def caller : Function ℝ where
  id := ⟨0⟩
  name := "caller"
  params := #[⟨"q", .pointer (.float 64), none⟩]
  retTy := .void
  blocks := #[⟨⟨0⟩, "entry", [⟨0⟩, ⟨1⟩], none, none⟩]
  insts := #[⟨⟨0⟩, ⟨0⟩, "", .void, .call (.direct ⟨1⟩) [.arg 0], none, none⟩,
    ⟨⟨1⟩, ⟨0⟩, "", .void, .ret none, none, none⟩]
  maxRecursion := none
  entryPoint := false

/-- The module of the two functions. -/
noncomputable def program : Module ℝ := ⟨"m", #[caller, callee], #[], #[]⟩

/-- Before the call nothing is recorded for the pointer. -/
noncomputable def before : Store ℝ :=
  (Store.forModule program).set (.inst ⟨0⟩ ⟨1⟩) ⟨Range.unknown, some Affine.zero⟩

/-- The store of the caller after the call. -/
noncomputable def after : Store ℝ :=
  ((Plan.of program {}).call 1 Findings.empty caller callee [.arg 0] before 0).1.1

/-- The call grows the store of the caller, since it records the error behind the pointer. -/
theorem callsGrow_program : before.entries.IsSorted ∧ before.GrowsBy caller callee [.arg 0] after ∧
    before.error? (.arg ⟨0⟩ 0) = none ∧
    (after.error? (.arg ⟨0⟩ 0)).map Affine.noiseBound = some 1 := by
  have hsorted : before.entries.IsSorted := List.pairwise_singleton _ _
  have hafter : after.error? (.arg ⟨0⟩ 0) = some (Affine.withError 0 (1 : ℝ) 0).1 := by
    with_unfolding_all rfl
  refine ⟨hsorted, (Plan.callsGrow _).call _ _ _ _ _ _ _ hsorted, rfl, ?_⟩
  rw [hafter, Option.map_some, Affine.noiseBound_withError, abs_one]

end PassedPointer

end Roundoff
