/-
# Worst cases over all activations

What the findings keep between the analyses of functions, and at the end, are the worst cases of all
activations that have been completed until then, however deep the calls are nested for which they
have begun.  For a function this is the largest error that any of its activations has returned, at
any of the returns that it has visited.

A return whose error is given by an annotation returns nothing, since the annotation takes the place
of the rule for returns.
-/
import Mathlib
import Roundoff.Proofs.Analysis.Growth
import Roundoff.Proofs.Analysis.Outcomes
import Roundoff.Proofs.Analysis.Returned

namespace Roundoff

namespace Plan

variable {m : Module ℝ} {settings : Settings} {x : Start ℝ} {xs : List (Start ℝ)}
  {s : Session ℝ} {n : Symbol}

/-- Throughout the analysis the errors of labels remain sorted. -/
lemma preservesSessions_isSorted_targets (p : Plan ℝ) :
    p.PreservesSessions (fun s _ => s.targets.errors.IsSorted) fun _ _ => True where
  step _ _ _ _ _ h hs := h.edits.isSorted_targets hs
  returned _ s _ _ _ e k _ _ hs _ :=
    (Store.Edits.setError .refl (Set.mem_univ k) e).isSorted_targets hs
  atCall caller callee args s n hs :=
    (Store.attains_atCall p.module s caller callee args n).mono fun _ _ _ h =>
      h.1.isSorted_targets hs
  afterCall caller callee args s _ other _ _ hs _ := by
    obtain ⟨s', hraises, heq⟩ := s.exists_afterCall_eq other p.module caller callee args
    have hedits : s.Edits Set.univ s' := hraises.edits fun _ _ _ => Set.mem_univ _
    rw [heq]
    exact Targets.isSorted_merge (hedits.isSorted_targets hs) _
  later _ _ _ _ _ := trivial
  agrees _ _ _ _ _ := trivial
  finish _ _ _ _ _ _ := trivial
  globals n := (Store.attains_seedGlobals p.module _ n).mono fun _ _ _ h =>
    h.1.isSorted_targets Table.isSorted_empty
  empty _ := trivial
  entry f s n hs :=
    (Store.attains_seedArguments p.module s f n).mono fun _ _ _ h => h.edits.isSorted_targets hs
  merge _ _ _ _ _ hs _ := Targets.isSorted_merge hs _

/-- The outcomes of activations are sorted. -/
lemma IsStack.isSorted_taken (hm : m.validate = .ok ()) (hx : (Plan.of m settings).IsStack x xs) :
    ((Plan.of m settings).taken x).2.IsSorted where
  entries := by
    have hp := preservesSessions_growsFrom (Plan.of m settings)
    exact (hp.outcome (hp.follow (Plan.of m settings).depth) (hp.isStack hx)).store.isSorted
  targets := by
    have hp := preservesSessions_isSorted_targets (Plan.of m settings)
    exact (hp.outcome (hp.follow (Plan.of m settings).depth) (hp.isStack hx)).store
  verdicts := by
    have hmem := (hx.schedule_eq hm).1
    have hplace : ∀ i ∈ x.function.insts, x.function.inst? i.id = some i :=
      fun i hi => inst?_id_of_validate hm hmem hi
    have hpinned : x.state.pinned = ∅ := by cases hx <;> rfl
    have hverdicts : x.state.verdicts = ∅ := by cases hx <;> rfl
    rw [taken, outcome, run_eq, body_eq_of_validate hm hmem]
    have hrun := Body.Traces.start.runSchedule (b := Body.of m settings x.function)
      (h := (Plan.of m settings).calls) (a := x.state)
      (w := ((Plan.of m settings).prepared x.function x.findings).2) (n := x.supply)
      ((Plan.of m settings).prepared x.function x.findings).1
    exact hrun.isSorted_verdicts hplace (.of_pinned_eq hpinned) (hverdicts ▸ Table.isSorted_empty)

/-- The bounds that are kept for a module are the worst cases of all activations. -/
structure KeepsWorstCases (m : Module ℝ) (settings : Settings) : Prop where
  /-- The findings after outcomes have been taken in, whatever these are, keep their worst cases. -/
  takeIn : ∀ ys : List (FunctionId × Activation ℝ), (∀ y ∈ ys, y.2.IsSorted) →
    (Findings.empty.takeIn ys).IsWorstOf ys
  /-- They do not depend on the order in which the outcomes are taken in. -/
  perm : ∀ ys zs : List (FunctionId × Activation ℝ), (∀ y ∈ ys, y.2.IsSorted) → ys.Perm zs →
    (Findings.empty.takeIn ys).SameBounds (Findings.empty.takeIn zs)
  /-- Between the analyses of functions the findings keep the worst cases of the activations that
  have been completed. -/
  isWorstOf : ∀ s n xs, Completes m settings s n xs →
    s.findings.IsWorstOf (xs.map (Plan.of m settings).taken)
  /-- For a function that is not passed on as an argument, they keep the largest error that has been
  returned in any of its activations. -/
  returned : ∀ s n xs, Completes m settings s n xs → ∀ f, m.Spares f →
    (s.findings.summary f).absError
      = ((xs.filter fun x => x.function.id = f).flatMap (Plan.of m settings).returnsOf).max?
  /-- When a function has been analysed, these activations are one more, if it is completed, and
  those that have been completed for its calls. -/
  mem_activationsOf : ∀ s n id y, y ∈ activationsOf m settings s id n ↔
    ∃ f, m.function? id = some f ∧ f.isDeclaration = false ∧
      (y ∈ activationsWithin m settings ((Plan.of m settings).beginEntry s f n) ∨
        (Plan.of m settings).isCompleted ((Plan.of m settings).beginEntry s f n) = true ∧
          y = (Plan.of m settings).beginEntry s f n)
  /-- The latter are all those that are completed, however deep. -/
  mem_activationsWithin : ∀ x y, y ∈ activationsWithin m settings x ↔
    ∃ c ∈ (Plan.of m settings).callsOf x, (Plan.of m settings).IsFollowed c ∧
      (y ∈ activationsWithin m settings ((Plan.of m settings).begin c) ∨
        (Plan.of m settings).isCompleted ((Plan.of m settings).begin c) = true ∧
          y = (Plan.of m settings).begin c)
  /-- The analysis of the module ends with the worst cases of all activations. -/
  analyse : ∀ n, ∃ xs, Completes m settings
    ⟨(m.analyse settings n).1.globals, (m.analyse settings n).1.findings⟩
      (m.analyse settings n).2 xs

/-- **The analysis keeps the worst cases** of all activations. -/
theorem keepsWorstCases (hm : m.validate = .ok ()) (settings : Settings) :
    KeepsWorstCases m settings := by
  have htakeIn {ys : List (FunctionId × Activation ℝ)} (hys : ∀ y ∈ ys, y.2.IsSorted) :
      (Findings.empty.takeIn ys).IsWorstOf ys := Findings.IsWorstOf.empty.takeIn hys
  have hworst {s n xs} (h : Completes m settings s n xs) :
      s.findings.IsWorstOf (xs.map (Plan.of m settings).taken) := by
    refine (htakeIn fun y hy => ?_).congr (h.agrees hm)
    obtain ⟨x, hx, rfl⟩ := List.mem_map.1 hy
    obtain ⟨-, ys, hstack⟩ := h.isStack hx
    exact hstack.isSorted_taken hm
  refine ⟨fun ys hys => htakeIn hys, fun ys zs hys hperm => ?_, fun s n xs h => hworst h,
    fun s n xs h f hspares => ?_, fun s n id y => mem_activationsOf,
    fun x y => mem_activationsWithin,
    fun n => (between_analyse m settings n).exists_completes⟩
  · have hzs : ∀ z ∈ zs, z.2.IsSorted := fun z hz => hys z (hperm.mem_iff.2 hz)
    exact ((htakeIn hys).perm hperm).sameBounds (htakeIn hzs)
  · rw [(hworst h).absError_eq, ← h.max?_absError? hm hspares, List.filter_map, List.filterMap_map]
    rfl

end Plan

/-! ## An error that is handed back -/

namespace HandedBack

/-- The function returns what it is given. -/
def identity : Function ℝ where
  id := ⟨0⟩
  name := "identity"
  params := #[⟨"x", .float 64, none⟩]
  retTy := .float 64
  blocks := #[⟨⟨0⟩, "entry", [⟨0⟩], none, none⟩]
  insts := #[⟨⟨0⟩, ⟨0⟩, "", .void, .ret (some (.arg 0)), none, none⟩]
  maxRecursion := none
  entryPoint := false

/-- The function from which the analysis starts calls it for an input with an error. -/
noncomputable def outer : Function ℝ where
  id := ⟨1⟩
  name := "outer"
  params := #[⟨"y", .float 64, some (.scalar ⟨⟨32, 16, true⟩, none, some 1⟩)⟩]
  retTy := .void
  blocks := #[⟨⟨0⟩, "entry", [⟨0⟩, ⟨1⟩], none, none⟩]
  insts := #[⟨⟨0⟩, ⟨0⟩, "z", .float 64, .call (.direct ⟨0⟩) [.arg 0], none, none⟩,
    ⟨⟨1⟩, ⟨0⟩, "", .void, .ret none, none, none⟩]
  maxRecursion := none
  entryPoint := true

/-- The module of the two functions. -/
noncomputable def program : Module ℝ := ⟨"m", #[identity, outer], #[], #[]⟩

/-- The analysis starts from marked functions. -/
def settings : Settings := { propagateOnlyFlagged := true }

/-- The nested activation has returned the error. -/
lemma absError_identity :
    ((program.analyse settings 0).1.findings.summary ⟨0⟩).absError = some 1 := by
  have h : ((program.analyse settings 0).1.findings.summary ⟨0⟩).absError
      = some ((Affine.withError 0 (1 : ℝ) 0).1.flatten
        (Affine.withError 0 (1 : ℝ) 0).2).1.noiseBound := by with_unfolding_all rfl
  rw [h, Affine.noiseBound_flatten, Affine.noiseBound_withError, abs_one]

lemma spares_identity : program.Spares ⟨0⟩ := by
  simp [Module.Spares, Instruction.Spares, program, identity, outer, Operation.callSite?]

/-- So the largest error that is returned in activations of the function is the one handed back. -/
theorem keepsWorstCases_program : program.validate = .ok () ∧
    Plan.KeepsWorstCases program settings ∧
    ∃ s n xs, Plan.Completes program settings s n xs ∧
      ((xs.filter fun x => x.function.id = ⟨0⟩).flatMap
        (Plan.of program settings).returnsOf).max? = some 1 := by
  have hkeeps : Plan.KeepsWorstCases program settings := Plan.keepsWorstCases rfl settings
  obtain ⟨xs, hxs⟩ := hkeeps.analyse 0
  refine ⟨rfl, hkeeps, _, _, xs, hxs, ?_⟩
  rw [← hkeeps.returned _ _ _ hxs _ spares_identity]
  exact absError_identity

end HandedBack

/-! ## A return with an annotation -/

namespace AnnotatedReturn

/-- The function returns its input, and the error of the return is given by an annotation. -/
noncomputable def function : Function ℝ where
  id := ⟨0⟩
  name := "f"
  params := #[⟨"x", .float 64, some (.scalar ⟨⟨32, 16, true⟩, none, some 1⟩)⟩]
  retTy := .float 64
  blocks := #[⟨⟨0⟩, "entry", [⟨0⟩], none, none⟩]
  insts := #[⟨⟨0⟩, ⟨0⟩, "", .void, .ret (some (.arg 0)),
    some (.scalar ⟨⟨32, 16, true⟩, none, some 1⟩), none⟩]
  maxRecursion := none
  entryPoint := false

/-- The module of the function. -/
noncomputable def program : Module ℝ := ⟨"m", #[function], #[], #[]⟩

/-- The analysis of the module. -/
noncomputable def plan : Plan ℝ := Plan.of program {}

/-- The activation from which the analysis starts. -/
noncomputable def first : Start ℝ := plan.beginEntry (Session.start program 0).1 function 0

lemma spares (f : FunctionId) : program.Spares f := by
  simp [Module.Spares, Instruction.Spares, program, function, Operation.callSite?]

/-- The activation is completed, and makes no calls. -/
lemma activationsOf_function :
    Plan.activationsOf program {} (Session.start program 0).1 ⟨0⟩ 0 = [first] := by
  have hcalls : plan.callsOf first = [] := by with_unfolding_all rfl
  have hwithin : Plan.activationsWithin program {} first = [] := by
    rw [Plan.activationsWithin_eq]
    exact congrArg (List.flatMap _) hcalls
  have hcompleted : plan.ifCompleted first = [first] := by with_unfolding_all rfl
  have hfunction : program.function? ⟨0⟩ = some function := rfl
  have hbody : function.isDeclaration = false := rfl
  rw [Plan.activationsOf, hfunction]
  dsimp only
  rw [hbody, if_neg Bool.false_ne_true]
  exact congrArg₂ _ hwithin hcompleted

/-- The value that is returned has an error, but none is kept for the function. -/
theorem absError_ne : ∃ s n xs, Plan.Completes program {} s n xs ∧ (∀ f, program.Spares f) ∧
    (s.findings.summary ⟨0⟩).absError
      ≠ ((xs.filter fun x => x.function.id = ⟨0⟩).flatMap fun x =>
        (plan.visitsOf x).filterMap (plan.body x.function).errorAtReturn?).max? := by
  have herrors : (plan.visitsOf first).filterMap (plan.body first.function).errorAtReturn?
      = [(Affine.withError 0 (1 : ℝ) 0).1.noiseBound] := by with_unfolding_all rfl
  have hsummary : ((plan.analyse (Session.start program 0).1 ⟨0⟩ 0).1.2.findings.summary
      ⟨0⟩).absError = none := by with_unfolding_all rfl
  have hfilter : [first].filter (fun x => x.function.id = ⟨0⟩) = [first] := rfl
  have hsupply : (Session.start program 0).2 = 0 := rfl
  refine ⟨_, _, _, (Plan.Completes.start 0).next ⟨0⟩, spares, fun h => ?_⟩
  rw [hsupply, activationsOf_function, List.nil_append, hfilter, List.flatMap_singleton,
    herrors] at h
  exact absurd (hsummary.symm.trans h) (Option.some_ne_none _).symm

end AnnotatedReturn

end Roundoff
