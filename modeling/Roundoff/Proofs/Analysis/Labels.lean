/-
# Errors of labels cover recorded errors

When an error is recorded for a labelled value, the error of the label is raised.  Records also come
into a store without this: an activation begins with those of its caller, global variables are taken
over, and the worst results of instructions are collected.  But wherever records are taken over, so
are the errors of labels, and therefore these cover the recorded errors in every store, and in the
findings.
-/
import Mathlib
import Roundoff.Proofs.Analysis.Invariants
import Roundoff.Proofs.Analysis.Merging

namespace Roundoff

/-! ## The labels of a module -/

section Labels

variable {R : Type} {m : Module R} {f : Function R} {i : Instruction R} {g : Global R}

lemma mem_instLabels {k : Key} {l : String} :
    (k, l) ∈ (m.functions.toList.flatMap fun f => f.insts.toList.filterMap fun i =>
        i.target.map fun label => (Key.inst f.id i.id, label)) ↔
      ∃ f ∈ m.functions, ∃ i ∈ f.insts, i.target = some l ∧ k = .inst f.id i.id := by
  simp only [List.mem_flatMap, Array.mem_toList_iff, List.mem_filterMap, Option.map_eq_some_iff,
    Prod.mk.injEq]
  constructor
  · rintro ⟨f, hf, i, hi, _, hl, hk, rfl⟩
    exact ⟨f, hf, i, hi, hl, hk.symm⟩
  · rintro ⟨f, hf, i, hi, hl, rfl⟩
    exact ⟨f, hf, i, hi, l, hl, rfl, rfl⟩

lemma mem_globalLabels {k : Key} {l : String} :
    (k, l) ∈ (m.globals.toList.filterMap fun g =>
        g.target.map fun label => (Key.global g.id, label)) ↔
      ∃ g ∈ m.globals, g.target = some l ∧ k = .global g.id := by
  simp only [Array.mem_toList_iff, List.mem_filterMap, Option.map_eq_some_iff, Prod.mk.injEq]
  constructor
  · rintro ⟨g, hg, _, hl, hk, rfl⟩
    exact ⟨g, hg, hl, hk.symm⟩
  · rintro ⟨g, hg, hl, rfl⟩
    exact ⟨g, hg, l, hl, rfl, rfl⟩

/-- In a valid module the result of an instruction has the label of the instruction. -/
lemma get?_labels_inst (hm : m.validate = .ok ()) (hf : f ∈ m.functions) (hi : i ∈ f.insts) :
    m.labels.get? (.inst f.id i.id) = i.target := by
  refine Table.get?_ofList fun l => ?_
  rw [List.mem_append, mem_instLabels, mem_globalLabels]
  constructor
  · rintro (⟨f', hf', i', hi', hl, hkey⟩ | ⟨g, -, -, hkey⟩)
    · obtain ⟨hid, hid'⟩ := Key.inst.inj hkey
      obtain rfl := distinctIds_of_validate hm f hf f' hf' hid
      obtain rfl := Function.eq_of_inst?_id (inst?_id_of_validate hm hf hi)
        (inst?_id_of_validate hm hf hi') hid'
      exact hl
    · cases hkey
  · exact fun hl => .inl ⟨f, hf, i, hi, hl, rfl⟩

/-- In a valid module a global variable has its own label. -/
lemma get?_labels_global (hm : m.validate = .ok ()) (hg : g ∈ m.globals) :
    m.labels.get? (.global g.id) = g.target := by
  refine Table.get?_ofList fun l => ?_
  rw [List.mem_append, mem_instLabels, mem_globalLabels]
  constructor
  · rintro (⟨f, -, i, -, -, hkey⟩ | ⟨g', hg', hl, hkey⟩)
    · cases hkey
    · have hget := global?_id_of_validate hm hg
      rw [Key.global.inj hkey, global?_id_of_validate hm hg'] at hget
      exact Option.some.inj hget ▸ hl
  · exact fun hl => .inr ⟨g, hg, hl, rfl⟩

end Labels

/-! ## Stores -/

namespace Store

variable {m : Module ℝ} {s s' other : Store ℝ} {ks : Set Key}

/-- The store knows the labels of a module, and their errors cover those that are recorded. -/
structure IsCoveredBy (m : Module ℝ) (s : Store ℝ) : Prop where
  /-- The labels are those of the module. -/
  labels_eq : s.labels = m.labels
  /-- Recorded errors are covered. -/
  isCovered : s.IsCovered

namespace IsCoveredBy

lemma forModule (m : Module ℝ) : (forModule m).IsCoveredBy m := ⟨rfl, Table.all_empty⟩

lemma edits (hs : s.IsCoveredBy m) (h : s.Edits ks s') : s'.IsCoveredBy m :=
  ⟨h.labels_eq.trans hs.labels_eq, hs.isCovered.edits h⟩

lemma eraseFunction (hs : s.IsCoveredBy m) (f : Function ℝ) : (s.eraseFunction f).IsCoveredBy m :=
  ⟨hs.labels_eq, hs.isCovered.filterKeys _⟩

/-- Global variables are taken over together with the errors of labels. -/
lemma merge (hs : s.IsCoveredBy m) (hother : other.IsCoveredBy m) (o : Objects ℝ) :
    (mergeTargets { s.mergeGlobals other with objects := o } other).IsCoveredBy m := by
  have htaken : other.entries.All (Covers s.labels other.targets) := by
    rw [hs.labels_eq, ← hother.labels_eq]
    exact hother.isCovered
  exact ⟨hs.labels_eq, (all_covers_merge_left hs.isCovered _).update
    ((all_covers_merge_right htaken _).filterKeys _)⟩

lemma afterCall (hs : s.IsCoveredBy m) (hother : other.IsCoveredBy m) (caller callee : Function ℝ)
    (args : List (Value ℝ)) : (s.afterCall other m caller callee args).IsCoveredBy m := by
  obtain ⟨s', hraises, heq⟩ := exists_afterCall_eq s other m caller callee args
  have hedits : s.Edits Set.univ s' := hraises.edits fun _ _ _ => Set.mem_univ _
  rw [heq]
  exact (hs.edits hedits).merge hother _

end IsCoveredBy

end Store

/-! ## Findings -/

namespace Findings

variable {m : Module ℝ} {w w' : Findings ℝ} {f : FunctionId} {a : Activation ℝ}

/-- The worst results of instructions are covered by the errors of labels. -/
def IsCoveredBy (m : Module ℝ) (w : Findings ℝ) : Prop :=
  w.results.values.All (Store.Covers m.labels w.results.targets)

/-- The outcome of an activation is taken in together with the errors of labels. -/
lemma IsCoveredBy.finish (hw : w.IsCoveredBy m) (ha : a.store.IsCoveredBy m) :
    (w.finish f a).IsCoveredBy m := by
  have htaken : a.store.entries.All (Store.Covers m.labels a.store.targets) := by
    rw [← ha.labels_eq]
    exact ha.isCovered
  rw [IsCoveredBy, results_finish]
  exact Results.all_absorb (Store.all_covers_merge_left hw _)
    (Store.all_covers_merge_right htaken _) f

end Findings

/-! ## The analysis -/

/-- The store knows the labels of the module, and a recorded error is at most the error kept for the
label of its value. -/
structure Store.IsBoundedByLabels (m : Module ℝ) (s : Store ℝ) : Prop where
  /-- The labels are those of the module. -/
  labels_eq : s.labels = m.labels
  /-- Recorded errors are at most those of labels. -/
  noiseBound_le : ∀ k l, s.labels.get? k = some l → ∀ e, s.error? k = some e →
    e.noiseBound ≤ s.targets.errorFor l

lemma Store.IsCoveredBy.isBoundedByLabels {m : Module ℝ} {s : Store ℝ} (hs : s.IsCoveredBy m) :
    s.IsBoundedByLabels m := ⟨hs.labels_eq, fun _ _ hl _ he => hs.isCovered.noiseBound_le hl he⟩

namespace Plan

variable {m : Module ℝ} {settings : Settings}

/-- **Every step of the analysis keeps errors covered.** -/
theorem preserves_isCoveredBy (p : Plan ℝ) :
    p.PreservesSessions (fun s _ => s.IsCoveredBy p.module) fun w _ => w.IsCoveredBy p.module where
  step _ _ _ _ _ h hs := hs.edits h.edits
  returned _ _ _ _ _ e _ _ _ hs _ := hs.edits (.setError .refl (Set.mem_univ _) e)
  atCall caller callee args s n hs :=
    (Store.attains_atCall p.module s caller callee args n).mono fun _ _ _ h =>
      (hs.eraseFunction callee).edits h.1
  afterCall caller callee args _ _ _ _ _ hs hother := hs.afterCall hother caller callee args
  later _ _ _ _ hw := hw
  agrees _ _ _ h hw := by rwa [Findings.IsCoveredBy, h.results_eq]
  finish _ _ _ _ ha hw := hw.finish ha
  globals n := (Store.attains_seedGlobals p.module _ n).mono fun _ _ _ h =>
    (Store.IsCoveredBy.forModule p.module).edits h.1
  empty _ := Table.all_empty
  entry f s n hs :=
    (Store.attains_seedArguments p.module s f n).mono fun _ _ _ h => hs.edits h.edits
  merge _ _ _ _ _ hs hother := hs.merge hother _

/-- The errors of labels cover those of the values that carry them, throughout the analysis of a
module. -/
structure CoversLabels (m : Module ℝ) (settings : Settings) : Prop where
  /-- The result of an instruction has the label of the instruction. -/
  labels_inst : ∀ f ∈ m.functions, ∀ i ∈ f.insts, m.labels.get? (.inst f.id i.id) = i.target
  /-- A global variable has its own label. -/
  labels_global : ∀ g ∈ m.globals, m.labels.get? (.global g.id) = g.target
  /-- Between the analyses of functions. -/
  between : ∀ s n, (Plan.of m settings).Between s n → s.globals.IsBoundedByLabels m
  /-- When an activation begins, at every moment of it, and when it ends. -/
  passes : ∀ x xs, (Plan.of m settings).IsStack x xs → x.state.store.IsBoundedByLabels m ∧
    (∀ y, (Plan.of m settings).Passes x y → y.state.store.IsBoundedByLabels m) ∧
    ((Plan.of m settings).outcome (Plan.of m settings).calls x).1.state.store.IsBoundedByLabels m
  /-- In the stores that wait for an activation. -/
  suspends : ∀ x xs s, (Plan.of m settings).Suspends x xs s → s.IsBoundedByLabels m
  /-- When a call comes up, and when it has been answered. -/
  calls : ∀ x xs, (Plan.of m settings).IsStack x xs → ∀ c ∈ (Plan.of m settings).callsOf x,
    c.store.IsBoundedByLabels m ∧
      ((Plan.of m settings).calls.answer c).1.1.IsBoundedByLabels m
  /-- At the end of the analysis the worst result of a labelled instruction has at most the error of
  its label. -/
  analyse : ∀ n, (m.analyse settings n).1.globals.IsBoundedByLabels m ∧
    ∀ f ∈ m.functions, ∀ i ∈ f.insts, ∀ l, i.target = some l →
      ∀ x, (m.analyse settings n).1.findings.results.errorOf? (.inst f.id i.id) = some x →
        x ≤ (m.analyse settings n).1.targetError l

/-- **Errors of labels cover recorded errors**, in all stores and in the results. -/
theorem coversLabels (hm : m.validate = .ok ()) (settings : Settings) :
    CoversLabels m settings := by
  have hp := preserves_isCoveredBy (Plan.of m settings)
  refine ⟨fun f hf i hi => get?_labels_inst hm hf hi, fun g hg => get?_labels_global hm hg,
    fun s n hs => (hp.between hs).1.isBoundedByLabels, fun x xs hx => ?_,
    fun x xs s hs => (hp.suspends hs).isBoundedByLabels, fun x xs hx c hc => ?_, fun n => ?_⟩
  · have hmoment {y : Moment ℝ (Findings ℝ)} (hy : (Plan.of m settings).Passes x y) :=
      (hp.passes (hp.isStack hx) hy).store.isBoundedByLabels
    exact ⟨hmoment .start, fun y hy => hmoment hy, hmoment (passes_outcome _ x)⟩
  · have hcall := hp.call_holds (hp.isStack hx) hc
    obtain ⟨-, hanswer, -⟩ :=
      (hp.follow (Plan.of m settings).depth).answer c hcall.store hcall.world
    exact ⟨hcall.store.isBoundedByLabels, hanswer.isBoundedByLabels⟩
  · obtain ⟨hglobals, hfindings⟩ := hp.between (between_analyse m settings n)
    refine ⟨hglobals.isBoundedByLabels, fun f hf i hi l hl x hx => ?_⟩
    obtain ⟨e, he, hx⟩ := Option.bind_eq_some_iff.1 hx
    have hcovers : Store.Covers m.labels _ _ e := Table.All.get? hfindings he
    exact (hcovers l ((get?_labels_inst hm hf hi).trans hl) x hx).le_errorFor

end Plan

/-! ## A labelled input -/

namespace LabelledInput

/-- An input is read, whose error is annotated. -/
noncomputable def input : Instruction ℝ :=
  ⟨⟨0⟩, ⟨0⟩, "x", .float 64, .call (.external "read") [],
    some (.scalar ⟨⟨32, 16, true⟩, none, some 1⟩), some "input"⟩

/-- The function reads the input. -/
noncomputable def reader : Function ℝ where
  id := ⟨0⟩
  name := "reader"
  params := #[]
  retTy := .void
  blocks := #[⟨⟨0⟩, "entry", [⟨0⟩, ⟨1⟩], none, none⟩]
  insts := #[input, ⟨⟨1⟩, ⟨0⟩, "", .void, .ret none, none, none⟩]
  maxRecursion := none
  entryPoint := false

/-- The function from which the analysis starts calls the one that reads. -/
def outer : Function ℝ where
  id := ⟨1⟩
  name := "outer"
  params := #[]
  retTy := .void
  blocks := #[⟨⟨0⟩, "entry", [⟨0⟩, ⟨1⟩], none, none⟩]
  insts := #[⟨⟨0⟩, ⟨0⟩, "", .void, .call (.direct ⟨0⟩) [], none, none⟩,
    ⟨⟨1⟩, ⟨0⟩, "", .void, .ret none, none, none⟩]
  maxRecursion := none
  entryPoint := true

/-- The module of the two functions. -/
noncomputable def program : Module ℝ := ⟨"m", #[reader, outer], #[], #[]⟩

/-- The analysis starts from marked functions. -/
def settings : Settings := { propagateOnlyFlagged := true }

/-- The result of the callee has the annotated error. -/
lemma errorOf?_input : (program.analyse settings 0).1.findings.results.errorOf? (.inst ⟨0⟩ ⟨0⟩)
    = some 1 := by
  have h : (program.analyse settings 0).1.findings.results.errorOf? (.inst ⟨0⟩ ⟨0⟩)
      = some (Affine.withError 0 (1 : ℝ) 0).1.noiseBound := by with_unfolding_all rfl
  rw [h, Affine.noiseBound_withError, abs_one]

/-- So the error of the label is at least as large, although it is another function that is
analysed. -/
theorem coversLabels_program : program.validate = .ok () ∧
    Plan.CoversLabels program settings ∧
    1 ≤ (program.analyse settings 0).1.targetError "input" := by
  have hm : program.validate = .ok () := rfl
  have hcovers := Plan.coversLabels hm settings
  have hreader : reader ∈ program.functions := by simp [program]
  have hinput : input ∈ reader.insts := by simp [reader]
  exact ⟨hm, hcovers,
    (hcovers.analyse 0).2 reader hreader input hinput "input" rfl _ errorOf?_input⟩

end LabelledInput

end Roundoff
