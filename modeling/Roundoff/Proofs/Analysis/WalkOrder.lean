/-
# Walks over unordered tables

A table may be kept unordered, and then its pairs are found in an order of which nothing is known.
Where the analysis walks over a table, this order does not matter.  Steps that change another table
at the key of the pair may be made in any order, since no two pairs have one key, and loops are
numbered by their sizes and headers, and no two of them have one header.

Reports are the exception.  The functions of a report are sorted by name, and functions of one name
are left in the order in which their summaries are found.  So a report is determined only if such
functions have the same entry.
-/
import Mathlib
import Roundoff.Analysis.Report
import Roundoff.Proofs.Flow.Loops
import Roundoff.Proofs.Memory.Blocks
import Roundoff.Proofs.Number.Exact
import Roundoff.Proofs.Store.Sorted

namespace Roundoff

/-! ## Sorting -/

section Sorting

variable {α : Type} {r : α → α → Prop} [DecidableRel r] [IsTrans α r] {x y : α} {xs ys : List α}

/-- If one of two items precedes the other, they may be inserted in either order. -/
lemma orderedInsert_comm (hxy : r x y) (hyx : ¬ r y x) (xs : List α) :
    (xs.orderedInsert r y).orderedInsert r x = (xs.orderedInsert r x).orderedInsert r y := by
  induction xs with
  | nil => simp [hxy, hyx]
  | cons z xs ih =>
    by_cases hx : r x z
    · by_cases hy : r y z <;> simp [hx, hy, hxy, hyx]
    · have hy : ¬ r y z := fun hy => hx (IsTrans.trans _ _ _ hxy hy)
      simp [hx, hy, ih]

/-- Items are sorted alike in whatever order they are given, if of any two one precedes the other. -/
lemma insertionSort_eq_of_perm (h : xs.Perm ys)
    (hprecedes : ∀ x ∈ xs, ∀ y ∈ xs, x = y ∨ (r x y ∧ ¬ r y x) ∨ (r y x ∧ ¬ r x y)) :
    xs.insertionSort r = ys.insertionSort r := by
  refine h.foldr_eq' (fun x hx y hy zs => ?_) []
  obtain rfl | ⟨hxy, hyx⟩ | ⟨hyx, hxy⟩ := hprecedes x hx y hy
  · rfl
  · exact (orderedInsert_comm hxy hyx zs).symm
  · exact orderedInsert_comm hyx hxy zs

/-- Of two items that precede each other, the one that is inserted last comes first. -/
lemma exists_orderedInsert_eq (hxy : r x y) (hyx : r y x) (xs : List α) :
    ∃ pre post, (xs.orderedInsert r y).orderedInsert r x = pre ++ x :: y :: post ∧
      (xs.orderedInsert r x).orderedInsert r y = pre ++ y :: x :: post := by
  induction xs with
  | nil => exact ⟨[], [], by simp [hxy], by simp [hyx]⟩
  | cons z xs ih =>
    by_cases hx : r x z
    · have hy : r y z := IsTrans.trans _ _ _ hyx hx
      exact ⟨[], z :: xs, by simp [hy, hxy], by simp [hx, hyx]⟩
    · have hy : ¬ r y z := fun hy => hx (IsTrans.trans _ _ _ hxy hy)
      obtain ⟨pre, post, hpre, hpost⟩ := ih
      exact ⟨z :: pre, post, by simp [hx, hy, hpre], by simp [hx, hy, hpost]⟩

/-- So the order in which they are inserted is told from the result. -/
lemma eq_of_orderedInsert_comm (hxy : r x y) (hyx : r y x)
    (h : (xs.orderedInsert r y).orderedInsert r x = (xs.orderedInsert r x).orderedInsert r y) :
    x = y := by
  obtain ⟨pre, post, hx, hy⟩ := exists_orderedInsert_eq hxy hyx xs
  rw [hx, hy] at h
  exact (List.cons.inj (List.append_cancel_left h)).1

end Sorting

/-! ## Tables -/

namespace Table

variable {K V W A : Type} [Ord K] [Std.LawfulEqOrd K] [Std.TransOrd K]

lemma insertSorted_comm_of_lt {k l : K} (hlt : compare k l = .lt) (v w : V) (ps : List (K × V)) :
    insertSorted k v (insertSorted l w ps) = insertSorted l w (insertSorted k v ps) := by
  have hgt : compare l k = .gt := Std.OrientedCmp.gt_iff_lt.2 hlt
  induction ps with
  | nil => simp [insertSorted, hlt, hgt]
  | cons p ps ih =>
    obtain ⟨a, u⟩ := p
    cases hk : compare k a with
    | lt => cases hl : compare l a <;> simp [insertSorted, hk, hl, hlt, hgt]
    | eq =>
      obtain rfl := Std.LawfulEqOrd.eq_of_compare hk
      simp [insertSorted, hgt]
    | gt =>
      have hl : compare l a = .gt :=
        Std.OrientedCmp.gt_iff_lt.2 (Std.TransCmp.lt_trans (Std.OrientedCmp.gt_iff_lt.1 hk) hlt)
      simp [insertSorted, hk, hl, ih]

/-- Pairs with different keys may be set in either order. -/
lemma insert_comm {k l : K} (hne : k ≠ l) (t : Table K V) (v w : V) :
    (t.insert l w).insert k v = (t.insert k v).insert l w := by
  refine congrArg Table.mk ?_
  cases hkl : compare k l with
  | lt => exact insertSorted_comm_of_lt hkl v w t.pairs
  | eq => exact absurd (Std.LawfulEqOrd.eq_of_compare hkl) hne
  | gt => exact (insertSorted_comm_of_lt (Std.OrientedCmp.gt_iff_lt.1 hkl) w v t.pairs).symm

/-- **Steps that change a table at different keys may be made in any order**, if each depends only
on what the table says about its key. -/
theorem foldl_eq_of_perm [DecidableEq K] {step : Table K W → A → Table K W} (key : A → K)
    (choose : A → Option W → Option W)
    (hstep : ∀ t a, step t a = (choose a (t.get? (key a))).elim t (t.insert (key a)))
    {as as' : List A} (h : as.Perm as') (hkeys : (as.map key).Nodup) (t : Table K W) :
    as.foldl step t = as'.foldl step t := by
  refine h.foldl_eq' (fun a ha b hb t => ?_) t
  by_cases hab : key a = key b
  · rw [List.inj_on_of_nodup_map hkeys ha hb hab]
  · simp only [hstep]
    cases ha : choose a (t.get? (key a)) <;> cases hb : choose b (t.get? (key b)) <;>
      simp [ha, hb, hab, Ne.symm hab, insert_comm hab]

omit [Std.LawfulEqOrd K] [Std.TransOrd K] in
lemma IsSorted.nodup_keys [Std.ReflOrd K] {t : Table K V} (h : t.IsSorted) :
    (t.pairs.map Prod.fst).Nodup := by
  refine List.pairwise_map.2 (h.imp fun {p q} hlt heq => ?_)
  rw [heq, Std.ReflOrd.compare_self] at hlt
  cases hlt

/-- The pairs of a table may be taken over in any order. -/
lemma update_eq_of_perm {other other' : Table K V} (h : other.pairs.Perm other'.pairs)
    (hsorted : other.IsSorted) (t : Table K V) : t.update other = t.update other' := by
  classical
  exact foldl_eq_of_perm Prod.fst (fun p _ => some p.2) (fun _ _ => rfl) h hsorted.nodup_keys t

end Table

/-! ## Merging -/

section Merging

variable {R : Type}

/-- What is known of global variables may be taken over in any order. -/
lemma Store.mergeGlobals_eq_of_perm (s : Store R) {other other' : Store R}
    (hentries : other.entries.pairs.Perm other'.entries.pairs)
    (htrees : other.objects.trees.pairs.Perm other'.objects.trees.pairs)
    (hsorted : other.entries.IsSorted) (hsorted' : other.objects.trees.IsSorted) :
    s.mergeGlobals other = s.mergeGlobals other' := by
  have hupdate : s.entries.update (other.entries.filterKeys Key.isGlobal)
      = s.entries.update (other'.entries.filterKeys Key.isGlobal) :=
    Table.update_eq_of_perm (hentries.filter _) (hsorted.filterKeys _) _
  have hupdate' : s.objects.trees.update (other.objects.trees.filterKeys Key.isGlobal)
      = s.objects.trees.update (other'.objects.trees.filterKeys Key.isGlobal) :=
    Table.update_eq_of_perm (htrees.filter _) (hsorted'.filterKeys _) _
  rw [mergeGlobals, mergeGlobals, Objects.mergeGlobals, Objects.mergeGlobals, hupdate, hupdate']

variable [Number R]

/-- The estimate that becomes the worst one, if it is not the one before. -/
def Results.chosen? (e : Estimate R) (old : Option (Estimate R)) : Option (Estimate R) :=
  match e.absError with
  | none => none
  | some bound =>
    match old.bind Estimate.absError with
    | some old => if old < bound then some e else none
    | none => some e

/-- The results of an activation may be taken into the worst estimates in any order. -/
lemma Results.values_absorb_of_perm (r : Results R) (f : FunctionId) {a : Activation R}
    {entries : List (Key × Estimate R)} (h : entries.Perm a.store.entries.pairs)
    (hsorted : a.store.entries.IsSorted) :
    (entries.filter fun q => isInstOf f q.1).foldl
        (fun values (q : Key × Estimate R) => absorbValue values q.1 q.2) r.values
      = (r.absorb f a).values := by
  have hkeys := (hsorted.filterKeys (isInstOf f)).nodup_keys
  have hperm : (entries.filter fun q => isInstOf f q.1).Perm
      (a.store.entries.filterKeys (isInstOf f)).pairs := h.filter _
  refine Table.foldl_eq_of_perm Prod.fst (fun q old => chosen? q.2 old) (fun values q => ?_) hperm
    ((hperm.map Prod.fst).nodup_iff.2 hkeys) r.values
  rw [absorbValue, chosen?]
  cases q.2.absError with
  | none => rfl
  | some bound =>
    cases (values.get? q.1).bind Estimate.absError with
    | none => rfl
    | some old =>
      dsimp only
      split <;> rfl

end Merging

/-! ## Loops and memory states -/

lemma Loop.foldr_insertSorted (ls : List Loop) :
    ls.foldr Loop.insertSorted [] = ls.insertionSort fun k l => k.precedes l = true := by
  have hinsert (k : Loop) (ls : List Loop) :
      k.insertSorted ls = ls.orderedInsert (fun k l => k.precedes l = true) k := by
    induction ls with
    | nil => rfl
    | cons l ls ih => rw [Loop.insertSorted, List.orderedInsert_cons, ih]
  rw [List.insertionSort]
  exact congrArg (fun f => ls.foldr f []) (funext fun k => funext fun ls => hinsert k ls)

lemma Loop.precedes_iff {k l : Loop} : k.precedes l = true ↔ l.blocks.length < k.blocks.length ∨
    l.blocks.length = k.blocks.length ∧ k.header.val.toNat < l.header.val.toNat := by
  simp [Loop.precedes, UInt32.lt_iff_toNat_lt]

instance : IsTrans Loop fun k l => k.precedes l = true where
  trans k l j hkl hlj := by
    rw [Loop.precedes_iff] at hkl hlj ⊢
    omega

/-- The loops of a function are numbered alike in whatever order they are found. -/
lemma FlowGraph.foldr_insertSorted_of_perm {g : FlowGraph} {ls : List Loop}
    (h : ls.Perm g.naturalLoops) : ls.foldr Loop.insertSorted [] = g.naturalLoops := by
  -- a loop is given by its header
  have hmem {k : Loop} (hk : k ∈ ls) : k = g.loopOf k.header (g.latches k.header) := by
    obtain ⟨header, -, -, hk⟩ := mem_naturalLoops_iff.1 (h.mem_iff.1 hk)
    have hheader : k.header = header := by rw [hk]; rfl
    rw [hheader, hk]
  rw [naturalLoops, Loop.foldr_insertSorted] at h
  rw [naturalLoops, Loop.foldr_insertSorted, Loop.foldr_insertSorted]
  refine insertionSort_eq_of_perm (h.trans (List.perm_insertionSort _ _)) fun k hk l hl => ?_
  by_cases hheader : k.header = l.header
  · exact .inl (by rw [hmem hk, hmem hl, hheader])
  · have hne : k.header.val.toNat ≠ l.header.val.toNat := fun heq =>
      hheader (congrArg BlockId.mk (UInt32.toNat_inj.1 heq))
    simp only [Loop.precedes_iff]
    omega

/-- Joins may be filled in in any order. -/
lemma Memory.foldl_fill_eq {R : Type} (m : Module R) (f : Function R) {ss : List StateId}
    (h : ∀ s b ts, (following m f (order f)).memory.state? s = some (.joined b ts) → s ∈ ss) :
    ss.foldl (fun states s => states.modify s (fill m f)) (following m f (order f)).memory.states
      = (Memory.of m f).states := by
  refine Array.ext_getElem? fun s => ?_
  have hget (ss : List StateId) (states : Array MemoryState) :
      (ss.foldl (fun states s => states.modify s (fill m f)) states)[s]?
        = if s ∈ ss then states[s]?.map (fill m f) else states[s]? := by
    induction ss generalizing states with
    | nil => rfl
    | cons t ss ih =>
      have hfill (x : MemoryState) : fill m f (fill m f x) = fill m f x := by cases x <;> rfl
      rw [List.foldl_cons, ih, Array.getElem?_modify]
      by_cases ht : t = s
      · subst ht
        cases states[t]? <;> simp [hfill]
      · simp [ht, Ne.symm ht]
  have hstate := state?_of (m := m) (f := f) s
  rw [state?, state?] at hstate
  rw [hget, hstate]
  split
  · rfl
  · next hs =>
    cases hx : (following m f (order f)).memory.states[s]? with
    | none => rfl
    | some x =>
      cases x with
      | joined b ts => exact absurd (h s b ts hx) hs
      | initial => rfl
      | written id before => rfl

/-! ## Reports -/

/-- An analysis in which the summaries are found in the given order. -/
def Analysis.walking {R : Type} (a : Analysis R) (summaries : List (FunctionId × Summary R)) :
    Analysis R :=
  { a with findings := { a.findings with summaries := ⟨summaries⟩ } }

namespace Report

variable {R : Type} [Number R] {m : Module R} {mode : ReportMode}
  {summaries : List (FunctionId × Summary R)}

/-- The functions as a report lists them if their summaries are found in the given order. -/
def functionsOf (m : Module R) (mode : ReportMode) (summaries : List (FunctionId × Summary R)) :
    List (FunctionEntry R) :=
  (summaries.filterMap (function? m mode)).foldr insertSorted []

omit [Number R] in
lemma foldr_insertSorted (entries : List (FunctionEntry R)) : entries.foldr insertSorted []
    = entries.insertionSort fun x y => x.function ≤ y.function := by
  have hinsert (x : FunctionEntry R) (ys : List (FunctionEntry R)) :
      insertSorted x ys = ys.orderedInsert (fun x y => x.function ≤ y.function) x := by
    induction ys with
    | nil => rfl
    | cons y ys ih =>
      rw [insertSorted, List.orderedInsert_cons, ih]
      by_cases hlt : y.function < x.function
      · rw [if_pos hlt, if_neg hlt.not_ge]
      · rw [if_neg hlt, if_pos (not_lt.1 hlt)]
  rw [List.insertionSort]
  exact congrArg (fun f => entries.foldr f []) (funext fun x => funext fun ys => hinsert x ys)

lemma mem_functionsOf_iff {x : FunctionEntry R} :
    x ∈ functionsOf m mode summaries ↔ x ∈ summaries.filterMap (function? m mode) := by
  rw [functionsOf, foldr_insertSorted, List.mem_insertionSort]

/-- Functions of different names are listed alike in whatever order their summaries are found. -/
lemma functionsOf_eq_of_perm {summaries' : List (FunctionId × Summary R)}
    (hperm : summaries'.Perm summaries)
    (hentries : ∀ x ∈ functionsOf m mode summaries, ∀ y ∈ functionsOf m mode summaries,
      x.function = y.function → x = y) :
    functionsOf m mode summaries' = functionsOf m mode summaries := by
  rw [functionsOf, functionsOf, foldr_insertSorted, foldr_insertSorted]
  refine insertionSort_eq_of_perm (hperm.filterMap _) fun x hx y hy => ?_
  have hx := mem_functionsOf_iff.2 ((hperm.filterMap (function? m mode)).mem_iff.1 hx)
  have hy := mem_functionsOf_iff.2 ((hperm.filterMap (function? m mode)).mem_iff.1 hy)
  rcases lt_trichotomy x.function y.function with hlt | heq | hlt
  · exact .inr (.inl ⟨hlt.le, hlt.not_ge⟩)
  · exact .inl (hentries x hx y hy heq)
  · exact .inr (.inr ⟨hlt.le, hlt.not_ge⟩)

/-- Functions of one name are listed in the order in which their summaries are found. -/
lemma eq_of_functionsOf_eq_of_perm {x y : FunctionEntry R}
    (h : ∀ summaries', summaries'.Perm summaries →
      functionsOf m mode summaries' = functionsOf m mode summaries)
    (hx : x ∈ functionsOf m mode summaries) (hy : y ∈ functionsOf m mode summaries)
    (hname : x.function = y.function) : x = y := by
  classical
  by_contra hne
  obtain ⟨p, hp, hpx⟩ := List.mem_filterMap.1 (mem_functionsOf_iff.1 hx)
  obtain ⟨q, hq, hqy⟩ := List.mem_filterMap.1 (mem_functionsOf_iff.1 hy)
  have hpq : q ≠ p := by
    rintro rfl
    exact hne (Option.some.inj (hpx.symm.trans hqy))
  -- the two summaries may come first, in either order
  have hperm : (p :: q :: (summaries.erase p).erase q).Perm summaries :=
    ((List.perm_cons_erase hp).trans
      ((List.perm_cons_erase ((List.mem_erase_of_ne hpq).2 hq)).cons p)).symm
  have hlists := (h _ hperm).trans (h _ ((List.Perm.swap p q _).trans hperm)).symm
  rw [functionsOf, functionsOf, foldr_insertSorted, foldr_insertSorted] at hlists
  simp only [List.filterMap_cons, hpx, hqy, List.insertionSort_cons] at hlists
  exact hne (eq_of_orderedInsert_comm hname.le hname.ge hlists)

/-- **The report is the same in whatever order the summaries are found if and only if functions of
the same name have the same entry.** -/
theorem of_walking_eq_iff (m : Module R) (mode : ReportMode) (a : Analysis R) :
    (∀ summaries, summaries.Perm a.findings.summaries.pairs →
        Report.of m mode (a.walking summaries) = Report.of m mode a) ↔
      ∀ x ∈ (Report.of m mode a).functions, ∀ y ∈ (Report.of m mode a).functions,
        x.function = y.function → x = y := by
  constructor
  · intro h x hx y hy
    exact eq_of_functionsOf_eq_of_perm
      (fun summaries hperm => congrArg Report.functions (h summaries hperm)) hx hy
  · intro h summaries hperm
    have hfunctions : (Report.of m mode (a.walking summaries)).functions
        = (Report.of m mode a).functions := functionsOf_eq_of_perm hperm h
    rw [Report.of, Report.of, Report.mk.injEq]
    exact ⟨rfl, rfl, rfl, rfl, hfunctions, rfl, rfl⟩

/-! ### Functions of one name -/

namespace Namesakes

/-- A function that does nothing. -/
def callee : Function ℝ where
  id := ⟨0⟩
  name := "f"
  params := #[]
  retTy := .void
  blocks := #[⟨⟨0⟩, "entry", [⟨0⟩], none, none⟩]
  insts := #[⟨⟨0⟩, ⟨0⟩, "", .void, .ret none, none, none⟩]
  maxRecursion := none
  entryPoint := false

/-- A function of the same name that calls it. -/
def caller : Function ℝ where
  id := ⟨1⟩
  name := "f"
  params := #[]
  retTy := .void
  blocks := #[⟨⟨0⟩, "entry", [⟨0⟩, ⟨1⟩], none, none⟩]
  insts := #[⟨⟨0⟩, ⟨0⟩, "", .void, .call (.direct ⟨0⟩) [], none, none⟩,
    ⟨⟨1⟩, ⟨0⟩, "", .void, .ret none, none, none⟩]
  maxRecursion := none
  entryPoint := false

/-- The module of the two functions. -/
def program : Module ℝ := ⟨"m", #[callee, caller], #[], #[]⟩

/-- The analysis of the module. -/
noncomputable def analysis : Analysis ℝ := (program.analyse {} 0).1

/-- The numbers of activations as a report lists them. -/
noncomputable def listed (a : Analysis ℝ) : List UInt32 :=
  (Report.of program .absolute a).functions.map FunctionEntry.activations

lemma listed_analysis : listed analysis = [2, 1] ∧
    listed (analysis.walking analysis.findings.summaries.pairs.reverse) = [1, 2] := by
  decide +kernel

/-- The module is valid, and the report on it tells in which order the summaries have been found. -/
theorem of_walking_reverse_ne : program.validate = .ok () ∧
    Report.of program .absolute (analysis.walking analysis.findings.summaries.pairs.reverse)
      ≠ Report.of program .absolute analysis := by
  obtain ⟨h, hreverse⟩ := listed_analysis
  refine ⟨rfl, fun heq => ?_⟩
  rw [listed, heq] at hreverse
  cases h.symm.trans hreverse

end Namesakes

end Report

end Roundoff
