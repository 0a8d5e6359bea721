/-
# What holds of the estimates of a store

A store keeps estimates of values and of the fields of objects.  Whatever happens to it, an estimate
that is new to it has the range of one estimate and the error of another.  So if a property of
estimates says something of the range and something of the error, and holds of what is set, then it
goes on to hold of all estimates of the store.

A store is well formed if all its estimates are.  This does not depend on what has been drawn from
the supply since.
-/
import Mathlib
import Roundoff.Analysis.Calls
import Roundoff.Proofs.Aggregate.Leaves
import Roundoff.Proofs.Store.Edits

namespace Roundoff

section Estimates

variable {R : Type} [Number R]

namespace Estimate

variable {P : Estimate R → Prop} {e : Estimate R}

/-- The property says something of the range and something of the error, but nothing of the range
that stands for an unknown one, and nothing of the error zero. -/
structure IsPartwise (P : Estimate R → Prop) : Prop where
  /-- The property holds if nothing is known. -/
  unknown : P Estimate.unknown
  /-- The property holds if the error is known to be zero. -/
  zero : P ⟨Range.unknown, some Affine.zero⟩
  /-- The range and the error may be those of two estimates. -/
  combine : ∀ e e', P e → P e' → P ⟨e.range, e'.error⟩

namespace IsPartwise

variable (hP : IsPartwise P)

include hP

lemma zeroed (he : P e) : P e.zeroed := by
  obtain ⟨range, error⟩ := e
  cases error with
  | none => exact hP.combine _ _ he hP.unknown
  | some f => exact hP.combine _ _ he hP.zero

lemma mergeArgument {annotated : Option (Estimate R)} (ha : ∀ a, annotated = some a → P a)
    (he : P e) : P (Store.mergeArgument annotated e) := by
  cases annotated with
  | none => exact he
  | some a =>
    have ha := ha a rfl
    rw [Store.mergeArgument]
    obtain ⟨range, error⟩ := e
    -- the error is that of the actual parameter, if there is one
    have hmerged : P ⟨range, error.or a.error⟩ := by
      cases error with
      | none => exact hP.combine _ _ he ha
      | some f => exact he
    dsimp only
    split
    · exact hP.combine _ _ ha hmerged
    · exact hmerged

end IsPartwise

end Estimate

/-- The estimates that an annotation gives are as wanted, that of a value and that of a field. -/
structure ScalarInfo.Attains (P : Estimate R → Symbol → Prop) (info : ScalarInfo R) : Prop where
  /-- The estimate of a value. -/
  value : ∀ n, Fresh.Attains n (Store.annotated info) P
  /-- The estimate of a field. -/
  field : ∀ n, Fresh.Attains n (Tree.annotated info) P

namespace Store

variable {P : Estimate R → Prop} {s other : Store R} {k : Key} {e : Estimate R}

/-- All estimates of a store are as wanted. -/
structure All (P : Estimate R → Prop) (s : Store R) : Prop where
  /-- The estimates of values. -/
  entries : s.entries.All fun _ e => P e
  /-- The estimates of the fields of objects. -/
  objects : s.objects.All P

omit [Number R] in
lemma all_forModule (m : Module R) : (forModule m).All P := ⟨Table.all_empty, Objects.all_empty⟩

namespace All

variable {Q : Estimate R → Prop}

/-! ## Changes -/

omit [Number R] in
lemma mono (hs : s.All P) (h : ∀ e, P e → Q e) : s.All Q :=
  ⟨hs.entries.mono fun _ e he => h e he, hs.objects.mono h⟩

omit [Number R] in
lemma get? (hs : s.All P) (h : s.get? k = some e) : P e := hs.entries.get? h

/-- What is known of a value, or that nothing is known of it, is as wanted. -/
lemma getD_get? (hs : s.All P) (hunknown : P Estimate.unknown) (k : Key) :
    P ((s.get? k).getD Estimate.unknown) := by
  cases h : s.get? k with
  | none => exact hunknown
  | some e => exact hs.get? h

lemma raiseTarget (hs : s.All P) (k : Key) (x : R) : (s.raiseTarget k x).All P := by
  rw [Store.raiseTarget]
  split
  · exact ⟨hs.entries, hs.objects⟩
  · exact hs

lemma set (hs : s.All P) (k : Key) (he : P e) : (s.set k e).All P := by
  have hinsert : ({ s with entries := s.entries.insert k e } : Store R).All P :=
    ⟨hs.entries.insert he, hs.objects⟩
  rw [Store.set]
  split
  · exact hinsert.raiseTarget _ _
  · exact hinsert

omit [Number R] in
lemma withObjects (hs : s.All P) {o : Objects R} (ho : o.All P) :
    ({ s with objects := o } : Store R).All P := ⟨hs.entries, ho⟩

omit [Number R] in
lemma eraseFunction (hs : s.All P) (f : Function R) : (s.eraseFunction f).All P :=
  ⟨hs.entries.filterKeys _, hs.objects.eraseLocals f⟩

omit [Number R] in
lemma mergeGlobals (hs : s.All P) (hother : other.All P) : (s.mergeGlobals other).All P :=
  ⟨hs.entries.update (hother.entries.filterKeys _), hs.objects.mergeGlobals hother.objects⟩

lemma mergeTargets (hs : s.All P) (other : Store R) : (s.mergeTargets other).All P :=
  ⟨hs.entries, hs.objects⟩

section Partwise

variable (hP : Estimate.IsPartwise P)

include hP

lemma setError (hs : s.All P) (k : Key) {f : Affine R} (hf : P ⟨Range.unknown, some f⟩) :
    (s.setError k f).All P :=
  All.set hs k (hP.combine _ _ (hs.getD_get? hP.unknown k) hf)

lemma setRange (hs : s.All P) (k : Key) {r : Range R} (hr : P ⟨r, none⟩) :
    (s.setRange k r).All P :=
  ⟨hs.entries.insert (hP.combine _ _ hr (hs.getD_get? hP.unknown k)), hs.objects⟩

lemma raise (hs : s.All P) (k : Key) (he : P e) : (s.raise k e).2.All P := by
  rw [Store.raise]
  split
  · exact hs
  · split
    · exact hs
    · refine hs.set k ?_
      -- the range is the new one or the one from before
      split
      · next old hold =>
        split
        · exact hP.combine _ _ (hs.get? hold) he
        · exact he
      · exact he

/-- The copy with zero errors. -/
lemma zeroed (hs : s.All P) : s.zeroed.All P :=
  ⟨hs.entries.map fun _ _ he => hP.zeroed he, hs.objects.zeroed fun _ he => hP.zeroed he⟩

/-! ## Calls -/

lemma applyArguments (hs : s.All P) {source : Store R} (hsource : source.All P)
    (caller : FunctionId) (callee : Function R) (args : List (Value R)) :
    (s.applyArguments source caller callee args).All P := by
  refine List.foldlRecOn (motive := fun s : Store R => s.All P) _ _ hs fun s hs vn _ => ?_
  obtain ⟨actual, j⟩ := vn
  dsimp only
  split
  · exact hs
  · next hactual =>
    obtain ⟨k, -, hk⟩ := Option.bind_eq_some_iff.1 hactual
    exact hs.set _ (hP.mergeArgument (fun _ ha => hs.get? ha) (hsource.get? hk))

lemma raiseArgument (hs : s.All P) (hother : other.All P) (caller callee : Function R)
    (p : ℕ × Param R × Value R) : (Store.raiseArgument caller callee other s p).All P := by
  unfold Store.raiseArgument
  dsimp only
  split
  · split
    · next hwritten _ => exact hs.raise hP _ (hother.get? hwritten)
    · exact hs
  · exact hs

/-- At the end of an activation for a call, the store of the caller knows what one of the two stores
has known, as far as ranges and errors are concerned. -/
lemma afterCall (hs : s.All P) (hother : other.All P) (m : Module R) (caller callee : Function R)
    (args : List (Value R)) : (s.afterCall other m caller callee args).All P := by
  let params := (callee.params.toList.zip args).zipIdx.map fun q => (q.2, q.1.1, q.1.2)
  -- once the returned value has been merged, it is the turn of the arguments, and of all else
  have hmerge {s : Store R} (hs : s.All P) :
      let s := (params.foldl (Store.raiseArgument caller callee other) s).mergeGlobals other
      Store.All P (({ s with objects := s.objects.takeBack other.objects m caller args } :
        Store R).mergeTargets other) := by
    have hraised := List.foldlRecOn (motive := fun s : Store R => s.All P) params _ hs
      fun s hs p _ => hs.raiseArgument hP hother caller callee p
    have hmerged := hraised.mergeGlobals hother
    exact (hmerged.withObjects
      (hmerged.objects.takeBack hother.objects m caller args)).mergeTargets _
  rw [Store.afterCall]
  refine hmerge ?_
  split
  · next hreturned => exact hs.raise hP _ (hother.get? hreturned)
  · exact hs

end Partwise

end All

/-! ## Annotations -/

section Annotations

variable {P : Estimate R → Symbol → Prop} {n : Symbol} {m : Module R}

omit [Number R] in
lemma All.later (hP : Estimate.Lasts P) {n' : Symbol} (hs : s.All fun e => P e n) (hn : n ≤ n') :
    s.All fun e => P e n' := hs.mono fun e he => hP e n n' hn he

/-- An annotated value is set up. -/
lemma All.attains_seedValue (hP : Estimate.Lasts P) (hs : s.All fun e => P e n) (m : Module R)
    (k : Key) (ty : Option StructId) {info : Option (ValueInfo R)}
    (hinfo : ∀ v, info = some v → ∀ si, v.Mentions si → si.Attains P) :
    Fresh.Attains n (s.seedValue m k ty info) fun s' n' => s'.All fun e => P e n' := by
  unfold seedValue
  split
  · exact Fresh.attains_pure hs
  · next si =>
    exact ((hinfo _ rfl si .scalar).value n).bind fun e n' hn he =>
      Fresh.attains_pure ((hs.later hP hn).set k he)
  · split
    · exact Fresh.attains_pure hs
    · next infos ty =>
      exact (hs.objects.attains_seed hP m k ty fun si hsi => (hinfo _ rfl si hsi).field).bind
        fun o n' hn ho => Fresh.attains_pure ((hs.later hP hn).withObjects ho)

/-- The annotated formal parameters of a function are set up. -/
lemma All.attains_seedArguments (hP : Estimate.Lasts P) (hs : s.All fun e => P e n) (m : Module R)
    {f : Function R}
    (hf : ∀ p ∈ f.params, ∀ v, p.info = some v → ∀ si, v.Mentions si → si.Attains P) :
    Fresh.Attains n (s.seedArguments m f) fun s' n' => s'.All fun e => P e n' := by
  rw [seedArguments]
  refine Fresh.attains_foldlM (fun s' n' _ q hq hs' => ?_) hs
  refine hs'.attains_seedValue hP m _ _ (hf q.1 ?_)
  exact Array.mem_toList_iff.1 (List.fst_mem_of_mem_zipIdx hq)

/-- The annotated global variables are set up. -/
lemma All.attains_seedGlobals (hP : Estimate.Lasts P) (hs : s.All fun e => P e n)
    (hm : ∀ g ∈ m.globals, ∀ v, g.info = some v → ∀ si, v.Mentions si → si.Attains P) :
    Fresh.Attains n (s.seedGlobals m) fun s' n' => s'.All fun e => P e n' := by
  rw [seedGlobals]
  refine Fresh.attains_foldlM (fun s' n' _ g hg hs' => ?_) hs
  exact hs'.attains_seedValue hP m _ _ (hm g (Array.mem_toList_iff.1 hg))

/-- An activation for a call begins. -/
lemma All.attains_atCall (hP : Estimate.Lasts P) (hparts : ∀ n, Estimate.IsPartwise fun e => P e n)
    (hs : s.All fun e => P e n) (m : Module R) (caller : Function R) {callee : Function R}
    (hcallee : ∀ p ∈ callee.params, ∀ v, p.info = some v → ∀ si, v.Mentions si → si.Attains P)
    (args : List (Value R)) :
    Fresh.Attains n (s.atCall m caller callee args) fun s' n' => s'.All fun e => P e n' := by
  unfold atCall
  refine ((hs.eraseFunction callee).attains_seedArguments hP m hcallee).bind fun s' n' hn hs' =>
    Fresh.attains_pure ?_
  have happly := hs'.applyArguments (hparts n') (hs.later hP hn) caller.id callee args
  refine ⟨happly.entries, ?_⟩
  rw [Objects.All, Objects.trees_bindArguments]
  exact happly.objects

end Annotations

end Store

end Estimates

/-! ## Well-formed stores -/

/-- Well-formedness says something of the range and something of the error. -/
lemma Estimate.isPartwise_isWellFormed (n : Symbol) :
    Estimate.IsPartwise fun e : Estimate ℝ => e.IsWellFormed n where
  unknown := isWellFormed_unknown
  zero := isWellFormed_unknown.withError Affine.isWellFormed_zero
  combine _ _ he he' := ⟨he.lo_le_hi, he'.error⟩

namespace Store

variable {n n' : Symbol} {s other : Store ℝ} {k : Key} {e : Estimate ℝ}

/-- All estimates are well formed, over symbols below `n`. -/
structure IsWellFormed (s : Store ℝ) (n : Symbol) : Prop where
  /-- The estimates of values. -/
  entries : s.entries.All fun _ e => e.IsWellFormed n
  /-- The estimates of the fields of objects. -/
  objects : s.objects.IsWellFormed n

lemma isWellFormed_iff_all : s.IsWellFormed n ↔ s.All fun e => e.IsWellFormed n :=
  ⟨fun h => ⟨h.entries, h.objects⟩, fun h => ⟨h.entries, h.objects⟩⟩

namespace IsWellFormed

lemma all (hs : s.IsWellFormed n) : s.All fun e => e.IsWellFormed n := isWellFormed_iff_all.1 hs

lemma of_all (hs : s.All fun e => e.IsWellFormed n) : s.IsWellFormed n := isWellFormed_iff_all.2 hs

lemma mono (hs : s.IsWellFormed n) (hn : n ≤ n') : s.IsWellFormed n' :=
  of_all (hs.all.mono fun _ he => he.mono hn)

lemma get? (hs : s.IsWellFormed n) (h : s.get? k = some e) : e.IsWellFormed n := hs.all.get? h

lemma lo_le_hi (hs : s.IsWellFormed n) {r : Range ℝ} (h : s.range? k = some r) : r.lo ≤ r.hi := by
  obtain ⟨e, he, rfl⟩ := Option.map_eq_some_iff.1 h
  exact (hs.get? he).lo_le_hi

lemma set (hs : s.IsWellFormed n) (k : Key) (he : e.IsWellFormed n) :
    (s.set k e).IsWellFormed n := of_all (hs.all.set k he)

lemma setError (hs : s.IsWellFormed n) (k : Key) {f : Affine ℝ} (hf : f.IsWellFormed n) :
    (s.setError k f).IsWellFormed n :=
  of_all (hs.all.setError (Estimate.isPartwise_isWellFormed n) k
    (Estimate.isWellFormed_unknown.withError hf))

lemma setRange (hs : s.IsWellFormed n) (k : Key) {r : Range ℝ} (hr : r.lo ≤ r.hi) :
    (s.setRange k r).IsWellFormed n :=
  of_all (hs.all.setRange (Estimate.isPartwise_isWellFormed n) k
    (Estimate.isWellFormed_unknown.withRange hr))

lemma raise (hs : s.IsWellFormed n) (k : Key) (he : e.IsWellFormed n) :
    (s.raise k e).2.IsWellFormed n :=
  of_all (hs.all.raise (Estimate.isPartwise_isWellFormed n) k he)

lemma withObjects (hs : s.IsWellFormed n) {o : Objects ℝ} (ho : o.IsWellFormed n) :
    ({ s with objects := o } : Store ℝ).IsWellFormed n := of_all (hs.all.withObjects ho)

lemma eraseFunction (hs : s.IsWellFormed n) (f : Function ℝ) :
    (s.eraseFunction f).IsWellFormed n := of_all (hs.all.eraseFunction f)

lemma mergeGlobals (hs : s.IsWellFormed n) (hother : other.IsWellFormed n) :
    (s.mergeGlobals other).IsWellFormed n := of_all (hs.all.mergeGlobals hother.all)

lemma mergeTargets (hs : s.IsWellFormed n) (other : Store ℝ) :
    (s.mergeTargets other).IsWellFormed n := of_all (hs.all.mergeTargets other)

/-- The copy with zero errors is well formed. -/
lemma zeroed (hs : s.IsWellFormed n) : s.zeroed.IsWellFormed n :=
  of_all (hs.all.zeroed (Estimate.isPartwise_isWellFormed n))

end IsWellFormed

lemma isWellFormed_forModule (m : Module ℝ) : (forModule m).IsWellFormed n :=
  .of_all (all_forModule m)

/-! ### Annotations -/

lemma attains_annotated (info : ScalarInfo ℝ) :
    Fresh.Attains n (annotated info) fun e n' => e.IsWellFormed n' :=
  info.attains_error?.bind fun _ _ _ ho => Fresh.attains_pure ⟨info.lo_le_hi_rangeOrZero, ho⟩

end Store

end Roundoff
