/-
# How rules change a store

Every rule changes the entries of a store by setting estimates for some keys.  Then nothing is lost
and nothing changes for other keys, and the entries remain sorted.

A rule sets estimates, errors and ranges of some values, and changes the fields of objects.  Setting
an error raises the error of the label of the value, if it has one, so after such changes the errors
of labels cover all errors that are recorded for labelled values, if they did before.
-/
import Mathlib
import Roundoff.Proofs.Affine.Value
import Roundoff.Proofs.Store.Sorted
import Roundoff.Proofs.Store.Targets

namespace Roundoff

/-! ## Keys that are written -/

namespace Store

variable {R : Type} {ks ks' : Set Key} {s s' s'' : Store R} {k l : Key}

/-- The entries of a store change by setting estimates for the given keys. -/
inductive Writes (ks : Set Key) (s : Store R) : Store R → Prop
  /-- The entries stay as they are. -/
  | same {s' : Store R} (h : s'.entries = s.entries) : Writes ks s s'
  /-- At last an estimate is set. -/
  | set {s' s'' : Store R} {k : Key} {e : Estimate R} (h : Writes ks s s') (hk : k ∈ ks)
      (hs : s''.entries = s'.entries.insert k e) : Writes ks s s''

namespace Writes

lemma refl (ks : Set Key) (s : Store R) : s.Writes ks s := .same rfl

lemma trans (h : s.Writes ks s') (h' : s'.Writes ks s'') : s.Writes ks s'' := by
  induction h' with
  | same heq =>
    cases h with
    | same h => exact .same (heq.trans h)
    | set h hk hs => exact .set h hk (heq.trans hs)
  | set _ hk hs ih => exact .set ih hk hs

lemma mono (h : s.Writes ks s') (hks : ks ⊆ ks') : s.Writes ks' s' := by
  induction h with
  | same heq => exact .same heq
  | set _ hk hs ih => exact .set ih (hks hk) hs

/-- Nothing changes for other keys. -/
lemma get?_eq [Number R] (h : s.Writes ks s') (hl : l ∉ ks) : s'.get? l = s.get? l := by
  induction h with
  | same heq => rw [get?, heq, get?]
  | @set s' s'' k e _ hk hs ih =>
    have hne : k ≠ l := fun heq => hl (heq ▸ hk)
    rw [get?, hs, Table.get?_insert, if_neg hne]
    exact ih

lemma error?_eq [Number R] (h : s.Writes ks s') (hl : l ∉ ks) : s'.error? l = s.error? l := by
  rw [error?, h.get?_eq hl, error?]

lemma absError?_eq [Number R] (h : s.Writes ks s') (hl : l ∉ ks) :
    s'.absError? l = s.absError? l := by
  rw [absError?, h.get?_eq hl, absError?]

/-- The entries remain sorted. -/
lemma isSorted (h : s.Writes ks s') (hs : s.entries.IsSorted) : s'.entries.IsSorted := by
  induction h with
  | same heq => rwa [heq]
  | set _ _ heq ih =>
    rw [heq]
    exact ih.insert _ _

end Writes

/-- Taking over the pairs of a table sets estimates for the keys of the table. -/
lemma writes_update {t : Table Key (Estimate R)} (ht : ∀ q ∈ t.pairs, q.1 ∈ ks)
    (h : s'.entries = s.entries.update t) : s.Writes ks s' := by
  obtain ⟨ps⟩ := t
  rw [Table.update] at h
  induction ps generalizing s with
  | nil => exact .same h
  | cons q ps ih =>
    have hq : s.Writes ks { s with entries := s.entries.insert q.1 q.2 } :=
      .set (.refl ks s) (ht q List.mem_cons_self) rfl
    exact hq.trans (ih (fun q' hq' => ht q' (List.mem_cons_of_mem _ hq')) h)

variable [Number R]

lemma entries_raiseTarget (s : Store R) (k : Key) (bound : R) :
    (s.raiseTarget k bound).entries = s.entries := by
  rw [raiseTarget]
  split <;> rfl

lemma writes_set (s : Store R) (k : Key) (e : Estimate R) : s.Writes {k} (s.set k e) := by
  refine .set (.refl _ s) rfl (e := e) ?_
  rw [Store.set]
  split
  · exact entries_raiseTarget _ _ _
  · rfl

lemma writes_setError (s : Store R) (k : Key) (error : Affine R) :
    s.Writes {k} (s.setError k error) := by
  rw [setError]
  exact .set (.refl _ s) rfl (entries_raiseTarget _ _ _)

lemma writes_setRange (s : Store R) (k : Key) (range : Range R) :
    s.Writes {k} (s.setRange k range) := .set (.refl _ s) rfl rfl

lemma writes_raise (s : Store R) (k : Key) (e : Estimate R) : s.Writes {k} (s.raise k e).2 := by
  rw [raise]
  split
  · exact .refl _ s
  · split
    · exact .refl _ s
    · exact s.writes_set k _

end Store

/-! ## Edits -/

namespace Store

variable {R : Type} [Number R] {ks ks' : Set Key} {s s' s'' : Store R} {k : Key}

/-- The store changes by setting estimates and ranges for the given keys, and by changing the fields
of objects. -/
inductive Edits (ks : Set Key) (s : Store R) : Store R → Prop
  /-- The store stays as it is. -/
  | refl : Edits ks s s
  /-- At last an estimate is set. -/
  | set {s' : Store R} {k : Key} (h : Edits ks s s') (hk : k ∈ ks) (e : Estimate R) :
    Edits ks s (s'.set k e)
  /-- At last a range is set. -/
  | setRange {s' : Store R} {k : Key} (h : Edits ks s s') (hk : k ∈ ks) (range : Range R) :
    Edits ks s (s'.setRange k range)
  /-- At last the fields of objects change. -/
  | objects {s' : Store R} (h : Edits ks s s') (o : Objects R) : Edits ks s { s' with objects := o }

/-- To set an error is to set an estimate. -/
lemma setError_eq (s : Store R) (k : Key) (error : Affine R) :
    s.setError k error
      = s.set k { (s.get? k).getD Estimate.unknown with error := some error } := rfl

namespace Edits

lemma trans (h : s.Edits ks s') (h' : s'.Edits ks s'') : s.Edits ks s'' := by
  induction h' with
  | refl => exact h
  | set _ hk e ih => exact .set ih hk e
  | setRange _ hk range ih => exact .setRange ih hk range
  | objects _ o ih => exact .objects ih o

lemma mono (h : s.Edits ks s') (hks : ks ⊆ ks') : s.Edits ks' s' := by
  induction h with
  | refl => exact .refl
  | set _ hk e ih => exact .set ih (hks hk) e
  | setRange _ hk range ih => exact .setRange ih (hks hk) range
  | objects _ o ih => exact .objects ih o

lemma setError (h : s.Edits ks s') (hk : k ∈ ks) (error : Affine R) :
    s.Edits ks (s'.setError k error) := by
  rw [setError_eq]
  exact .set h hk _

lemma raise (h : s.Edits ks s') (hk : k ∈ ks) (e : Estimate R) : s.Edits ks (s'.raise k e).2 := by
  rw [Store.raise]
  split
  · exact h
  · split
    · exact h
    · exact .set h hk _

/-- Estimates are written for the given keys only. -/
lemma writes (h : s.Edits ks s') : s.Writes ks s' := by
  induction h with
  | refl => exact .refl ks s
  | @set s' k _ hk e ih => exact ih.trans ((s'.writes_set k e).mono (Set.singleton_subset_iff.2 hk))
  | @setRange s' k _ hk range ih =>
    exact ih.trans ((s'.writes_setRange k range).mono (Set.singleton_subset_iff.2 hk))
  | objects _ o ih => exact ih.trans (.same rfl)

end Edits

lemma labels_raiseTarget (s : Store R) (k : Key) (x : R) :
    (s.raiseTarget k x).labels = s.labels := by
  rw [raiseTarget]
  split <;> rfl

lemma labels_set (s : Store R) (k : Key) (e : Estimate R) : (s.set k e).labels = s.labels := by
  rw [Store.set]
  split
  · exact labels_raiseTarget _ _ _
  · rfl

@[simp] lemma objects_raiseTarget (s : Store R) (k : Key) (bound : R) :
    (s.raiseTarget k bound).objects = s.objects := by
  rw [raiseTarget]
  split <;> rfl

@[simp] lemma objects_setError (s : Store R) (k : Key) (error : Affine R) :
    (s.setError k error).objects = s.objects := by
  rw [setError, objects_raiseTarget]

@[simp] lemma objects_set (s : Store R) (k : Key) (e : Estimate R) :
    (s.set k e).objects = s.objects := by
  rw [Store.set]
  split
  · rw [objects_raiseTarget]
  · rfl

/-- The labels of values stay as they are. -/
lemma Edits.labels_eq (h : s.Edits ks s') : s'.labels = s.labels := by
  induction h with
  | refl => rfl
  | @set s' k _ _ e ih => rw [labels_set, ih]
  | setRange _ _ _ ih => exact ih
  | objects _ _ ih => exact ih

end Store

/-! ## Objects -/

namespace Store

variable {R : Type} {s s' s'' : Store R} {roots roots' : Set Key}

/-- Of the objects of a store, at most the trees of the given roots change. -/
structure KeepsObjects (s : Store R) (roots : Set Key) (s' : Store R) : Prop where
  /-- No binding changes. -/
  bindings_eq : s'.objects.bindings = s.objects.bindings
  /-- The other trees stay as they are. -/
  get?_eq : ∀ k ∉ roots, s'.objects.trees.get? k = s.objects.trees.get? k

namespace KeepsObjects

lemma of_eq (h : s'.objects = s.objects) : s.KeepsObjects roots s' :=
  ⟨by rw [h], fun _ _ => by rw [h]⟩

/-- The tree of one object is replaced. -/
lemma of_insert (k : Key) (tree : Tree R) :
    s.KeepsObjects {k}
      { s with objects := { s.objects with trees := s.objects.trees.insert k tree } } :=
  ⟨rfl, fun l hl => by rw [Table.get?_insert, if_neg (Ne.symm hl)]⟩

lemma trans (h : s.KeepsObjects roots s') (h' : s'.KeepsObjects roots s'') :
    s.KeepsObjects roots s'' :=
  ⟨h'.bindings_eq.trans h.bindings_eq, fun k hk => (h'.get?_eq k hk).trans (h.get?_eq k hk)⟩

lemma mono (h : s.KeepsObjects roots s') (hroots : roots ⊆ roots') : s.KeepsObjects roots' s' :=
  ⟨h.bindings_eq, fun k hk => h.get?_eq k fun hk' => hk (hroots hk')⟩

end KeepsObjects

end Store

/-! ## Records that rise -/

namespace Store

variable {s s' s'' : Store ℝ} {k : Key}

/-- What is recorded for a value stays recorded, and its error does not become smaller. -/
def RisesAt (s s' : Store ℝ) (k : Key) : Prop :=
  ∀ e, s.get? k = some e → ∃ e', s'.get? k = some e' ∧
    ∀ x, e.absError = some x → ∃ x', e'.absError = some x' ∧ x ≤ x'

namespace RisesAt

lemma of_eq (h : s'.get? k = s.get? k) : s.RisesAt s' k :=
  fun e he => ⟨e, h.trans he, fun x hx => ⟨x, hx, le_rfl⟩⟩

lemma trans (h : s.RisesAt s' k) (h' : s'.RisesAt s'' k) : s.RisesAt s'' k := by
  intro e he
  obtain ⟨e', he', hle⟩ := h e he
  obtain ⟨e'', he'', hle'⟩ := h' e' he'
  refine ⟨e'', he'', fun x hx => ?_⟩
  obtain ⟨x', hx', hxx'⟩ := hle x hx
  obtain ⟨x'', hx'', hx'x''⟩ := hle' x' hx'
  exact ⟨x'', hx'', hxx'.trans hx'x''⟩

end RisesAt

/-- An estimate is replaced only by one with a larger error. -/
lemma risesAt_raise (s : Store ℝ) (k l : Key) (e : Estimate ℝ) : s.RisesAt (s.raise k e).2 l := by
  rw [raise]
  split
  · exact .of_eq rfl
  · next bound hbound =>
    split
    · exact .of_eq rfl
    · next hlarger =>
      by_cases hl : k = l
      · subst hl
        intro old hold
        refine ⟨_, (get?_set _ _ _ _).trans (if_pos rfl), fun x hx => ⟨bound, hbound, ?_⟩⟩
        rw [hasErrorAtLeast, hold, Option.bind_some, hx, decide_eq_true_eq] at hlarger
        exact (not_le.1 hlarger).le
      · exact .of_eq (by rw [get?_set, if_neg hl])

end Store

/-! ## Errors of labels -/

namespace Store

variable {ks : Set Key} {s s' : Store ℝ} {k : Key}

lemma rises_raiseTarget (s : Store ℝ) (k : Key) {x : ℝ} (hx : 0 ≤ x) :
    s.targets.Rises (s.raiseTarget k x).targets := by
  rw [raiseTarget]
  split
  · exact Targets.rises_raise _ _ hx
  · exact .refl _

lemma rises_set (s : Store ℝ) (k : Key) (e : Estimate ℝ) :
    s.targets.Rises (s.set k e).targets := by
  rw [Store.set]
  split
  · next x hx =>
    obtain ⟨f, -, rfl⟩ := Option.map_eq_some_iff.1 hx
    exact rises_raiseTarget { s with entries := s.entries.insert k e } k f.noiseBound_nonneg
  · exact .refl _

/-- No error of a label becomes smaller. -/
lemma Edits.rises (h : s.Edits ks s') : s.targets.Rises s'.targets := by
  induction h with
  | refl => exact .refl _
  | @set s' k _ _ e ih => exact ih.trans (s'.rises_set k e)
  | setRange _ _ _ ih => exact ih
  | objects _ _ ih => exact ih

lemma isSorted_targets_raiseTarget (hs : s.targets.errors.IsSorted) (k : Key) (x : ℝ) :
    (s.raiseTarget k x).targets.errors.IsSorted := by
  rw [raiseTarget]
  split
  · exact Targets.isSorted_raise hs _ _
  · exact hs

/-- The errors of labels remain sorted. -/
lemma Edits.isSorted_targets (h : s.Edits ks s') (hs : s.targets.errors.IsSorted) :
    s'.targets.errors.IsSorted := by
  induction h with
  | refl => exact hs
  | @set s' k _ _ e ih =>
    rw [Store.set]
    split
    · exact isSorted_targets_raiseTarget (s := { s' with entries := s'.entries.insert k e }) ih k _
    · exact ih
  | setRange _ _ _ ih => exact ih
  | objects _ _ ih => exact ih

/-- The error of an estimate is covered by that of the label of its value. -/
def Covers (labels : Table Key String) (t : Targets ℝ) (k : Key) (e : Estimate ℝ) : Prop :=
  ∀ l, labels.get? k = some l → ∀ x, e.absError = some x → t.Covers l x

/-- The errors recorded for labelled values are covered by those of the labels. -/
def IsCovered (s : Store ℝ) : Prop := s.entries.All (Covers s.labels s.targets)

lemma Covers.mono {labels : Table Key String} {t t' : Targets ℝ} {e : Estimate ℝ}
    (h : Covers labels t k e) (ht : ∀ l x, t.Covers l x → t'.Covers l x) :
    Covers labels t' k e := fun l hl x hx => ht l x (h l hl x hx)

section Merge

variable {labels : Table Key String} {t u : Targets ℝ} {es : Table Key (Estimate ℝ)}

/-- Estimates stay covered when the errors of labels are raised to others. -/
lemma all_covers_merge_left (h : es.All (Covers labels t)) (u : Targets ℝ) :
    es.All (Covers labels (t.merge u)) :=
  h.mono fun _ _ he => he.mono fun _ _ hl => hl.merge_left u

/-- Estimates that the others cover are covered then, too. -/
lemma all_covers_merge_right (h : es.All (Covers labels u)) (t : Targets ℝ) :
    es.All (Covers labels (t.merge u)) :=
  h.mono fun _ _ he => he.mono fun _ _ hl => hl.merge_right t

end Merge

lemma covers_set (s : Store ℝ) (k : Key) (e : Estimate ℝ) :
    Covers s.labels (s.set k e).targets k e := by
  intro l hl x hx
  rw [Store.set, hx]
  dsimp only
  rw [raiseTarget]
  dsimp only
  rw [hl]
  exact Targets.covers_raise _ _ _

lemma IsCovered.set (hs : s.IsCovered) (k : Key) (e : Estimate ℝ) : (s.set k e).IsCovered := by
  have hentries : (s.set k e).entries = s.entries.insert k e := by
    rw [Store.set]
    split
    · exact entries_raiseTarget _ _ _
    · rfl
  rw [IsCovered, labels_set, hentries]
  exact (Table.All.mono hs fun _ _ h => h.mono (s.rises_set k e).covers).insert (s.covers_set k e)

/-- Setting a range keeps the error, or the lack of one. -/
lemma IsCovered.setRange (hs : s.IsCovered) (k : Key) (range : Range ℝ) :
    (s.setRange k range).IsCovered := by
  refine Table.All.insert hs ?_
  cases h : s.get? k with
  | none =>
    rintro l - x hx
    cases hx
  | some e => exact fun l hl x hx => Table.All.get? hs h l hl x hx

/-- A recorded error is at most the error of its label. -/
lemma IsCovered.noiseBound_le (hs : s.IsCovered) {l : String} (hl : s.labels.get? k = some l)
    {f : Affine ℝ} (hf : s.error? k = some f) : f.noiseBound ≤ s.targets.errorFor l := by
  obtain ⟨e, he, hf⟩ := Option.bind_eq_some_iff.1 hf
  have hcovers : Covers s.labels s.targets k e := Table.All.get? hs he
  refine (hcovers l hl _ ?_).le_errorFor
  rw [Estimate.absError, hf, Option.map_some]

/-- **Recorded errors stay covered.** -/
theorem IsCovered.edits (hs : s.IsCovered) (h : s.Edits ks s') : s'.IsCovered := by
  induction h with
  | refl => exact hs
  | set _ _ e ih => exact ih.set _ e
  | setRange _ _ range ih => exact ih.setRange _ range
  | objects _ _ ih => exact ih

end Store

end Roundoff
