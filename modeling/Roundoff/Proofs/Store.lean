/-
# Looking up what has been recorded

A look-up after a change of a table, and of the store, finds what was written under its key, and
what was there before under every other key.
-/
import Mathlib
import Roundoff.Store

namespace Roundoff

/-! ## The order of keys -/

lemma compare_then_eq {a b : UInt32} : (compare a b).then .eq = .eq ↔ a = b := by
  rw [Ordering.then_eq_eq, Std.LawfulEqOrd.compare_eq_iff_eq, and_iff_left rfl]

instance : Std.LawfulEqOrd FunctionId where
  compare_self := compare_then_eq.2 rfl
  eq_of_compare := fun {a b} h => by
    cases a
    cases b
    exact congrArg _ (compare_then_eq.1 h)

instance : Std.LawfulEqOrd BlockId where
  compare_self := compare_then_eq.2 rfl
  eq_of_compare := fun {a b} h => by
    cases a
    cases b
    exact congrArg _ (compare_then_eq.1 h)

instance : Std.LawfulEqOrd InstId where
  compare_self := compare_then_eq.2 rfl
  eq_of_compare := fun {a b} h => by
    cases a
    cases b
    exact congrArg _ (compare_then_eq.1 h)

instance : Std.LawfulEqOrd GlobalId where
  compare_self := compare_then_eq.2 rfl
  eq_of_compare := fun {a b} h => by
    cases a
    cases b
    exact congrArg _ (compare_then_eq.1 h)

lemma Key.compare_eq_iff {k l : Key} : compare k l = .eq ↔ k = l := by
  change instOrdKey.ord k l = .eq ↔ k = l
  cases k <;> cases l <;>
    simp only [instOrdKey.ord, Ordering.then_eq_eq, Std.LawfulEqOrd.compare_eq_iff_eq,
      reduceCtorEq, Key.inst.injEq, Key.arg.injEq, Key.global.injEq, Key.function.injEq, and_true]

instance : Std.LawfulEqOrd Key where
  compare_self := Key.compare_eq_iff.2 rfl
  eq_of_compare := Key.compare_eq_iff.1

/-! ## Tables -/

namespace Table

variable {K V : Type} [DecidableEq K] [Ord K] [Std.LawfulEqOrd K]

lemma find?_insertSorted (k l : K) (v : V) (ps : List (K × V)) :
    find? l (insertSorted k v ps) = if k = l then some v else find? l ps := by
  induction ps with
  | nil => rfl
  | cons p ps ih =>
    rw [insertSorted]
    split
    · rfl
    · next h =>
      obtain rfl := Std.LawfulEqOrd.eq_of_compare h
      rw [find?, find?]
      split <;> rfl
    · next h =>
      have hne : p.1 ≠ k := by
        rintro rfl
        rw [Std.ReflOrd.compare_self] at h
        cases h
      rw [find?, find?, ih]
      split
      · next hl =>
        rw [if_neg (hl ▸ hne.symm)]
      · rfl

/-- What is found after a pair has been set. -/
@[simp] lemma get?_insert (t : Table K V) (k l : K) (v : V) :
    (t.insert k v).get? l = if k = l then some v else t.get? l :=
  find?_insertSorted k l v t.pairs

omit [Ord K] [Std.LawfulEqOrd K] in
@[simp] lemma get?_empty (k : K) : (∅ : Table K V).get? k = none := rfl

omit [Ord K] [Std.LawfulEqOrd K] in
@[simp] lemma get?_map {W : Type} (f : V → W) (t : Table K V) (k : K) :
    (t.map f).get? k = (t.get? k).map f := by
  obtain ⟨ps⟩ := t
  induction ps with
  | nil => rfl
  | cons p ps ih =>
    change (if p.1 = k then some (f p.2) else (map f ⟨ps⟩).get? k)
      = (if p.1 = k then some p.2 else get? ⟨ps⟩ k).map f
    split
    · rfl
    · exact ih

omit [Ord K] [Std.LawfulEqOrd K] in
lemma get?_filterKeys (p : K → Bool) (t : Table K V) (k : K) :
    (t.filterKeys p).get? k = if p k then t.get? k else none := by
  obtain ⟨ps⟩ := t
  induction ps with
  | nil => exact (ite_self none).symm
  | cons q ps ih =>
    obtain ⟨k', v⟩ := q
    replace ih : find? k (ps.filter fun q => p q.1) = if p k then find? k ps else none := ih
    change find? k (((k', v) :: ps).filter fun q => p q.1) =
      if p k then find? k ((k', v) :: ps) else none
    rw [List.filter_cons]
    by_cases hk : k' = k
    · subst hk
      split <;> simp_all [find?]
    · split <;> simp_all [find?]

end Table

/-! ## Stores -/

namespace Store

variable {R : Type} [Number R] (s : Store R) (k l : Key)

@[simp] lemma get?_raiseTarget (bound : R) : (s.raiseTarget k bound).get? l = s.get? l := by
  rw [raiseTarget]
  split <;> rfl

lemma get?_setError (error : Affine R) :
    (s.setError k error).get? l
      = if k = l then some { (s.get? k).getD Estimate.unknown with error := some error }
        else s.get? l := by
  rw [setError, get?_raiseTarget]
  exact Table.get?_insert _ _ _ _

lemma get?_setRange (range : Range R) :
    (s.setRange k range).get? l
      = if k = l then some { (s.get? k).getD Estimate.unknown with range := range }
        else s.get? l :=
  Table.get?_insert _ _ _ _

lemma get?_set (e : Estimate R) : (s.set k e).get? l = if k = l then some e else s.get? l := by
  rw [set]
  split
  · rw [get?_raiseTarget]
    exact Table.get?_insert _ _ _ _
  · exact Table.get?_insert _ _ _ _

/-! ## Errors -/

lemma error?_setError (error : Affine R) :
    (s.setError k error).error? l = if k = l then some error else s.error? l := by
  rw [error?, get?_setError]
  split <;> rfl

@[simp] lemma error?_setRange (range : Range R) : (s.setRange k range).error? l = s.error? l := by
  rw [error?, get?_setRange]
  split
  · next h =>
    subst h
    rw [error?]
    cases s.get? k <;> rfl
  · rfl

lemma error?_set (e : Estimate R) :
    (s.set k e).error? l = if k = l then e.error else s.error? l := by
  rw [error?, get?_set]
  split <;> rfl

/-- Raising the estimate of a key changes no error of another key. -/
lemma error?_raise_of_ne (e : Estimate R) (h : k ≠ l) : (s.raise k e).2.error? l = s.error? l := by
  rw [raise]
  split
  · rfl
  · split
    · rfl
    · rw [error?_set, if_neg h]

/-- Raising an estimate takes over the error of the new one if it is larger. -/
lemma error?_raise (e : Estimate R) :
    (s.raise k e).2.error? k
      = if e.absError.any fun bound => !s.hasErrorAtLeast k bound then e.error else s.error? k := by
  rw [raise]
  cases e.absError with
  | none => rfl
  | some bound =>
    cases hle : s.hasErrorAtLeast k bound with
    | true => simp [hle]
    | false => simp [hle, error?_set]

/-- A bound of the magnitude of the error recorded for a value. -/
def absError? : Option R := (s.get? k).bind Estimate.absError

lemma absError?_eq_map : s.absError? k = (s.error? k).map Affine.noiseBound := by
  rw [absError?, error?]
  cases s.get? k <;> rfl

/-- All known errors are zero in the zeroed store. -/
@[simp] lemma error?_zeroed : s.zeroed.error? k = (s.error? k).map fun _ => Affine.zero := by
  rw [error?, error?, get?, get?, zeroed, Table.get?_map]
  cases s.entries.get? k <;> rfl

end Store

end Roundoff
