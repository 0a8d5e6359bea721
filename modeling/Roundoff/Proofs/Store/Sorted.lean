/-
# Sorted tables

A table lists its pairs in strictly ascending key order, and every change of a table keeps this
order.  So there is one pair for a key at most, and taking over the pairs of a table means to prefer
what that table says.  What holds of all pairs goes on to hold if it holds of the pairs that are
set.
-/
import Mathlib
import Roundoff.Proofs.Store

namespace Roundoff

/-! ## The order of keys -/

/-- The kind of a key, and the positions that it consists of. -/
def Key.rank : Key → ℕ × UInt32 × UInt32
  | inst f i => (0, f.val, i.val)
  | arg f index => (1, f.val, index)
  | global g => (2, g.val, 0)
  | function f => (3, f.val, 0)

/-- Keys are compared by their kinds first, and then by their positions. -/
lemma Key.compare_eq (k l : Key) : compare k l
    = compareLex (compareOn fun k : Key => k.rank.1)
        (compareLex (compareOn fun k : Key => k.rank.2.1) (compareOn fun k : Key => k.rank.2.2))
        k l := by
  have hthen (o : Ordering) : o.then .eq = o := by cases o <;> rfl
  have hfunction (a b : FunctionId) : compare a b = compare a.val b.val := hthen _
  have hinst (a b : InstId) : compare a b = compare a.val b.val := hthen _
  have hglobal (a b : GlobalId) : compare a b = compare a.val b.val := hthen _
  change instOrdKey.ord k l = _
  cases k <;> cases l <;> first
    | rfl
    | simp [instOrdKey.ord, compareLex, compareOn, rank, hthen, hfunction, hinst, hglobal]

instance : Std.TransOrd Key := by
  have hcompare : (compare : Key → Key → Ordering)
      = compareLex (compareOn fun k : Key => k.rank.1)
        (compareLex (compareOn fun k : Key => k.rank.2.1) (compareOn fun k : Key => k.rank.2.2)) :=
    funext fun k => funext fun l => Key.compare_eq k l
  rw [Std.TransOrd, hcompare]
  infer_instance

instance : Std.TransOrd InstId := by
  have hcompare : (compare : InstId → InstId → Ordering) = compareOn InstId.val :=
    funext fun a => funext fun b => show (compare a.val b.val).then .eq = _ by
      rw [compareOn]
      cases compare a.val b.val <;> rfl
  rw [Std.TransOrd, hcompare]
  infer_instance

/-! ## Tables -/

namespace Table

variable {K V : Type} [Ord K]

/-- The pairs are listed in strictly ascending key order. -/
def IsSorted (t : Table K V) : Prop := t.pairs.Pairwise fun p q => compare p.1 q.1 = .lt

lemma isSorted_empty : (∅ : Table K V).IsSorted := List.Pairwise.nil

lemma IsSorted.filterKeys {t : Table K V} (h : t.IsSorted) (p : K → Bool) :
    (t.filterKeys p).IsSorted := List.Pairwise.filter _ h

lemma mem_insertSorted {k : K} {v : V} {ps : List (K × V)} {q : K × V}
    (h : q ∈ insertSorted k v ps) : q = (k, v) ∨ q ∈ ps := by
  induction ps with
  | nil => exact .inl (List.mem_singleton.1 h)
  | cons p ps ih =>
    rw [insertSorted] at h
    split at h
    · exact List.mem_cons.1 h
    · exact (List.mem_cons.1 h).imp id (List.mem_cons_of_mem _)
    · rcases List.mem_cons.1 h with rfl | h
      · exact .inr List.mem_cons_self
      · exact (ih h).imp id (List.mem_cons_of_mem _)

omit [Ord K] in
lemma find?_eq_none [DecidableEq K] {k : K} {ps : List (K × V)} (h : ∀ q ∈ ps, q.1 ≠ k) :
    find? k ps = none := by
  induction ps with
  | nil => rfl
  | cons q ps ih =>
    rw [find?, if_neg (h q List.mem_cons_self)]
    exact ih fun q' hq' => h q' (List.mem_cons_of_mem _ hq')

omit [Ord K] in
lemma find?_ne_none [DecidableEq K] {ps : List (K × V)} {q : K × V} (h : q ∈ ps) :
    find? q.1 ps ≠ none := by
  induction ps with
  | nil => cases h
  | cons p ps ih =>
    rw [find?]
    split
    · exact Option.some_ne_none _
    · next hne =>
      rcases List.mem_cons.1 h with rfl | h
      · exact absurd rfl hne
      · exact ih h

/-! ## What holds of all pairs -/

section All

variable {W : Type} {P Q : K → V → Prop} {t other : Table K V}

/-- All pairs of a table are as wanted. -/
def All (P : K → V → Prop) (t : Table K V) : Prop := ∀ q ∈ t.pairs, P q.1 q.2

omit [Ord K] in
lemma all_empty : (∅ : Table K V).All P := nofun

omit [Ord K] in
lemma All.mono (h : t.All P) (hPQ : ∀ k v, P k v → Q k v) : t.All Q := fun q hq => hPQ _ _ (h q hq)

omit [Ord K] in
lemma mem_of_find? [DecidableEq K] {k : K} {v : V} {ps : List (K × V)} (h : find? k ps = some v) :
    (k, v) ∈ ps := by
  induction ps with
  | nil => cases h
  | cons p ps ih =>
    obtain ⟨k', v'⟩ := p
    rw [find?] at h
    split at h
    · next hk =>
      cases h
      exact hk ▸ List.mem_cons_self
    · exact List.mem_cons_of_mem _ (ih h)

omit [Ord K] in
lemma All.get? [DecidableEq K] (h : t.All P) {k : K} {v : V} (hk : t.get? k = some v) : P k v :=
  h (k, v) (mem_of_find? hk)

omit [Ord K] in
lemma All.filterKeys (h : t.All P) (p : K → Bool) : (t.filterKeys p).All P :=
  fun q hq => h q (List.mem_filter.1 hq).1

omit [Ord K] in
lemma All.map {Q : K → W → Prop} (h : t.All P) {f : V → W} (hf : ∀ k v, P k v → Q k (f v)) :
    (t.map f).All Q := by
  intro q hq
  obtain ⟨p, hp, rfl⟩ := List.mem_map.1 hq
  exact hf _ _ (h p hp)

lemma All.insert (h : t.All P) {k : K} {v : V} (hv : P k v) : (t.insert k v).All P := by
  intro q hq
  rcases mem_insertSorted hq with rfl | hq
  · exact hv
  · exact h q hq

lemma All.update (h : t.All P) (h' : other.All P) : (t.update other).All P := by
  obtain ⟨ps⟩ := other
  rw [Table.update]
  induction ps generalizing t with
  | nil => exact h
  | cons q ps ih =>
    exact ih (h.insert (h' q List.mem_cons_self)) fun q' hq' => h' q' (List.mem_cons_of_mem _ hq')

end All

/-! ## Taking over pairs -/

variable [Std.LawfulEqOrd K]

/-- If every pair that is taken over changes only what is found for its key, then the pairs of a
table change what is found for a key once at most. -/
lemma IsSorted.foldl_eq [DecidableEq K] {A B : Type} {u : Table K V} (h : u.IsSorted)
    {step : A → K × V → A} (look : A → B) (g : B → V → B) {k : K}
    (hstep : ∀ a q, look (step a q) = if q.1 = k then g (look a) q.2 else look a) (a : A) :
    look (u.pairs.foldl step a) = (u.get? k).elim (look a) (g (look a)) := by
  obtain ⟨ps⟩ := u
  change _ = (find? k ps).elim _ _
  induction ps generalizing a with
  | nil => rfl
  | cons q ps ih =>
    obtain ⟨k', v⟩ := q
    obtain ⟨hq, hps⟩ := List.pairwise_cons.1 h
    rw [List.foldl_cons, ih _ hps, hstep, find?]
    by_cases hk : k' = k
    · -- the later pairs have larger keys
      have hnone : find? k ps = none := by
        refine find?_eq_none fun q' hq' heq => ?_
        have hlt := hq q' hq'
        rw [heq, hk, Std.ReflOrd.compare_self] at hlt
        cases hlt
      rw [hnone, if_pos hk, if_pos hk]
      rfl
    · rw [if_neg hk, if_neg hk]

/-- **Taking over the pairs of a table** means to prefer what the table says. -/
theorem get?_update [DecidableEq K] {other : Table K V} (h : other.IsSorted) (t : Table K V)
    (k : K) :
    (t.update other).get? k = (other.get? k).or (t.get? k) := by
  rw [update, h.foldl_eq (fun t : Table K V => t.get? k) (fun _ v => some v)
    fun t q => get?_insert t q.1 k q.2]
  cases other.get? k <;> rfl

/-- Nothing changes for a key that the table does not have, in whatever order its pairs are. -/
lemma get?_update_of_notMem [DecidableEq K] {t other : Table K V} {k : K}
    (h : ∀ q ∈ other.pairs, q.1 ≠ k) : (t.update other).get? k = t.get? k := by
  obtain ⟨ps⟩ := other
  rw [update]
  induction ps generalizing t with
  | nil => rfl
  | cons q ps ih =>
    rw [List.foldl_cons, ih fun q' hq' => h q' (List.mem_cons_of_mem _ hq'), get?_insert,
      if_neg (h q List.mem_cons_self)]

/-- A table is given by its pairs, if these agree about the value at a key. -/
lemma get?_ofList [DecidableEq K] {xs : List (K × V)} {k : K} {o : Option V}
    (h : ∀ v, (k, v) ∈ xs ↔ o = some v) : (ofList xs).get? k = o := by
  have hall : (ofList xs).All fun k v => (k, v) ∈ xs :=
    List.foldlRecOn (motive := fun t : Table K V => t.All fun k v => (k, v) ∈ xs) xs _ all_empty
      fun t ht q hq => ht.insert hq
  -- a key with a value is set, and is not lost later
  have hset (ys : List (K × V)) (t : Table K V) (hk : t.get? k ≠ none ∨ ∃ v, (k, v) ∈ ys) :
      (ys.foldl (fun t q => t.insert q.1 q.2) t).get? k ≠ none := by
    induction ys generalizing t with
    | nil => exact hk.resolve_right (by simp)
    | cons q ys ih =>
      refine ih _ ?_
      by_cases hq : q.1 = k
      · exact .inl (by simp [hq])
      · rcases hk with ht | ⟨v, hv⟩
        · exact .inl (by rwa [get?_insert, if_neg hq])
        · refine .inr ⟨v, (List.mem_cons.1 hv).resolve_left fun heq => ?_⟩
          exact hq (congrArg Prod.fst heq).symm
  cases hget : (ofList xs).get? k with
  | some v => exact ((h v).1 (hall.get? hget)).symm
  | none =>
    cases o with
    | none => rfl
    | some v => exact absurd hget (hset xs ∅ (.inr ⟨v, (h v).2 rfl⟩))

variable [Std.TransOrd K]

lemma IsSorted.insert {t : Table K V} (h : t.IsSorted) (k : K) (v : V) :
    (t.insert k v).IsSorted := by
  obtain ⟨ps⟩ := t
  change (insertSorted k v ps).Pairwise _
  induction ps with
  | nil => exact List.pairwise_singleton _ _
  | cons p ps ih =>
    obtain ⟨hp, hps⟩ := List.pairwise_cons.1 h
    rw [insertSorted]
    split
    · next hlt =>
      refine List.pairwise_cons.2 ⟨fun q hq => ?_, h⟩
      rcases List.mem_cons.1 hq with rfl | hq
      · exact hlt
      · exact Std.TransCmp.lt_trans hlt (hp q hq)
    · next heq =>
      obtain rfl := Std.LawfulEqOrd.eq_of_compare heq
      exact List.pairwise_cons.2 ⟨hp, hps⟩
    · next hgt =>
      refine List.pairwise_cons.2 ⟨fun q hq => ?_, ih hps⟩
      rcases mem_insertSorted hq with rfl | hq
      · exact Std.OrientedCmp.gt_iff_lt.1 hgt
      · exact hp q hq

lemma IsSorted.update {t : Table K V} (h : t.IsSorted) (other : Table K V) :
    (t.update other).IsSorted := by
  obtain ⟨ps⟩ := other
  rw [Table.update]
  induction ps generalizing t with
  | nil => exact h
  | cons q ps ih => exact ih (h.insert q.1 q.2)

end Table

end Roundoff
