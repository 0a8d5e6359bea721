/-
# Collecting the worst errors

Several collections of worst errors are raised, and merged into one another, in any order.  Whatever
the order is, the error that a collection holds for a label is the largest one that has reached it,
whether the collection was raised to it or took it over from another one.

An error may be undefined.  It counts as long as there is no other one, and is forgotten then, so
that the collections form a semilattice under merging all the same: what they hold depends on the
set of errors that have reached them only.  Equality is that of doubles here, for which the two
zeros are equal; which of the two zeros is held depends on the order.
-/
import Mathlib
import Roundoff.Proofs.Number.DoubleOrder
import Roundoff.Proofs.Store.Targets

namespace Roundoff

namespace Targets

variable {t t' u u' v : Targets Float} {k l : String} {x y : Float} {r r' : List (String × Float)}

/-! ## Collections and ranks -/

/-- The rank of the error of a label. -/
def rank? (t : Targets Float) (l : String) : Option Rank := (t.errors.get? l).map Double.rank

/-- The same labels with the same errors. -/
structure Agree (t u : Targets Float) : Prop where
  label : ∀ l, t.errors.get? l = none ↔ u.errors.get? l = none
  error : ∀ {l x y}, t.errors.get? l = some x → u.errors.get? l = some y → Double.Agree x y

lemma agree_iff : t.Agree u ↔ ∀ l, t.rank? l = u.rank? l := by
  constructor
  · intro h l
    rw [rank?, rank?]
    cases ht : t.errors.get? l with
    | none => rw [(h.label l).1 ht]
    | some x =>
      cases hu : u.errors.get? l with
      | none =>
        rw [(h.label l).2 hu] at ht
        cases ht
      | some y => exact congrArg some (Double.agree_iff.1 (h.error ht hu))
  · intro h
    refine ⟨fun l => ?_, fun {l x y} hx hy => Double.agree_iff.2 ?_⟩
    · rw [← Option.map_eq_none_iff (f := Double.rank), ← Option.map_eq_none_iff (f := Double.rank)]
      exact iff_of_eq (congrArg (· = none) (h l))
    · have heq := h l
      rw [rank?, rank?, hx, hy] at heq
      exact Option.some.inj heq

/-- Merging takes the larger rank. -/
lemma rank?_merge (hu : u.errors.IsSorted) (t : Targets Float) (l : String) :
    (t.merge u).rank? l = (t.rank? l).merge max (u.rank? l) := by
  rw [rank?, get?_merge_eq hu, rank?, rank?]
  cases t.errors.get? l with
  | none => simp
  | some x =>
    cases u.errors.get? l with
    | none => simp
    | some y => exact congrArg some (Double.rank_max x y)

/-! ## The worst of some errors -/

/-- A collection holds the worst ones of some errors with labels. -/
structure IsWorst (t : Targets Float) (r : List (String × Float)) : Prop where
  /-- There is an error for the labels of these errors, and for no others. -/
  label : ∀ l, t.errors.get? l = none ↔ ∀ x, (l, x) ∉ r
  /-- The error of a label is one of them. -/
  mem : ∀ {l y}, t.errors.get? l = some y → (l, y) ∈ r
  /-- It is at least as large as every one of them that is a number. -/
  le : ∀ {l x y}, t.errors.get? l = some y → (l, x) ∈ r → Number.isNaN x = false → x ≤ y
  /-- It is a number if one of them is. -/
  isNaN : ∀ {l y}, t.errors.get? l = some y → Number.isNaN y = true →
    ∀ x, (l, x) ∈ r → Number.isNaN x = true

namespace IsWorst

lemma rank_le (h : t.IsWorst r) (hy : t.errors.get? l = some y) (hx : (l, x) ∈ r) :
    Double.rank x ≤ Double.rank y := by
  cases hnan : Number.isNaN x with
  | true =>
    rw [Double.isNaN_iff.1 hnan]
    exact bot_le
  | false => exact (Double.le_iff.1 (h.le hy hx hnan)).2

lemma of_rank (hlabel : ∀ l, t.errors.get? l = none ↔ ∀ x, (l, x) ∉ r)
    (hmem : ∀ {l y}, t.errors.get? l = some y → (l, y) ∈ r)
    (hle : ∀ {l x y}, t.errors.get? l = some y → (l, x) ∈ r → Double.rank x ≤ Double.rank y) :
    t.IsWorst r where
  label := hlabel
  mem := hmem
  le hy hx hnan := by
    refine Double.le_iff.2 ⟨fun hbot => ?_, hle hy hx⟩
    rw [Double.isNaN_iff.2 hbot] at hnan
    cases hnan
  isNaN hy hnan x hx := by
    rw [Double.isNaN_iff] at hnan ⊢
    exact le_bot_iff.1 (hnan ▸ hle hy hx)

lemma empty : Targets.empty.IsWorst [] :=
  of_rank (fun l => ⟨fun _ _ => List.not_mem_nil, fun _ => rfl⟩) (fun h => by cases h)
    fun h => by cases h

/-- The worst of two lots of errors is the larger one of the worst of each. -/
lemma join (h : t.IsWorst r) (h' : u.IsWorst r')
    (hget : ∀ l, v.errors.get? l = (t.errors.get? l).merge Number.max (u.errors.get? l)) :
    v.IsWorst (r ++ r') := by
  have hcases {l y} (hy : v.errors.get? l = some y) :=
    Double.of_merge_max ((hget l).symm.trans hy)
  refine of_rank (fun l => ?_) (fun hy => ?_) (fun {l x y} hy hx => ?_)
  · have hnone : v.errors.get? l = none ↔ t.errors.get? l = none ∧ u.errors.get? l = none := by
      rw [hget]
      cases t.errors.get? l <;> cases u.errors.get? l <;> simp
    rw [hnone, h.label, h'.label, ← forall_and]
    simp only [List.mem_append, not_or]
  · rcases (hcases hy).1 with ht | hu
    · exact List.mem_append_left _ (h.mem ht)
    · exact List.mem_append_right _ (h'.mem hu)
  · rcases List.mem_append.1 hx with hx | hx
    · obtain ⟨z, hz⟩ := Option.ne_none_iff_exists'.1 fun hnone => (h.label l).1 hnone x hx
      exact (h.rank_le hz hx).trans ((hcases hy).2.1 z hz)
    · obtain ⟨z, hz⟩ := Option.ne_none_iff_exists'.1 fun hnone => (h'.label l).1 hnone x hx
      exact (h'.rank_le hz hx).trans ((hcases hy).2.2 z hz)

lemma raise (h : t.IsWorst r) (l : String) (x : Float) : (t.raise l x).IsWorst (r ++ [(l, x)]) := by
  -- one error by itself is the worst of those there are
  have hget (k : String) :
      ((Targets.empty : Targets Float).raise l x).errors.get? k
        = if l = k then some x else none := by
    rw [get?_raise_eq]
    rfl
  have hone : (Targets.empty.raise l x).IsWorst [(l, x)] := by
    refine of_rank (fun k => ?_) (fun {k y} hy => ?_) (fun {k z y} hy hz => ?_)
    · rw [hget]
      split
      · next hk => simp [hk]
      · next hk => simp [Ne.symm hk]
    · rw [hget] at hy
      split at hy
      · next hk =>
        cases hy
        rw [hk]
        exact List.mem_singleton_self _
      · cases hy
    · obtain ⟨rfl, rfl⟩ := Prod.mk.inj (List.mem_singleton.1 hz)
      rw [hget, if_pos rfl] at hy
      cases hy
      exact le_rfl
  refine h.join hone fun k => ?_
  rw [get?_raise_eq, hget]
  split
  · cases t.errors.get? k <;> rfl
  · exact (Option.merge_none_right ..).symm

lemma merge (h : t.IsWorst r) (h' : u.IsWorst r') (hu : u.errors.IsSorted) :
    (t.merge u).IsWorst (r ++ r') := h.join h' (get?_merge_eq hu t)

/-- The worst of the same errors is the same. -/
lemma agree (h : t.IsWorst r) (h' : u.IsWorst r') (hr : ∀ e, e ∈ r ↔ e ∈ r') : t.Agree u where
  label l := by
    rw [h.label, h'.label]
    exact forall_congr' fun x => not_congr (hr (l, x))
  error hx hy := Double.agree_iff.2 <| le_antisymm (h'.rank_le hy ((hr _).1 (h.mem hx)))
    (h.rank_le hx ((hr _).2 (h'.mem hy)))

end IsWorst

/-! ## Steps of several collections -/

/-- A step of several collections: one is raised, or one is merged into another. -/
inductive Exchange (ι : Type) where
  | update (i : ι) (label : String) (error : Float)
  | merge (i j : ι)

section Exchanges

variable {ι : Type} [DecidableEq ι]

/-- What a step makes of the collections. -/
def exchange (ts : ι → Targets Float) : Exchange ι → ι → Targets Float
  | .update i label error => Function.update ts i ((ts i).raise label error)
  | .merge i j => Function.update ts i ((ts i).merge (ts j))

/-- The collections after some steps.  At first they are empty. -/
def exchanged (steps : List (Exchange ι)) : ι → Targets Float :=
  steps.foldl exchange fun _ => .empty

/-- The errors that have reached a collection after a step: the one that it is raised to, and those
that have reached a collection that is merged into it. -/
def reach (rs : ι → List (String × Float)) : Exchange ι → ι → List (String × Float)
  | .update i label error => Function.update rs i (rs i ++ [(label, error)])
  | .merge i j => Function.update rs i (rs i ++ rs j)

/-- The errors that have reached a collection after some steps. -/
def reached (steps : List (Exchange ι)) : ι → List (String × Float) := steps.foldl reach fun _ => []

/-- A step keeps every collection the worst of what has reached it. -/
lemma isWorst_exchange {ts : ι → Targets Float} {rs : ι → List (String × Float)}
    (h : ∀ i, (ts i).errors.IsSorted ∧ (ts i).IsWorst (rs i)) (step : Exchange ι) (k : ι) :
    (exchange ts step k).errors.IsSorted ∧ (exchange ts step k).IsWorst (reach rs step k) := by
  cases step with
  | update i label error =>
    rw [exchange, reach]
    by_cases hk : k = i
    · subst hk
      rw [Function.update_self, Function.update_self]
      exact ⟨isSorted_raise (h k).1 label error, (h k).2.raise label error⟩
    · rw [Function.update_of_ne hk, Function.update_of_ne hk]
      exact h k
  | merge i j =>
    rw [exchange, reach]
    by_cases hk : k = i
    · subst hk
      rw [Function.update_self, Function.update_self]
      exact ⟨isSorted_merge (h k).1 _, (h k).2.merge (h j).2 (h j).1⟩
    · rw [Function.update_of_ne hk, Function.update_of_ne hk]
      exact h k

lemma isWorst_exchanged (steps : List (Exchange ι)) (i : ι) :
    (exchanged steps i).errors.IsSorted ∧ (exchanged steps i).IsWorst (reached steps i) := by
  induction steps using List.reverseRecOn generalizing i with
  | nil => exact ⟨Table.isSorted_empty, .empty⟩
  | append_singleton steps step ih =>
    rw [exchanged, reached, List.foldl_append, List.foldl_append]
    exact isWorst_exchange ih step i

/-- Nothing that has reached a collection is lost. -/
lemma reached_subset (steps : List (Exchange ι)) (step : Exchange ι) (i : ι) :
    reached steps i ⊆ reached (steps ++ [step]) i := by
  have hstep : reached (steps ++ [step]) = reach (reached steps) step := by
    rw [reached, List.foldl_append]
    rfl
  rw [hstep]
  cases step with
  | update j label error | merge j k =>
    rw [reach]
    by_cases hi : i = j
    · subst hi
      rw [Function.update_self]
      exact List.subset_append_left _ _
    · rw [Function.update_of_ne hi]
      exact List.Subset.refl _

end Exchanges

/-- Collections of worst errors form a semilattice. -/
structure CollectsWorst (ι : Type) [DecidableEq ι] : Prop where
  /-- A collection holds the worst ones of the errors that have reached it. -/
  worst : ∀ (steps : List (Exchange ι)) i, (exchanged steps i).IsWorst (reached steps i)
  /-- It depends on nothing else. -/
  agree : ∀ (steps steps' : List (Exchange ι)) i i',
    (∀ e, e ∈ reached steps i ↔ e ∈ reached steps' i') →
      (exchanged steps i).Agree (exchanged steps' i')
  /-- Labels never disappear. -/
  kept : ∀ (steps : List (Exchange ι)) step i l, (exchanged steps i).errors.get? l ≠ none →
    (exchanged (steps ++ [step]) i).errors.get? l ≠ none
  merge_comm : ∀ t u : Targets Float, t.errors.IsSorted → u.errors.IsSorted →
    (t.merge u).Agree (u.merge t)
  merge_assoc : ∀ t u v : Targets Float, u.errors.IsSorted → v.errors.IsSorted →
    ((t.merge u).merge v).Agree (t.merge (u.merge v))
  merge_self : ∀ t : Targets Float, t.errors.IsSorted → (t.merge t).Agree t

/-- **The worst errors are collected**, by any number of collections and in any order of the steps. -/
theorem collectsWorst (ι : Type) [DecidableEq ι] : CollectsWorst ι where
  worst steps i := (isWorst_exchanged steps i).2
  agree steps steps' i i' h := (isWorst_exchanged steps i).2.agree (isWorst_exchanged steps' i').2 h
  kept steps step i l h hnone := by
    refine h (((isWorst_exchanged steps i).2.label l).2 fun x hx => ?_)
    exact ((isWorst_exchanged (steps ++ [step]) i).2.label l).1 hnone x
      (reached_subset steps step i hx)
  merge_comm t u ht hu := agree_iff.2 fun l => by
    rw [rank?_merge hu, rank?_merge ht]
    exact Std.Commutative.comm _ _
  merge_assoc t u v hu hv := agree_iff.2 fun l => by
    rw [rank?_merge hv, rank?_merge hu, rank?_merge (isSorted_merge hu v), rank?_merge hv]
    exact Std.Associative.assoc _ _ _
  merge_self t ht := agree_iff.2 fun l => by
    rw [rank?_merge ht]
    exact Std.IdempotentOp.idempotent _

/-- An undefined error is forgotten as soon as there is another one. -/
example : ((exchanged
    [.update 0 "y" (0.0 / 0.0), .merge 1 0, .update 0 "y" 0.25, .merge 1 0] 1).errorFor
    "y" == 0.25) = true := by decide +kernel

end Targets

end Roundoff
