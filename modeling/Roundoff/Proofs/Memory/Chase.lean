/-
# Chasing pointers

A pointer is followed through the instructions that compute it by a loop: each turn looks at one
value, and either stops with a result or goes on with the value behind it.  Since values may be
computed in a circle, the loops of the analysis make a bounded number of turns.

Such a loop is compared here with the one that has no bound, `Chase.Ends`.  Where the values that
are passed are told by a function, the loop without a bound comes to an end exactly if the chain of
values does not run into a circle.  In that case it passes no value twice, so a bound above the
number of values that can be passed is never reached.
-/
import Mathlib
import Roundoff.Program.Function

namespace Roundoff

namespace Chase

variable {ι σ α : Type}

/-! ## Loops with and without a bound -/

section Loops

variable {turn : σ → α ⊕ σ} {s s' : σ} {a b : α} {n n' : ℕ}

/-- The result of a loop that makes at most the given number of turns, if it comes to an end. -/
def run? (turn : σ → α ⊕ σ) : ℕ → σ → Option α
  | 0, _ => none
  | n + 1, s =>
    match turn s with
    | .inl a => some a
    | .inr s' => run? turn n s'

/-- `Ends turn s a`: from the state `s`, the loop without a bound comes to an end with the result
`a`. -/
inductive Ends (turn : σ → α ⊕ σ) : σ → α → Prop
  /-- This turn stops. -/
  | stop {s : σ} {a : α} (h : turn s = .inl a) : Ends turn s a
  /-- This turn goes on. -/
  | goOn {s s' : σ} {a : α} (h : turn s = .inr s') (ha : Ends turn s' a) : Ends turn s a

lemma run?_of_inl (h : turn s = .inl a) (n : ℕ) : run? turn (n + 1) s = some a := by
  rw [run?, h]

lemma run?_of_inr (h : turn s = .inr s') (n : ℕ) : run? turn (n + 1) s = run? turn n s' := by
  rw [run?, h]

/-- More turns do not change a result. -/
lemma run?_mono (h : run? turn n s = some a) (hle : n ≤ n') : run? turn n' s = some a := by
  induction n generalizing s n' with
  | zero => cases h
  | succ n ih =>
    obtain ⟨n', rfl⟩ := Nat.exists_eq_succ_of_ne_zero (Nat.ne_zero_of_lt hle)
    cases hturn : turn s with
    | inl b => rwa [run?_of_inl hturn, ← run?_of_inl hturn n]
    | inr s' =>
      rw [run?_of_inr hturn] at h ⊢
      exact ih h (Nat.le_of_succ_le_succ hle)

/-- The loop without a bound is the one with any bound that suffices. -/
lemma ends_iff_exists_run? : Ends turn s a ↔ ∃ n, run? turn n s = some a := by
  constructor
  · intro h
    induction h with
    | stop h => exact ⟨1, run?_of_inl h 0⟩
    | goOn h _ ih =>
      obtain ⟨n, hn⟩ := ih
      exact ⟨n + 1, by rw [run?_of_inr h, hn]⟩
  · rintro ⟨n, h⟩
    induction n generalizing s with
    | zero => cases h
    | succ n ih =>
      cases hturn : turn s with
      | inl b =>
        rw [run?_of_inl hturn] at h
        exact .stop (hturn.trans (congrArg Sum.inl (Option.some.inj h)))
      | inr s' =>
        rw [run?_of_inr hturn] at h
        exact .goOn hturn (ih h)

/-- The result of the loop without a bound is unique. -/
lemma Ends.unique (h : Ends turn s a) (h' : Ends turn s b) : a = b := by
  obtain ⟨n, hn⟩ := ends_iff_exists_run?.1 h
  obtain ⟨n', hn'⟩ := ends_iff_exists_run?.1 h'
  have hmax := (run?_mono hn (le_max_left n n')).symm.trans (run?_mono hn' (le_max_right n n'))
  exact Option.some.inj hmax

end Loops

/-! ## Chains -/

section Chains

variable {next? : ι → Option ι} {v u : ι}

/-- One step along a chain. -/
def Leads (next? : ι → Option ι) (v u : ι) : Prop := next? v = some u

/-- The chain that begins at `v` runs into a circle: it comes back to a value that it has passed. -/
def IsCircular (next? : ι → Option ι) (v : ι) : Prop :=
  ∃ u, Relation.ReflTransGen (Leads next?) v u ∧ Relation.TransGen (Leads next?) u u

/-- The rest of a chain runs into the same circle. -/
lemma IsCircular.tail (h : IsCircular next? v) (hu : next? v = some u) : IsCircular next? u := by
  obtain ⟨w, hvw, hw⟩ := h
  rcases Relation.ReflTransGen.cases_head hvw with rfl | ⟨u', hu', hrest⟩
  · obtain ⟨u', hu', hback⟩ := Relation.TransGen.head'_iff.1 hw
    obtain rfl := Option.some.inj (hu.symm.trans hu')
    exact ⟨v, hback, hw⟩
  · obtain rfl := Option.some.inj (hu.symm.trans hu')
    exact ⟨w, hrest, hw⟩

lemma IsCircular.head (h : IsCircular next? u) (hu : next? v = some u) : IsCircular next? v := by
  obtain ⟨w, huw, hw⟩ := h
  exact ⟨w, huw.head hu, hw⟩

/-- A chain that runs into a circle goes on. -/
lemma IsCircular.exists_next (h : IsCircular next? v) : ∃ u, next? v = some u := by
  obtain ⟨w, hvw, hw⟩ := h
  rcases Relation.ReflTransGen.cases_head hvw with rfl | ⟨u, hu, -⟩
  · obtain ⟨u, hu, -⟩ := Relation.TransGen.head'_iff.1 hw
    exact ⟨u, hu⟩
  · exact ⟨u, hu⟩

/-- A chain that goes on in more cases runs into the same circle. -/
lemma IsCircular.mono {next?' : ι → Option ι} (h : IsCircular next? v)
    (hle : ∀ v u, next? v = some u → next?' v = some u) : IsCircular next?' v := by
  obtain ⟨w, hvw, hw⟩ := h
  exact ⟨w, Relation.ReflTransGen.mono hle v w hvw, Relation.TransGen.mono hle w w hw⟩

end Chains

/-! ## Loops along chains -/

/-- The loop follows a chain: a turn goes on exactly where the chain does, and to the next value of
it. -/
def Tracks (turn : σ → α ⊕ σ) (value : σ → ι) (next? : ι → Option ι) : Prop :=
  ∀ s, (turn s).getRight?.map value = next? (value s)

namespace Tracks

variable {turn : σ → α ⊕ σ} {value : σ → ι} {next? : ι → Option ι} {s : σ} {a : α} {n n' : ℕ}
  (ht : Tracks turn value next?)

include ht

/-- Where a turn stops, the chain ends. -/
lemma stop (h : turn s = .inl a) : next? (value s) = none := by
  rw [← ht s, h, Sum.getRight?_inl, Option.map_none]

/-- Where a turn goes on, the chain does. -/
lemma goOn {s' : σ} (h : turn s = .inr s') : next? (value s) = some (value s') := by
  rw [← ht s, h, Sum.getRight?_inr, Option.map_some]

/-- In a circle the loop never ends. -/
lemma run?_eq_none (h : IsCircular next? (value s)) (n : ℕ) : run? turn n s = none := by
  induction n generalizing s with
  | zero => rfl
  | succ n ih =>
    cases hturn : turn s with
    | inl a =>
      obtain ⟨u, hu⟩ := h.exists_next
      cases (ht.stop hturn).symm.trans hu
    | inr s' =>
      rw [run?_of_inr hturn]
      exact ih (h.tail (ht.goOn hturn))

lemma not_ends (h : IsCircular next? (value s)) : ¬ Ends turn s a := by
  rw [ends_iff_exists_run?]
  rintro ⟨n, hn⟩
  cases (ht.run?_eq_none h n).symm.trans hn

/-- A loop that has not come to an end after `n` turns has passed `n` values of its chain, and
without a circle it has passed none of them twice. -/
lemma exists_nodup (h : ¬ IsCircular next? (value s)) (hn : run? turn n s = none) :
    ∃ vs : List ι, vs.Nodup ∧ vs.length = n ∧
      ∀ v ∈ vs, (next? v).isSome ∧ Relation.ReflTransGen (Leads next?) (value s) v := by
  induction n generalizing s with
  | zero => exact ⟨[], List.nodup_nil, rfl, nofun⟩
  | succ n ih =>
    cases hturn : turn s with
    | inl a => cases (run?_of_inl hturn n).symm.trans hn
    | inr s' =>
      have hnext := ht.goOn hturn
      rw [run?_of_inr hturn] at hn
      obtain ⟨vs, hnodup, hlength, hvs⟩ := ih (fun h' => h (h'.head hnext)) hn
      refine ⟨value s :: vs, List.nodup_cons.2 ⟨fun hmem => h ?_, hnodup⟩,
        by rw [List.length_cons, hlength], fun v hv => ?_⟩
      · exact ⟨value s, .refl, Relation.TransGen.head' hnext (hvs _ hmem).2⟩
      · rcases List.mem_cons.1 hv with rfl | hv
        · exact ⟨by rw [hnext, Option.isSome_some], .refl⟩
        · exact ⟨(hvs v hv).1, (hvs v hv).2.head hnext⟩

variable {values : Finset ι} (hvalues : ∀ v u, next? v = some u → v ∈ values)

include hvalues

/-- Without a circle, one turn for each value that can be passed and one more are enough. -/
lemma exists_run? (h : ¬ IsCircular next? (value s)) (hn : values.card < n) :
    ∃ a, run? turn n s = some a := by
  classical
  rw [← Option.isSome_iff_exists, Option.isSome_iff_ne_none]
  intro hnone
  obtain ⟨vs, hnodup, hlength, hvs⟩ := ht.exists_nodup h hnone
  have hsub : vs.toFinset ⊆ values := fun v hv => by
    obtain ⟨u, hu⟩ := Option.isSome_iff_exists.1 (hvs v (List.mem_toFinset.1 hv)).1
    exact hvalues v u hu
  have hle := Finset.card_le_card hsub
  rw [List.toFinset_card_of_nodup hnodup, hlength] at hle
  exact absurd hle (not_le.2 hn)

/-- **A chase comes to an end exactly if its chain does not run into a circle.** -/
theorem exists_ends_iff : (∃ a, Ends turn s a) ↔ ¬ IsCircular next? (value s) := by
  constructor
  · rintro ⟨a, ha⟩ h
    exact ht.not_ends h ha
  · intro h
    obtain ⟨a, ha⟩ := ht.exists_run? hvalues h (Nat.lt_succ_self _)
    exact ⟨a, ends_iff_exists_run?.2 ⟨_, ha⟩⟩

/-- **The bound of a chase is no restriction** if it is above the number of values that can be
passed. -/
theorem run?_eq_some_iff (hn : values.card < n) : run? turn n s = some a ↔ Ends turn s a := by
  refine ⟨fun h => ends_iff_exists_run?.2 ⟨n, h⟩, fun h => ?_⟩
  obtain ⟨b, hb⟩ := ht.exists_run? hvalues ((ht.exists_ends_iff hvalues).1 ⟨a, h⟩) hn
  rw [hb, h.unique (ends_iff_exists_run?.2 ⟨n, hb⟩)]

/-- Bounds above the number of values that can be passed all lead to the same result. -/
lemma run?_eq_run? (hn : values.card < n) (hn' : values.card < n') :
    run? turn n s = run? turn n' s :=
  Option.ext fun _ => (ht.run?_eq_some_iff hvalues hn).trans (ht.run?_eq_some_iff hvalues hn').symm

end Tracks

end Chase

/-! ## Chains of definitions -/

namespace Function

variable {R : Type} {f : Function R} {v u : Value R}

/-- The value behind another one: what its instruction passes on. -/
def behind? (f : Function R) (passes : Instruction R → Option (Value R)) (v : Value R) :
    Option (Value R) :=
  (f.definition? v).bind passes

@[simp] lemma behind?_inst (passes : Instruction R → Option (Value R)) (id : InstId) :
    f.behind? passes (.inst id) = (f.inst? id).bind passes := rfl

open Classical in
/-- The results of the instructions of a function. -/
noncomputable def results (f : Function R) : Finset (Value R) :=
  (Finset.range f.insts.size).image fun k => .inst ⟨UInt32.ofNat k⟩

/-- There are no more results than instructions. -/
lemma card_results_le (f : Function R) : f.results.card ≤ f.insts.size := by
  classical
  exact Finset.card_image_le.trans_eq (Finset.card_range _)

lemma mem_results (h : (f.definition? v).isSome) : v ∈ f.results := by
  classical
  obtain ⟨i, hi⟩ := Option.isSome_iff_exists.1 h
  obtain ⟨id, hid, hinst⟩ := Option.bind_eq_some_iff.1 hi
  have hlt : id.val.toNat < f.insts.size := (Array.getElem?_eq_some_iff.1 hinst).1
  refine Finset.mem_image.2 ⟨id.val.toNat, Finset.mem_range.2 hlt, ?_⟩
  rw [UInt32.ofNat_toNat]
  cases v with
  | inst id' => rw [Option.some.inj hid]
  | _ => cases hid

/-- Only results of instructions have something behind them. -/
lemma mem_results_of_behind? {passes : Instruction R → Option (Value R)}
    (h : f.behind? passes v = some u) : v ∈ f.results := by
  obtain ⟨i, hi, -⟩ := Option.bind_eq_some_iff.1 h
  exact mem_results (Option.isSome_of_eq_some hi)

end Function

end Roundoff
