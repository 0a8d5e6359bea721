/-
# What a depth-first search finds

A search enters every node at most once and leaves it after its successors, so the nodes that it has
left can be listed with the latest one first.  In this list every node other than the root comes
behind a node that it follows, and with a node all its successors have been seen.  Both facts hold
for the part of a search below any list of roots, and they are put together along the recursion of
the search.

The search has a depth to which it may go.  It suffices if it is at least the number of nodes that
have not been seen, since the search goes deeper only where it enters a new node.
-/
import Mathlib
import Roundoff.Flow.Graph

namespace Roundoff

namespace Search

variable {N : Type} {next : N → List N} {n root x : N}
  {s s₁ s₂ : Search N} {roots roots₁ found found₁ : List N}

/-- Searching from the given roots finds the nodes `found`, the one left last in front, and turns
the search `s` into `s₁`. -/
structure Finds (next : N → List N) (s : Search N) (roots found : List N) (s₁ : Search N) :
    Prop where
  /-- The nodes found have been left. -/
  finished_eq : s₁.finished = found ++ s.finished
  /-- The nodes found have been seen, and no others. -/
  mem_seen : ∀ x, x ∈ s₁.seen ↔ x ∈ found ∨ x ∈ s.seen
  /-- Every node is found once. -/
  nodup : found.Nodup
  /-- The nodes found had not been seen before. -/
  not_seen : ∀ x ∈ found, x ∉ s.seen
  /-- The roots have been seen. -/
  roots_seen : ∀ r ∈ roots, r ∈ s₁.seen
  /-- With a node its successors have been seen. -/
  closed : ∀ x ∈ found, ∀ y ∈ next x, y ∈ s₁.seen
  /-- A node found is a root, or it follows a node that was left after it. -/
  parent : ∀ x ∈ found, x ∈ roots ∨ ∃ w, x ∈ next w ∧ [w, x].Sublist found
  /-- The nodes found can be reached from the roots. -/
  reached : ∀ x ∈ found, ∃ r ∈ roots, Relation.ReflTransGen (fun a b => b ∈ next a) r x

namespace Finds

/-- A root that has been seen is passed over. -/
lemma of_seen (hn : n ∈ s.seen) : Finds next s [n] [] s where
  finished_eq := rfl
  mem_seen x := by simp
  nodup := List.nodup_nil
  not_seen := by simp
  roots_seen := by simpa using hn
  closed := by simp
  parent := by simp
  reached := by simp

lemma nil : Finds next s [] [] s where
  finished_eq := rfl
  mem_seen x := by simp
  nodup := List.nodup_nil
  not_seen := by simp
  roots_seen := by simp
  closed := by simp
  parent := by simp
  reached := by simp

lemma seen_subset (h : Finds next s roots found s₁) (hx : x ∈ s.seen) : x ∈ s₁.seen :=
  (h.mem_seen x).2 (Or.inr hx)

/-- A search from further roots goes on where the search from the first ones has ended. -/
lemma append (h : Finds next s roots found s₁) (h₁ : Finds next s₁ roots₁ found₁ s₂) :
    Finds next s (roots ++ roots₁) (found₁ ++ found) s₂ where
  finished_eq := by rw [h₁.finished_eq, h.finished_eq, List.append_assoc]
  mem_seen x := by rw [h₁.mem_seen, h.mem_seen, List.mem_append, or_assoc]
  nodup := by
    refine h₁.nodup.append h.nodup fun x hx₁ hx => ?_
    exact h₁.not_seen x hx₁ ((h.mem_seen x).2 (Or.inl hx))
  not_seen x hx := by
    rcases List.mem_append.1 hx with hx | hx
    · exact fun hs => h₁.not_seen x hx (h.seen_subset hs)
    · exact h.not_seen x hx
  roots_seen r hr := by
    rcases List.mem_append.1 hr with hr | hr
    · exact h₁.seen_subset (h.roots_seen r hr)
    · exact h₁.roots_seen r hr
  closed x hx y hy := by
    rcases List.mem_append.1 hx with hx | hx
    · exact h₁.closed x hx y hy
    · exact h₁.seen_subset (h.closed x hx y hy)
  parent x hx := by
    rcases List.mem_append.1 hx with hx | hx
    · rcases h₁.parent x hx with hroot | ⟨w, hw, hbefore⟩
      · exact Or.inl (List.mem_append_right _ hroot)
      · exact Or.inr ⟨w, hw, hbefore.trans (List.sublist_append_left _ _)⟩
    · rcases h.parent x hx with hroot | ⟨w, hw, hbefore⟩
      · exact Or.inl (List.mem_append_left _ hroot)
      · exact Or.inr ⟨w, hw, hbefore.trans (List.sublist_append_right _ _)⟩
  reached x hx := by
    rcases List.mem_append.1 hx with hx | hx
    · obtain ⟨r, hr, hpath⟩ := h₁.reached x hx
      exact ⟨r, List.mem_append_right _ hr, hpath⟩
    · obtain ⟨r, hr, hpath⟩ := h.reached x hx
      exact ⟨r, List.mem_append_left _ hr, hpath⟩

/-- A node is entered before the search from its successors, and left after it. -/
lemma enter (hn : n ∉ s.seen) (h : Finds next { s with seen := n :: s.seen } (next n) found s₁) :
    Finds next s [n] (n :: found) { s₁ with finished := n :: s₁.finished } where
  finished_eq := by rw [h.finished_eq, List.cons_append]
  mem_seen x := by
    rw [h.mem_seen, List.mem_cons, List.mem_cons]
    tauto
  nodup := List.nodup_cons.2 ⟨fun hmem => h.not_seen n hmem List.mem_cons_self, h.nodup⟩
  not_seen x hx := by
    rcases List.mem_cons.1 hx with rfl | hx
    · exact hn
    · exact fun hs => h.not_seen x hx (List.mem_cons_of_mem _ hs)
  roots_seen r hr := by
    obtain rfl := List.mem_singleton.1 hr
    exact h.seen_subset List.mem_cons_self
  closed x hx y hy := by
    rcases List.mem_cons.1 hx with rfl | hx
    · exact h.roots_seen y hy
    · exact h.closed x hx y hy
  parent x hx := by
    rcases List.mem_cons.1 hx with rfl | hx
    · exact Or.inl List.mem_cons_self
    · refine Or.inr ?_
      rcases h.parent x hx with hroot | ⟨w, hw, hbefore⟩
      · exact ⟨n, hroot, List.cons_sublist_cons.2 (List.singleton_sublist.2 hx)⟩
      · exact ⟨w, hw, hbefore.trans (List.sublist_cons_self _ _)⟩
  reached x hx := by
    refine ⟨n, List.mem_cons_self, ?_⟩
    rcases List.mem_cons.1 hx with rfl | hx
    · exact .refl
    · obtain ⟨r, hr, hpath⟩ := h.reached x hx
      exact hpath.head hr

/-- What is found from one root without avoiding any node is what can be reached from it. -/
lemma mem_found_iff (h : Finds next (.avoiding []) [root] found s₁) :
    x ∈ found ↔ Relation.ReflTransGen (fun a b => b ∈ next a) root x := by
  have hseen : ∀ y, y ∈ s₁.seen ↔ y ∈ found := by
    intro y
    rw [h.mem_seen, avoiding, or_iff_left List.not_mem_nil]
  constructor
  · intro hx
    obtain ⟨r, hr, hpath⟩ := h.reached x hx
    obtain rfl := List.mem_singleton.1 hr
    exact hpath
  · intro hpath
    induction hpath with
    | refl => exact (hseen root).1 (h.roots_seen root List.mem_cons_self)
    | tail _ hedge ih => exact (hseen _).1 (h.closed _ ih _ hedge)

end Finds

/-! ## Positions -/

/-- Of two elements that follow each other in a list without duplicates, the first has the smaller
position. -/
lemma idxOf_lt_idxOf_of_sublist [DecidableEq N] {l : List N} (hl : l.Nodup) {a b : N}
    (h : [a, b].Sublist l) : l.idxOf a < l.idxOf b := by
  obtain ⟨front, back, rfl, ha, hb⟩ := List.cons_sublist_iff.1 h
  have hnot : b ∉ front := fun hmem =>
    (List.nodup_append.1 hl).2.2 b hmem b (List.singleton_sublist.1 hb) rfl
  have hlt := List.idxOf_lt_length_of_mem ha
  rw [List.idxOf_append_of_mem ha, List.idxOf_append_of_notMem hnot]
  omega

/-- What is true of the roots, and of a node if it is true of one that it follows and that was left
after it, is true of all nodes found. -/
lemma Finds.induction [DecidableEq N] (h : Finds next s roots found s₁) {P : N → Prop}
    (hroot : ∀ r ∈ roots, r ∈ found → P r)
    (hstep : ∀ w ∈ found, ∀ x ∈ next w, x ∈ found → found.idxOf w < found.idxOf x → P w → P x)
    (hx : x ∈ found) : P x := by
  induction hn : found.idxOf x using Nat.strong_induction_on generalizing x with
  | _ n ih =>
    rcases h.parent x hx with hr | ⟨w, hw, hsub⟩
    · exact hroot x hr hx
    · have hlt := idxOf_lt_idxOf_of_sublist h.nodup hsub
      have hmem := hsub.subset List.mem_cons_self
      exact hstep w hmem x hw hx hlt (ih _ (hn ▸ hlt) hmem rfl)

/-! ## Putting searches together -/

/-- Ways to put searches together: a relation between a search, roots, the nodes found from them and
the search afterwards, which holds of the parts of a search and carries over to the whole. -/
structure Rules (next : N → List N) (F : Search N → List N → List N → Search N → Prop) : Prop where
  /-- What the relation relates is found. -/
  finds : ∀ {s roots found s₁}, F s roots found s₁ → Finds next s roots found s₁
  /-- A root that has been seen is passed over. -/
  seen : ∀ {s n}, n ∈ s.seen → F s [n] [] s
  /-- Nothing is found from no roots. -/
  nil : ∀ {s}, F s [] [] s
  /-- A search from further roots goes on where the search from the first ones has ended. -/
  append : ∀ {s roots found s₁ roots₁ found₁ s₂}, F s roots found s₁ → F s₁ roots₁ found₁ s₂ →
    F s (roots ++ roots₁) (found₁ ++ found) s₂
  /-- A node is entered before the search from its successors, and left after it. -/
  enter : ∀ {s n found s₁}, n ∉ s.seen → F { s with seen := n :: s.seen } (next n) found s₁ →
    F s [n] (n :: found) { s₁ with finished := n :: s₁.finished }

/-- A search finds what it should. -/
theorem finds_rules (next : N → List N) : Rules next (Finds next) where
  finds h := h
  seen := .of_seen
  nil := .nil
  append := .append
  enter := .enter

/-! ## The depth of a search -/

section Depth

variable [DecidableEq N] {U : Finset N} {depth : ℕ}

lemma Finds.card_le (h : Finds next s roots found s₁) :
    (U \ s₁.seen.toFinset).card ≤ (U \ s.seen.toFinset).card := by
  refine Finset.card_le_card (Finset.sdiff_subset_sdiff le_rfl fun x hx => ?_)
  exact List.mem_toFinset.2 (h.seen_subset (List.mem_toFinset.1 hx))

lemma card_enter_le (hn : n ∈ U) (hs : n ∉ s.seen)
    (hdepth : (U \ s.seen.toFinset).card ≤ depth + 1) :
    (U \ (n :: s.seen).toFinset).card ≤ depth := by
  refine Nat.le_of_lt_succ ((Finset.card_lt_card ?_).trans_le hdepth)
  refine (Finset.ssubset_iff_of_subset ?_).2 ⟨n, ?_, ?_⟩
  · refine Finset.sdiff_subset_sdiff le_rfl fun x hx => ?_
    exact List.mem_toFinset.2 (List.mem_cons_of_mem _ (List.mem_toFinset.1 hx))
  · simpa using ⟨hn, hs⟩
  · simp

variable {F : Search N → List N → List N → Search N → Prop}

/-- Visits to several nodes, one after the other. -/
lemma Rules.exists_foldl (rules : Rules next F)
    (hvisit : ∀ (s : Search N), ∀ r ∈ U, (U \ s.seen.toFinset).card ≤ depth →
      ∃ found, F s [r] found (visit next depth s r))
    (s : Search N) (hroots : ∀ r ∈ roots, r ∈ U) (hdepth : (U \ s.seen.toFinset).card ≤ depth) :
    ∃ found, F s roots found (roots.foldl (visit next depth) s) := by
  induction roots generalizing s with
  | nil => exact ⟨[], rules.nil⟩
  | cons r roots ih =>
    obtain ⟨found, hfirst⟩ := hvisit s r (hroots r List.mem_cons_self) hdepth
    obtain ⟨found₁, hrest⟩ := ih (visit next depth s r)
      (fun r hr => hroots r (List.mem_cons_of_mem _ hr))
      ((rules.finds hfirst).card_le.trans hdepth)
    exact ⟨found₁ ++ found, rules.append hfirst hrest⟩

/-- **A search does as a whole what its parts do**, if it may go as deep as there are nodes that
have not been seen. -/
theorem Rules.exists_visit (rules : Rules next F) (hclosed : ∀ x ∈ U, ∀ y ∈ next x, y ∈ U)
    (hn : n ∈ U) (hdepth : (U \ s.seen.toFinset).card ≤ depth) :
    ∃ found, F s [n] found (visit next depth s n) := by
  induction depth generalizing s n with
  | zero =>
    -- no node is left, so the root has been seen
    have hempty : U \ s.seen.toFinset = ∅ := Finset.card_eq_zero.1 (Nat.le_zero.1 hdepth)
    have hseen := Finset.sdiff_eq_empty_iff_subset.1 hempty hn
    exact ⟨[], rules.seen (List.mem_toFinset.1 hseen)⟩
  | succ depth ih =>
    rw [visit]
    by_cases hseen : n ∈ s.seen
    · rw [if_pos hseen]
      exact ⟨[], rules.seen hseen⟩
    · rw [if_neg hseen]
      obtain ⟨found, hfound⟩ := rules.exists_foldl (fun s r hr h => ih hr h)
        { s with seen := n :: s.seen } (hclosed n hn) (card_enter_le hn hseen hdepth)
      exact ⟨n :: found, rules.enter hseen hfound⟩

end Depth

end Search

end Roundoff
