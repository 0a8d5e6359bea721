/-
# Walks with a stack

A walk is a depth-first search without recursion.  It keeps the nodes that it has entered but not
left on a stack, each of them with the successors that it has still to look at.  A step looks at the
next successor of the node entered last, which is entered unless it has been seen; a node without
further successors is left.

A walk does what the recursive search does, in one step for each successor of the nodes found and
one for each node to leave it: the steps that look at the successors of a node, and at all that is
entered from there, do not touch the stack below.  What holds of a walk at every moment can
therefore be proved step by step, and read off the order in which the search leaves the nodes.
-/
import Mathlib
import Roundoff.Proofs.Flow.Order

namespace Roundoff

/-- A depth-first search under way. -/
structure Walk (N : Type) extends Search N where
  /-- The nodes that were entered and not left, the latest one first, each with the successors that
  are still to be looked at. -/
  stack : List (N × List N)

namespace Walk

variable {N : Type}

/-- Enter a node. -/
def enter (next : N → List N) (w : Walk N) (n : N) : Walk N :=
  { w with seen := n :: w.seen, stack := (n, next n) :: w.stack }

/-- A walk that has entered its first node. -/
def start (next : N → List N) (root : N) : Walk N := enter next ⟨.avoiding [], []⟩ root

/-- Look at the next successor of the node entered last, or leave the node. -/
def step [DecidableEq N] (next : N → List N) (w : Walk N) : Walk N :=
  match w.stack with
  | [] => w
  | (n, []) :: below => { w with finished := n :: w.finished, stack := below }
  | (n, t :: rest) :: below =>
    let w := { w with stack := (n, rest) :: below }
    if t ∈ w.seen then w else w.enter next t

/-- Make a number of steps. -/
def run [DecidableEq N] (next : N → List N) (steps : ℕ) (w : Walk N) : Walk N :=
  (step next)^[steps] w

variable {next : N → List N} {n t root : N} {rest : List N}
  {below : List (N × List N)} {s : Search N} {w w' : Walk N}

/-! ## Steps -/

/-- The steps of a walk, one by one. -/
inductive IsStep (next : N → List N) : Walk N → Walk N → Prop
  /-- All nodes have been left. -/
  | rest {s : Search N} : IsStep next ⟨s, []⟩ ⟨s, []⟩
  /-- The node entered last is left. -/
  | leave {s : Search N} {n : N} {below : List (N × List N)} :
      IsStep next ⟨s, (n, []) :: below⟩ ⟨{ s with finished := n :: s.finished }, below⟩
  /-- A successor that has been seen is passed over. -/
  | pass {s : Search N} {n t : N} {rest : List N} {below : List (N × List N)} (ht : t ∈ s.seen) :
      IsStep next ⟨s, (n, t :: rest) :: below⟩ ⟨s, (n, rest) :: below⟩
  /-- A successor that has not been seen is entered. -/
  | enter {s : Search N} {n t : N} {rest : List N} {below : List (N × List N)} (ht : t ∉ s.seen) :
      IsStep next ⟨s, (n, t :: rest) :: below⟩
        ⟨{ s with seen := t :: s.seen }, (t, next t) :: (n, rest) :: below⟩

section Steps

variable [DecidableEq N]

/-- A walk ends when all nodes have been left. -/
lemma step_of_nil (h : w.stack = []) : w.step next = w := by
  rw [step, h]

lemma step_leave :
    step next ⟨s, (n, []) :: below⟩ = ⟨{ s with finished := n :: s.finished }, below⟩ := rfl

lemma step_seen (ht : t ∈ s.seen) :
    step next ⟨s, (n, t :: rest) :: below⟩ = ⟨s, (n, rest) :: below⟩ := if_pos ht

lemma step_enter (ht : t ∉ s.seen) :
    step next ⟨s, (n, t :: rest) :: below⟩
      = ⟨{ s with seen := t :: s.seen }, (t, next t) :: (n, rest) :: below⟩ := if_neg ht

lemma run_add (k l : ℕ) (w : Walk N) : w.run next (k + l) = (w.run next k).run next l := by
  rw [run, run, run, Nat.add_comm, Function.iterate_add_apply]

lemma run_one (w : Walk N) : w.run next 1 = w.step next := rfl

/-- A walk that has ended goes no further. -/
lemma run_of_nil (h : w.stack = []) (k : ℕ) : w.run next k = w :=
  Function.iterate_fixed (step_of_nil h) k

lemma isStep_step (w : Walk N) : IsStep next w (w.step next) := by
  obtain ⟨s, stack⟩ := w
  cases stack with
  | nil => exact .rest
  | cons top below =>
    obtain ⟨n, rest⟩ := top
    cases rest with
    | nil => exact .leave
    | cons t rest =>
      by_cases ht : t ∈ s.seen
      · rw [step_seen ht]
        exact .pass ht
      · rw [step_enter ht]
        exact .enter ht

/-- **What every step keeps holds after any number of steps.** -/
theorem run_induction {P : Walk N → Prop} (hstep : ∀ w w', IsStep next w w' → P w → P w')
    (hw : P w) (k : ℕ) : P (w.run next k) := by
  induction k with
  | zero => exact hw
  | succ k ih =>
    rw [run_add, run_one]
    exact hstep _ _ (isStep_step _) ih

end Steps

/-! ## What holds at every moment -/

/-- What holds at every moment of a walk. -/
structure IsSound (next : N → List N) (w : Walk N) : Prop where
  /-- A node that has been seen has been left, or it is on the stack. -/
  left_or_open : ∀ x ∈ w.seen, x ∈ w.finished ∨ x ∈ w.stack.map Prod.fst
  /-- The nodes on the stack have been seen. -/
  open_seen : ∀ x ∈ w.stack.map Prod.fst, x ∈ w.seen
  /-- The successors of a node on the stack that have been looked at have been seen. -/
  looked_seen : ∀ n rest, (n, rest) ∈ w.stack →
    ∃ looked, next n = looked ++ rest ∧ ∀ y ∈ looked, y ∈ w.seen
  /-- A node on the stack leads to the nodes above it. -/
  leads : (w.stack.map Prod.fst).Pairwise fun x y => Search.Leads next y x

lemma isSound_start (next : N → List N) (root : N) : (start next root).IsSound next where
  left_or_open x hx := .inr hx
  open_seen x hx := hx
  looked_seen n rest h := by
    obtain ⟨rfl, rfl⟩ := Prod.mk.inj (List.mem_singleton.1 h)
    exact ⟨[], rfl, nofun⟩
  leads := List.pairwise_singleton _ _

namespace IsSound

lemma leave (hw : IsSound next ⟨s, (n, []) :: below⟩) :
    IsSound next ⟨{ s with finished := n :: s.finished }, below⟩ where
  left_or_open x hx := by
    rcases hw.left_or_open x hx with hleft | hopen
    · exact .inl (List.mem_cons_of_mem _ hleft)
    · rcases List.mem_cons.1 hopen with rfl | hopen
      · exact .inl List.mem_cons_self
      · exact .inr hopen
  open_seen x hx := hw.open_seen x (List.mem_cons_of_mem _ hx)
  looked_seen m rest h := hw.looked_seen m rest (List.mem_cons_of_mem _ h)
  leads := (List.pairwise_cons.1 hw.leads).2

/-- When the next successor of a node has been looked at, all before the rest have been. -/
lemma looked_next (hw : IsSound next ⟨s, (n, t :: rest) :: below⟩) :
    ∃ looked, next n = looked ++ rest ∧ ∀ y ∈ looked, y = t ∨ y ∈ s.seen := by
  obtain ⟨looked, hnext, hseen⟩ := hw.looked_seen n (t :: rest) List.mem_cons_self
  refine ⟨looked ++ [t], by rw [hnext, List.append_assoc, List.singleton_append], fun y hy => ?_⟩
  exact (List.mem_append.1 hy).symm.imp List.mem_singleton.1 (hseen y)

lemma pass (ht : t ∈ s.seen) (hw : IsSound next ⟨s, (n, t :: rest) :: below⟩) :
    IsSound next ⟨s, (n, rest) :: below⟩ where
  left_or_open := hw.left_or_open
  open_seen := hw.open_seen
  looked_seen m rest' h := by
    rcases List.mem_cons.1 h with heq | hbelow
    · obtain ⟨rfl, rfl⟩ := Prod.mk.inj heq
      obtain ⟨looked, hnext, hseen⟩ := hw.looked_next
      exact ⟨looked, hnext, fun y hy => (hseen y hy).elim (fun heq => heq ▸ ht) id⟩
    · exact hw.looked_seen m rest' (List.mem_cons_of_mem _ hbelow)
  leads := hw.leads

/-- The node on top of the stack leads to the successor that is next. -/
lemma leads_next (hw : IsSound next ⟨s, (n, t :: rest) :: below⟩) : t ∈ next n := by
  obtain ⟨looked, hnext, -⟩ := hw.looked_seen n (t :: rest) List.mem_cons_self
  rw [hnext]
  exact List.mem_append_right _ List.mem_cons_self

lemma enter (hw : IsSound next ⟨s, (n, t :: rest) :: below⟩) :
    IsSound next ⟨{ s with seen := t :: s.seen }, (t, next t) :: (n, rest) :: below⟩ where
  left_or_open x hx := by
    rcases List.mem_cons.1 hx with rfl | hx
    · exact .inr List.mem_cons_self
    · exact (hw.left_or_open x hx).imp_right (List.mem_cons_of_mem _)
  open_seen x hx := by
    rcases List.mem_cons.1 hx with rfl | hx
    · exact List.mem_cons_self
    · exact List.mem_cons_of_mem _ (hw.open_seen x hx)
  looked_seen m rest' h := by
    rcases List.mem_cons.1 h with heq | h
    · obtain ⟨rfl, rfl⟩ := Prod.mk.inj heq
      exact ⟨[], rfl, nofun⟩
    rcases List.mem_cons.1 h with heq | hbelow
    · obtain ⟨rfl, rfl⟩ := Prod.mk.inj heq
      obtain ⟨looked, hnext, hseen⟩ := hw.looked_next
      exact ⟨looked, hnext, fun y hy => List.mem_cons.2 (hseen y hy)⟩
    · obtain ⟨looked, hnext, hseen⟩ := hw.looked_seen m rest' (List.mem_cons_of_mem _ hbelow)
      exact ⟨looked, hnext, fun y hy => List.mem_cons_of_mem _ (hseen y hy)⟩
  leads := by
    refine List.pairwise_cons.2 ⟨fun y hy => ?_, hw.leads⟩
    rcases List.mem_cons.1 hy with rfl | hy
    · exact .single hw.leads_next
    · exact ((List.pairwise_cons.1 hw.leads).1 y hy).tail hw.leads_next

end IsSound

/-- **A step keeps what holds at every moment.** -/
theorem IsStep.isSound (hstep : IsStep next w w') (hw : w.IsSound next) : w'.IsSound next := by
  cases hstep with
  | rest => exact hw
  | leave => exact hw.leave
  | pass ht => exact hw.pass ht
  | enter ht => exact hw.enter

end Walk

/-! ## Walks and searches -/

namespace Search

variable {N : Type} {next : N → List N} {n root : N} {s s₁ s₂ : Search N}
  {roots roots₁ found found₁ : List N}

/-- How many steps a walk takes below the given nodes: one for each successor, and one to leave each
node. -/
def steps (next : N → List N) (found : List N) : ℕ := (found.map fun x => (next x).length + 1).sum

lemma steps_cons (n : N) (found : List N) :
    steps next (n :: found) = (next n).length + 1 + steps next found := by
  rw [steps, List.map_cons, List.sum_cons, steps]

lemma steps_append (found₁ found : List N) :
    steps next (found₁ ++ found) = steps next found₁ + steps next found := by
  rw [steps, List.map_append, List.sum_append, steps, steps]

variable [DecidableEq N]

/-- What a search finds, with the walk that does the same. -/
structure FindsByWalking (next : N → List N) (s : Search N) (roots found : List N) (s₁ : Search N) :
    Prop extends Finds next s roots found s₁ where
  /-- A walk with the roots before it comes to the end of the search and leaves everything below as
  it is. -/
  run_eq : ∀ n rest below, Walk.run next (roots.length + steps next found)
    ⟨s, (n, roots ++ rest) :: below⟩ = ⟨s₁, (n, rest) :: below⟩

namespace FindsByWalking

lemma append (h : FindsByWalking next s roots found s₁)
    (h₁ : FindsByWalking next s₁ roots₁ found₁ s₂) :
    FindsByWalking next s (roots ++ roots₁) (found₁ ++ found) s₂ where
  toFinds := h.toFinds.append h₁.toFinds
  run_eq n rest below := by
    have hsteps : (roots ++ roots₁).length + steps next (found₁ ++ found)
        = (roots.length + steps next found) + (roots₁.length + steps next found₁) := by
      rw [List.length_append, steps_append]
      omega
    rw [hsteps, Walk.run_add, List.append_assoc, h.run_eq, h₁.run_eq]

lemma enter (hn : n ∉ s.seen)
    (h : FindsByWalking next { s with seen := n :: s.seen } (next n) found s₁) :
    FindsByWalking next s [n] (n :: found) { s₁ with finished := n :: s₁.finished } where
  toFinds := h.toFinds.enter hn
  run_eq m rest below := by
    have hsteps : [n].length + steps next (n :: found)
        = 1 + (((next n).length + steps next found) + 1) := by
      rw [List.length_singleton, steps_cons]
      omega
    -- the node is entered, its successors are looked at, and it is left
    have hbelow := h.run_eq n [] ((m, rest) :: below)
    rw [List.append_nil] at hbelow
    rw [hsteps, Walk.run_add, Walk.run_one, List.singleton_append, Walk.step_enter hn, Walk.run_add,
      hbelow, Walk.run_one, Walk.step_leave]

end FindsByWalking

/-- **A walk does what a search does.** -/
theorem findsByWalking_rules (next : N → List N) : Rules next (FindsByWalking next) where
  finds h := h.toFinds
  seen h := ⟨.of_seen h, fun _ _ _ => Walk.step_seen h⟩
  nil := ⟨.nil, fun _ _ _ => rfl⟩
  append h h₁ := h.append h₁
  enter hn h := h.enter hn

/-- A search enters a node that has not been seen, goes on from its successors, and leaves it. -/
lemma Rules.exists_enter {F : Search N → List N → List N → Search N → Prop} (rules : Rules next F)
    {U : Finset N} {depth : ℕ} (hclosed : ∀ x ∈ U, ∀ y ∈ next x, y ∈ U) (hn : n ∈ U)
    (hs : n ∉ s.seen) (hdepth : (U \ s.seen.toFinset).card ≤ depth) :
    ∃ found s₁, F { s with seen := n :: s.seen } (next n) found s₁ ∧
      visit next depth s n = { s₁ with finished := n :: s₁.finished } := by
  cases depth with
  | zero =>
    have hmem : n ∈ U \ s.seen.toFinset := by simpa using ⟨hn, hs⟩
    rw [Finset.card_eq_zero.1 (Nat.le_zero.1 hdepth)] at hmem
    cases hmem
  | succ depth =>
    obtain ⟨found, hfound⟩ := rules.exists_foldl
      (fun s r hr h => rules.exists_visit hclosed hr h) { s with seen := n :: s.seen }
      (hclosed n hn) (card_enter_le hn hs hdepth)
    exact ⟨found, _, hfound, by rw [visit, if_neg hs]⟩

/-- From its first node on a walk ends where the search ends. -/
theorem run_start {U : Finset N} {depth : ℕ} (hclosed : ∀ x ∈ U, ∀ y ∈ next x, y ∈ U)
    (hroot : root ∈ U) (hdepth : U.card ≤ depth) :
    (Walk.start next root).run next (steps next (visit next depth (.avoiding []) root).finished)
      = ⟨visit next depth (.avoiding []) root, []⟩ := by
  have hcard : (U \ (avoiding ([] : List N)).seen.toFinset).card ≤ depth :=
    (Finset.card_le_card Finset.sdiff_subset).trans hdepth
  obtain ⟨found, s₁, hfound, hvisit⟩ := (findsByWalking_rules next).exists_enter
    (s := .avoiding []) hclosed hroot List.not_mem_nil hcard
  have hfinished : s₁.finished = found := hfound.finished_eq.trans (List.append_nil found)
  have hbelow := hfound.run_eq root [] []
  have hsteps : steps next (root :: found) = ((next root).length + steps next found) + 1 := by
    rw [steps_cons]
    omega
  rw [List.append_nil] at hbelow
  rw [hvisit, hfinished, hsteps, Walk.run_add]
  refine (congrArg (Walk.run next 1) hbelow).trans ?_
  rw [Walk.run_one, Walk.step_leave, hfinished]

end Search

end Roundoff
