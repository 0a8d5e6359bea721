/-
# The completed activations

The activations that have been completed are listed here with their beginnings, in the order in
which they have been completed: those for the calls of an activation, however deep the calls are
nested, and those of the functions from which the analysis starts.  Between the analyses of
functions the findings are what the outcomes of these activations make of no findings at all.
-/
import Mathlib
import Roundoff.Proofs.Analysis.Atomicity

namespace Roundoff

variable {R : Type} [Number R]

namespace Plan

variable {m : Module R} {settings : Settings} {p : Plan R} {x y z : Start R} {xs : List (Start R)}
  {c : Call R (Findings R)} {s : Session R} {n : Symbol} {id : FunctionId} {f : Function R}

/-- Whether an activation is completed: it does not stop at a fault. -/
def isCompleted (p : Plan R) (x : Start R) : Bool := (p.outcome p.calls x).1.answer.isOk

/-- The activation itself, if it is completed. -/
def ifCompleted (p : Plan R) (x : Start R) : List (Start R) := if p.isCompleted x then [x] else []

/-- The outcome of an activation as it is taken into the findings. -/
def taken (p : Plan R) (x : Start R) : FunctionId × Activation R :=
  let a := (p.outcome p.calls x).1.state
  (x.function.id,
    { a with store := { a.store with objects := a.store.objects.clearBindings x.function } })

lemma mem_ifCompleted : y ∈ p.ifCompleted x ↔ p.isCompleted x = true ∧ y = x := by
  rw [ifCompleted]
  cases p.isCompleted x <;> simp

/-! ## Calls of an activation -/

/-- The completed activations for the calls of an activation, and for the calls of these. -/
def activationsWithin (m : Module R) (settings : Settings) (x : Start R) : List (Start R) :=
  ((Plan.of m settings).callsOf x).attach.flatMap fun c =>
    if _ : (Plan.of m settings).IsFollowed c.1 then
      activationsWithin m settings ((Plan.of m settings).begin c.1)
        ++ (Plan.of m settings).ifCompleted ((Plan.of m settings).begin c.1)
    else []
termination_by (Plan.of m settings).budget x.findings
decreasing_by exact budget_begin_lt c.2 ‹_›

/-- The completed activations for a call, and for the calls of these. -/
def activationsFor (m : Module R) (settings : Settings) (c : Call R (Findings R)) :
    List (Start R) :=
  if (Plan.of m settings).IsFollowed c then
    activationsWithin m settings ((Plan.of m settings).begin c)
      ++ (Plan.of m settings).ifCompleted ((Plan.of m settings).begin c)
  else []

lemma activationsWithin_eq (m : Module R) (settings : Settings) (x : Start R) :
    activationsWithin m settings x
      = ((Plan.of m settings).callsOf x).flatMap (activationsFor m settings) := by
  rw [activationsWithin, List.flatMap_subtype (g := activationsFor m settings) fun _ _ => rfl,
    List.unattach_attach]

/-- An activation is listed if it is completed and is for a call, or for a call made in the
activation for a call, whether that one is completed or not. -/
lemma mem_activationsWithin : y ∈ activationsWithin m settings x ↔
    ∃ c ∈ (Plan.of m settings).callsOf x, (Plan.of m settings).IsFollowed c ∧
      (y ∈ activationsWithin m settings ((Plan.of m settings).begin c) ∨
        (Plan.of m settings).isCompleted ((Plan.of m settings).begin c) = true ∧
          y = (Plan.of m settings).begin c) := by
  rw [activationsWithin_eq, List.mem_flatMap]
  refine exists_congr fun c => and_congr_right fun _ => ?_
  rw [activationsFor]
  by_cases hf : (Plan.of m settings).IsFollowed c
  · rw [if_pos hf, List.mem_append, mem_ifCompleted, and_iff_right hf]
  · rw [if_neg hf]
    exact iff_of_false List.not_mem_nil fun h => hf h.1

/-- What holds for the activations of calls, and for the calls of these, holds for all. -/
lemma activationsWithin_induction {P : Start R → Start R → Prop}
    (hdirect : ∀ x, ∀ c ∈ (Plan.of m settings).callsOf x, (Plan.of m settings).IsFollowed c →
      (Plan.of m settings).isCompleted ((Plan.of m settings).begin c) = true →
      P x ((Plan.of m settings).begin c))
    (hdeeper : ∀ x, ∀ c ∈ (Plan.of m settings).callsOf x, (Plan.of m settings).IsFollowed c →
      ∀ y, P ((Plan.of m settings).begin c) y → P x y)
    (hy : y ∈ activationsWithin m settings x) : P x y := by
  induction x using activationsWithin.induct m settings with
  | case1 x ih =>
    obtain ⟨c, hc, hf, hy | ⟨hcompleted, rfl⟩⟩ := mem_activationsWithin.1 hy
    · exact hdeeper x c hc hf y (ih ⟨c, hc⟩ hf hy)
    · exact hdirect x c hc hf hcompleted

/-- The activations that are listed have begun on top of others, and are completed. -/
lemma IsStack.of_mem_activationsWithin (hy : y ∈ activationsWithin m settings x)
    (hx : (Plan.of m settings).IsStack x xs) :
    (Plan.of m settings).isCompleted y = true ∧ ∃ ys, (Plan.of m settings).IsStack y ys := by
  refine activationsWithin_induction (P := fun x y => ∀ xs, (Plan.of m settings).IsStack x xs →
    (Plan.of m settings).isCompleted y = true ∧ ∃ ys, (Plan.of m settings).IsStack y ys)
    (fun x c hc hf hcompleted xs hx => ?_) (fun x c hc hf y ih xs hx => ?_) hy xs hx
  · exact ⟨hcompleted, _, hx.call hc hf⟩
  · exact ih _ (hx.call hc hf)

/-- The activations for the calls of an activation that is listed are listed, too. -/
lemma activationsWithin_subset (hy : y ∈ activationsWithin m settings x) :
    ∀ z ∈ activationsWithin m settings y, z ∈ activationsWithin m settings x :=
  activationsWithin_induction
    (P := fun x y => ∀ z ∈ activationsWithin m settings y, z ∈ activationsWithin m settings x)
    (fun _ c hc hf _ _ hz => mem_activationsWithin.2 ⟨c, hc, hf, .inl hz⟩)
    (fun _ c hc hf _ ih z hz => mem_activationsWithin.2 ⟨c, hc, hf, .inl (ih z hz)⟩) hy

/-- The outcomes of completed activations are those of the activations that are listed. -/
lemma completedWithin_eq_map (m : Module R) (settings : Settings) (x : Start R) :
    completedWithin m settings x
      = (activationsWithin m settings x).map (Plan.of m settings).taken := by
  have hcompleted (c : Call R (Findings R)) :
      completed c ((Plan.of m settings).outcomeOf c)
        = ((Plan.of m settings).ifCompleted ((Plan.of m settings).begin c)).map
          (Plan.of m settings).taken := by
    rw [completed, outcomeOf, ifCompleted, isCompleted]
    cases h : ((Plan.of m settings).outcome (Plan.of m settings).calls
      ((Plan.of m settings).begin c)).1.answer with
    | error fault => rfl
    | ok _ => rfl
  induction x using activationsWithin.induct m settings with
  | case1 x ih =>
    rw [completedWithin_eq, activationsWithin_eq, List.map_flatMap]
    refine List.flatMap_congr fun c hc => ?_
    rw [completedFor, activationsFor]
    by_cases hf : (Plan.of m settings).IsFollowed c
    · rw [if_pos hf, if_pos hf, List.map_append, ih ⟨c, hc⟩ hf, hcompleted]
    · rw [if_neg hf, if_neg hf, List.map_nil]

/-! ## The analysis of functions -/

/-- The activations that are completed when a function is analysed from which the analysis starts. -/
def activationsOf (m : Module R) (settings : Settings) (s : Session R) (id : FunctionId)
    (n : Symbol) : List (Start R) :=
  match m.function? id with
  | none => []
  | some f =>
    if f.isDeclaration then []
    else
      let x := (Plan.of m settings).beginEntry s f n
      activationsWithin m settings x ++ (Plan.of m settings).ifCompleted x

/-- Between the analyses of functions, which may have been analysed in any order, the activations
`xs` have been completed. -/
inductive Completes (m : Module R) (settings : Settings) :
    Session R → Symbol → List (Start R) → Prop
  /-- No function has been analysed. -/
  | start (n : Symbol) : Completes m settings (Session.start m n).1 (Session.start m n).2 []
  /-- One more function has been analysed. -/
  | next {s : Session R} {n : Symbol} {xs : List (Start R)} (h : Completes m settings s n xs)
    (id : FunctionId) :
    Completes m settings ((Plan.of m settings).analyse s id n).1.2
      ((Plan.of m settings).analyse s id n).2 (xs ++ activationsOf m settings s id n)

lemma Completes.between (h : Completes m settings s n xs) : (Plan.of m settings).Between s n := by
  induction h with
  | start n => exact .start n
  | next _ id ih => exact ih.next id

lemma Between.exists_completes (hs : (Plan.of m settings).Between s n) :
    ∃ xs, Completes m settings s n xs := by
  induction hs with
  | start n => exact ⟨[], .start n⟩
  | next _ id ih =>
    obtain ⟨xs, hxs⟩ := ih
    exact ⟨_, hxs.next id⟩

lemma mem_activationsOf : y ∈ activationsOf m settings s id n ↔
    ∃ f, m.function? id = some f ∧ f.isDeclaration = false ∧
      (y ∈ activationsWithin m settings ((Plan.of m settings).beginEntry s f n) ∨
        (Plan.of m settings).isCompleted ((Plan.of m settings).beginEntry s f n) = true ∧
          y = (Plan.of m settings).beginEntry s f n) := by
  rw [activationsOf]
  cases m.function? id with
  | none => simp
  | some f => cases hbody : f.isDeclaration <;> simp [hbody, mem_ifCompleted]

/-- The activations in the list have begun on top of others, and are completed. -/
lemma Completes.isStack (h : Completes m settings s n xs) (hx : x ∈ xs) :
    (Plan.of m settings).isCompleted x = true ∧ ∃ ys, (Plan.of m settings).IsStack x ys := by
  induction h with
  | start n => cases hx
  | next h id ih =>
    rcases List.mem_append.1 hx with hx | hx
    · exact ih hx
    · obtain ⟨f, hf, hbody, hx⟩ := mem_activationsOf.1 hx
      have hstack := IsStack.entry h.between hf hbody
      rcases hx with hx | ⟨hcompleted, rfl⟩
      · exact IsStack.of_mem_activationsWithin hx hstack
      · exact ⟨hcompleted, _, hstack⟩

/-- With an activation those for its calls are in the list, if they are completed. -/
lemma Completes.subset (h : Completes m settings s n xs) (hx : x ∈ xs) :
    ∀ y ∈ activationsWithin m settings x, y ∈ xs := by
  induction h with
  | start n => cases hx
  | next h id ih =>
    intro y hy
    rw [List.mem_append]
    rcases List.mem_append.1 hx with hx | hx
    · exact .inl (ih hx y hy)
    · obtain ⟨f, hf, hbody, hx⟩ := mem_activationsOf.1 hx
      refine .inr (mem_activationsOf.2 ⟨f, hf, hbody, .inl ?_⟩)
      rcases hx with hx | ⟨-, rfl⟩
      · exact activationsWithin_subset hx y hy
      · exact hy

/-- What the analysis of a function takes into the findings. -/
lemma agrees_analyse (hm : m.validate = .ok ()) (hs : (Plan.of m settings).Between s n)
    (id : FunctionId) : ((Plan.of m settings).analyse s id n).1.2.findings.Agrees
      (s.findings.takeIn ((activationsOf m settings s id n).map (Plan.of m settings).taken)) := by
  have hfunction : (Plan.of m settings).module.function? id = m.function? id := rfl
  rw [analyse, activationsOf, hfunction]
  cases hf : m.function? id with
  | none => exact .refl _
  | some f =>
    dsimp only
    by_cases hbody : f.isDeclaration = true
    · rw [if_pos hbody, if_pos hbody]
      exact .refl _
    · rw [if_neg hbody, if_neg hbody, analyseFunction_eq, List.map_append, ← completedWithin_eq_map,
        Findings.takeIn_append]
      have hstack := IsStack.entry hs hf (Bool.not_eq_true _ ▸ hbody)
      have hend := (Findings.agrees_leave _ f.id (s.findings.underWay f.id)).trans
        ((hstack.outcome_agrees hm).trans ((Findings.agrees_enter _ _).takeIn _))
      rw [ifCompleted, isCompleted]
      dsimp only
      cases ((Plan.of m settings).outcome (Plan.of m settings).calls
        ((Plan.of m settings).beginEntry s f n)).1.answer with
      | error fault => exact hend
      | ok _ => exact hend.finish f.id _

/-- **The findings are those of the completed activations.** -/
theorem Completes.agrees (hm : m.validate = .ok ()) (h : Completes m settings s n xs) :
    s.findings.Agrees (Findings.empty.takeIn (xs.map (Plan.of m settings).taken)) := by
  induction h with
  | start n => exact .refl _
  | next h id ih =>
    rw [List.map_append, Findings.takeIn_append]
    exact (agrees_analyse hm h.between id).trans (ih.takeIn _)

end Plan

end Roundoff
