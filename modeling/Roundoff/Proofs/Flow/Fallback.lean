/-
# Closed forms and the visits they replace

A loop that is bounded in closed form is visited once, and the visits of its other passes are kept
as a fallback.  Such a loop has no loops inside, so a pass through it visits its blocks one by one,
the header with the edges of the pass.  If each closed form is replaced by its fallback, what is
left is therefore the schedule without closed forms.
-/
import Mathlib
import Roundoff.Proofs.Flow.Expansion
import Roundoff.Proofs.Flow.Forest

namespace Roundoff

variable {R : Type} {f : Function R} {settings : Settings} {id : LoopId} {l : Loop}
  {edges : PhiEdges}

/-- The settings with closed forms disabled. -/
def Settings.withoutClosedForms (settings : Settings) : Settings :=
  { settings with lipschitzLoops := false }

namespace Schedule

/-- A schedule in which each closed form is replaced by its fallback. -/
def unrolled (s : Schedule) : Schedule := s.visits.map .visit

@[simp] lemma unrolled_nil : unrolled [] = [] := rfl

@[simp] lemma unrolled_cons_visit (v : Visit) (s : Schedule) :
    unrolled (.visit v :: s) = .visit v :: unrolled s := rfl

@[simp] lemma unrolled_cons_closedForm (header : BlockId) (tripCount : UInt32)
    (fallback : List Visit) (s : Schedule) :
    unrolled (.closedForm header tripCount fallback :: s)
      = fallback.map .visit ++ unrolled s := by
  simp [unrolled, visits, ScheduleItem.visits]

@[simp] lemma unrolled_append (s s' : Schedule) :
    unrolled (s ++ s') = unrolled s ++ unrolled s' := by
  simp [unrolled, visits]

/-- The visits stay the same. -/
@[simp] lemma visits_unrolled (s : Schedule) : s.unrolled.visits = s.visits := by
  rw [unrolled, visits, List.flatMap_map]
  exact List.flatMap_singleton' s.visits

@[simp] lemma unrolled_flatten (ss : List Schedule) :
    unrolled ss.flatten = (ss.map unrolled).flatten := by
  induction ss with
  | nil => rfl
  | cons s ss ih => simp [ih]

end Schedule

namespace Flow

/-! ## Passes through a scope -/

/-- The steps for the blocks of a scope are unrolled with those of the loops inside it. -/
lemma unrolled_bodyItems (w : Flow) (scope : Option LoopId) (edges : PhiEdges)
    (expand : LoopId → List BlockId → Schedule) (members done blocks : List BlockId) :
    (w.bodyItems scope edges expand members done blocks).unrolled
      = w.bodyItems scope edges (fun c inner => (expand c inner).unrolled) members done blocks := by
  induction blocks generalizing done with
  | nil => rfl
  | cons b blocks ih =>
    simp only [bodyItems]
    split
    · exact ih done
    · split
      · rw [Schedule.unrolled_cons_visit, ih]
      · split
        · rw [Schedule.unrolled_cons_visit, ih]
        · rw [Schedule.unrolled_append, ih]

/-- A block belongs to no loop directly inside a loop that has no loops inside. -/
lemma childContaining?_eq_none (hleaf : (Flow.of f).loops.children id = []) (b : BlockId) :
    (Flow.of f).loops.childContaining? (some id) b = none := by
  refine Option.eq_none_iff_forall_not_mem.2 fun c hc => ?_
  have hmem := LoopForest.mem_children_iff.2 (LoopForest.parent?_of_childContaining? hc)
  exact List.not_mem_nil (hleaf ▸ hmem)

/-- A pass through a loop without inner loops visits its blocks one by one. -/
lemma bodyItems_leaf (hl : (Flow.of f).loops.get? id = some l)
    (hleaf : (Flow.of f).loops.children id = []) (edges : PhiEdges)
    (expand : LoopId → List BlockId → Schedule) (members blocks : List BlockId) :
    (Flow.of f).bodyItems (some id) edges expand members [] blocks
      = (leafVisits l.header edges blocks).map .visit := by
  induction blocks with
  | nil => rfl
  | cons b blocks ih =>
    rw [bodyItems, if_neg List.not_mem_nil, Option.bind_some, hl, ih,
      childContaining?_eq_none hleaf]
    by_cases hb : b = l.header
    · simp [leafVisits, hb]
    · simp [leafVisits, hb, Ne.symm hb]

/-! ## Loops -/

/-- The steps for a loop, where closed forms are replaced, are those without closed forms. -/
lemma unrolled_loopItems (settings : Settings) (depth : ℕ) (id : LoopId) (members : List BlockId) :
    ((Flow.of f).loopItems settings f depth id members).unrolled
      = (Flow.of f).loopItems settings.withoutClosedForms f depth id members := by
  induction depth generalizing id members with
  | zero => rfl
  | succ depth ih =>
    -- the passes through the loop are unrolled with the loops inside it
    have hbody (edges : PhiEdges) : ((Flow.of f).bodyItems (some id) edges
          ((Flow.of f).loopItems settings f depth) members [] members).unrolled
        = (Flow.of f).bodyItems (some id) edges
          ((Flow.of f).loopItems settings.withoutClosedForms f depth) members [] members := by
      rw [unrolled_bodyItems]
      simp only [ih]
    simp only [loopItems]
    cases hl : (Flow.of f).loops.get? id with
    | none => rfl
    | some l =>
      have hcount : settings.withoutClosedForms.unrollCount = settings.unrollCount := rfl
      simp only [hcount]
      split
      · next t _ =>
        have hoff : ¬ (settings.withoutClosedForms.lipschitzLoops = true ∧
            ((Flow.of f).loops.children id).isEmpty = true) := fun h => Bool.noConfusion h.1
        rw [if_neg hoff]
        split
        · next hleaf =>
          have hpass := bodyItems_leaf hl (List.isEmpty_iff.1 hleaf.2) .latch
            ((Flow.of f).loopItems settings.withoutClosedForms f depth) members members
          simp [hbody, hpass]
        · simp [hbody]
      · simp [hbody]

/-- **Unrolling the closed forms of a schedule** yields the schedule without closed forms. -/
theorem unrolled_schedule (f : Function R) (settings : Settings) :
    ((Flow.of f).schedule settings f).unrolled
      = (Flow.of f).schedule settings.withoutClosedForms f := by
  simp only [schedule, unrolled_bodyItems, unrolled_loopItems]

end Flow

end Roundoff
