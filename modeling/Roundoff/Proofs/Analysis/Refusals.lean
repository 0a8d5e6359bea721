/-
# Closed forms that fail

An activation tries the closed forms of its schedule, and makes the fallback visits of those that
fail.  If all of them fail, it visits the same blocks as an activation of the function in an
analysis without closed forms, and phis read the same edges.
-/
import Mathlib
import Roundoff.Proofs.Analysis.Stack
import Roundoff.Proofs.Flow.Fallback
import Roundoff.Proofs.Number.Exact
import Roundoff.Proofs.Transfer.Events

namespace Roundoff

variable {R σ : Type} [Number R] {m : Module R} {settings : Settings} {f : Function R}

/-! ## Runs through visits -/

namespace Body

variable {b : Body R} {a : Activation R} {w : σ} {h : CallHandler R σ} {n : Symbol}

lemma allRefused_visitEvents (vs : List Visit) :
    Event.AllRefused (b.visitEvents h a w n vs) := by
  induction vs generalizing a w n with
  | nil => exact fun e he => nomatch he
  | cons v vs ih =>
    intro e he
    rw [visitEvents] at he
    rcases List.mem_cons.1 he with rfl | he
    · rfl
    · split at he
      · exact ih e he
      · cases he

/-- A schedule without closed forms has none that succeeds. -/
lemma allRefused_events_map_visit (vs : List Visit) :
    Event.AllRefused (b.events h a w n (vs.map .visit)) := by
  induction vs generalizing a w n with
  | nil => exact fun e he => nomatch he
  | cons v vs ih =>
    intro e he
    rw [List.map_cons, events] at he
    rcases List.mem_append.1 he with he | he
    · exact allRefused_visitEvents [v] e he
    · split at he
      · exact ih e he
      · cases he

omit [Number R] in
/-- Faults do not depend on whether there are closed forms. -/
lemma reached_withoutClosedForms (m : Module R) (settings : Settings) (f : Function R)
    (vs : List Visit) :
    (Body.of m settings.withoutClosedForms f).reached vs = (Body.of m settings f).reached vs := by
  induction vs with
  | nil => rfl
  | cons v vs ih =>
    rw [reached, reached, ih]
    rfl

end Body

/-! ## Activations -/

namespace Plan

variable {p : Plan R} {x : Start R} {xs : List (Start R)}

/-- The events of an activation. -/
def events (p : Plan R) (x : Start R) : List Event :=
  let prepared := p.prepared x.function x.findings
  (p.body x.function).events p.calls x.state prepared.2 x.supply prepared.1

/-- An activation begins with nothing settled. -/
lemma IsStack.pinned_eq (hx : p.IsStack x xs) : x.state.pinned = ∅ := by
  cases hx with
  | entry => rfl
  | call => rfl

/-- The events of an activation are those of a run through the schedule of its function. -/
lemma IsStack.events_eq (hm : m.validate = .ok ()) (hx : (Plan.of m settings).IsStack x xs) :
    (Plan.of m settings).events x
      = (Body.of m settings x.function).events (Plan.of m settings).calls
      x.state ((Plan.of m settings).prepared x.function x.findings).2 x.supply
      ((Flow.of x.function).schedule settings x.function) := by
  obtain ⟨hmem, hschedule⟩ := hx.schedule_eq hm
  rw [events, body_eq_of_validate hm hmem, hschedule]

end Plan

/-- Where all closed forms of a function fail, the analysis goes on as without closed forms. -/
structure Function.FallsBack (m : Module R) (settings : Settings) (f : Function R) : Prop where
  /-- If each closed form is replaced by its fallback, the schedule without closed forms is left. -/
  unrolled_eq : ((Flow.of f).schedule settings f).unrolled
    = (Flow.of f).schedule settings.withoutClosedForms f
  /-- A run through the schedule in which all closed forms fail makes the visits of the schedule
  without closed forms, up to the first block with a fault. -/
  visits_eq_reached : ∀ {σ : Type} (h : CallHandler R σ) (a : Activation R) (w : σ) (n : Symbol),
    a.pinned = ∅ →
    Event.AllRefused ((Body.of m settings f).events h a w n ((Flow.of f).schedule settings f)) →
    Event.visits ((Body.of m settings f).events h a w n ((Flow.of f).schedule settings f))
      = (Body.of m settings f).reached ((Flow.of f).schedule settings.withoutClosedForms f).visits
  /-- These are the visits that a run without closed forms makes, whatever is known at its beginning
  and however calls are answered. -/
  visits_eq : ∀ {σ τ : Type} (h : CallHandler R σ) (h' : CallHandler R τ) (a a' : Activation R)
    (w : σ) (w' : τ) (n n' : Symbol), a.pinned = ∅ → a'.pinned = ∅ →
    Event.AllRefused ((Body.of m settings f).events h a w n ((Flow.of f).schedule settings f)) →
    Event.visits ((Body.of m settings f).events h a w n ((Flow.of f).schedule settings f))
      = Event.visits ((Body.of m settings.withoutClosedForms f).events h' a' w' n'
          ((Flow.of f).schedule settings.withoutClosedForms f))
  /-- In the analysis of a valid module, an activation in which all closed forms fail makes the
  visits of an activation in the analysis without closed forms. -/
  activation_visits_eq : m.validate = .ok () → ∀ x xs y ys, (Plan.of m settings).IsStack x xs →
    (Plan.of m settings.withoutClosedForms).IsStack y ys → x.function = f → y.function = f →
    Event.AllRefused ((Plan.of m settings).events x) →
    Event.visits ((Plan.of m settings).events x)
      = Event.visits ((Plan.of m settings.withoutClosedForms).events y)

namespace Function

/-- Runs of a function in which all closed forms fail make the visits of the schedule without closed
forms. -/
lemma visits_eq_reached_of_allRefused {h : CallHandler R σ} {a : Activation R} {w : σ} {n : Symbol}
    (ha : a.pinned = ∅) (hrefused : Event.AllRefused
      ((Body.of m settings f).events h a w n ((Flow.of f).schedule settings f))) :
    Event.visits ((Body.of m settings f).events h a w n ((Flow.of f).schedule settings f))
      = (Body.of m settings f).reached
          ((Flow.of f).schedule settings.withoutClosedForms f).visits := by
  rw [Body.visits_events ha hrefused, ← Flow.unrolled_schedule, Schedule.visits_unrolled]

/-- So do runs without closed forms. -/
lemma visits_withoutClosedForms {h : CallHandler R σ} {a : Activation R} {w : σ} {n : Symbol}
    (ha : a.pinned = ∅) :
    Event.visits ((Body.of m settings.withoutClosedForms f).events h a w n
        ((Flow.of f).schedule settings.withoutClosedForms f))
      = (Body.of m settings f).reached
          ((Flow.of f).schedule settings.withoutClosedForms f).visits := by
  have hrefused : Event.AllRefused ((Body.of m settings.withoutClosedForms f).events h a w n
      ((Flow.of f).schedule settings.withoutClosedForms f)) := by
    rw [← Flow.unrolled_schedule]
    exact Body.allRefused_events_map_visit _
  rw [Body.visits_events ha hrefused, Body.reached_withoutClosedForms]

/-- **Every function falls back** to its schedule without closed forms. -/
theorem fallsBack (m : Module R) (settings : Settings) (f : Function R) :
    FallsBack m settings f where
  unrolled_eq := Flow.unrolled_schedule f settings
  visits_eq_reached _ _ _ _ ha hrefused := visits_eq_reached_of_allRefused ha hrefused
  visits_eq _ _ _ _ _ _ _ _ ha ha' hrefused :=
    (visits_eq_reached_of_allRefused ha hrefused).trans (visits_withoutClosedForms ha').symm
  activation_visits_eq := by
    rintro hm x xs y ys hx hy rfl hfunction hrefused
    -- both activations run through the schedule of the function
    rw [hx.events_eq hm] at hrefused ⊢
    rw [hy.events_eq hm, hfunction, visits_withoutClosedForms hy.pinned_eq]
    exact visits_eq_reached_of_allRefused hx.pinned_eq hrefused

end Function

/-! ## A loop that carries nothing -/

namespace IdleLoop

/-- The function passes through a loop in which nothing is computed. -/
def function : Function ℝ where
  id := ⟨0⟩
  name := "idle"
  params := #[]
  retTy := .void
  blocks := #[⟨⟨0⟩, "entry", [⟨0⟩], none, none⟩, ⟨⟨1⟩, "loop", [⟨1⟩], none, some 3⟩,
    ⟨⟨2⟩, "exit", [⟨2⟩], none, none⟩]
  insts := #[⟨⟨0⟩, ⟨0⟩, "", .void, .br ⟨1⟩, none, none⟩,
    ⟨⟨1⟩, ⟨1⟩, "", .void, .condBr .undef ⟨1⟩ ⟨2⟩, none, none⟩,
    ⟨⟨2⟩, ⟨2⟩, "", .void, .ret none, none, none⟩]
  maxRecursion := none
  entryPoint := false

/-- The module of the function. -/
def program : Module ℝ := ⟨"m", #[function], #[], #[]⟩

/-- The activation from which the analysis starts. -/
noncomputable def first (settings : Settings) : Start ℝ :=
  (Plan.of program settings).beginEntry (Session.start program 0).1 function 0

lemma isStack_first (settings : Settings) :
    (Plan.of program settings).IsStack (first settings) [] := by
  have hf : (Plan.of program settings).module.function? ⟨0⟩ = some function := rfl
  exact .entry (.start 0) hf rfl

/-- The closed form of the loop fails, since there are no errors to be carried from pass to pass. -/
lemma events_first : (Plan.of program {}).events (first {}) =
    [.visited ⟨⟨0⟩, .all⟩, .visited ⟨⟨1⟩, .entry⟩, .refused ⟨1⟩, .visited ⟨⟨1⟩, .latch⟩,
      .visited ⟨⟨1⟩, .latch⟩, .visited ⟨⟨2⟩, .all⟩] := by
  decide +kernel

/-- The loop is visited three times, as it is without closed forms. -/
theorem fallsBack_function :
    .refused ⟨1⟩ ∈ (Plan.of program {}).events (first {}) ∧
      Event.AllRefused ((Plan.of program {}).events (first {})) ∧
      Event.visits ((Plan.of program {}).events (first {}))
        = Event.visits ((Plan.of program (Settings.withoutClosedForms {})).events
            (first (Settings.withoutClosedForms {}))) := by
  have hrefused : Event.AllRefused ((Plan.of program {}).events (first {})) := by
    rw [events_first]
    decide
  have hmem : .refused ⟨1⟩ ∈ (Plan.of program {}).events (first {}) := by
    rw [events_first]
    decide
  exact ⟨hmem, hrefused, (Function.fallsBack program {} function).activation_visits_eq rfl _ _ _ _
    (isStack_first {}) (isStack_first _) rfl rfl hrefused⟩

end IdleLoop

end Roundoff
