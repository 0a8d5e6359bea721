/-
# The remaining recursion

What is left of the bounds of all functions, beyond the activations that are under way, shrinks with
every call that is followed, since calls leave as many activations under way as they find.  So calls
need not be followed deeper than the bounds allow: following them one level deeper gives the same
answers, and the answer to a call is an activation whose own calls are answered in the same way.
-/
import Mathlib
import Roundoff.Proofs.Analysis.UnderWay

namespace Roundoff

variable {R : Type} [Number R] {m : Module R} {settings : Settings}

namespace Plan

variable {p : Plan R} {f : Function R} {w w' : Findings R} {x : Start R}
  {c : Call R (Findings R)} {depth : ℕ}

/-- How many more activations the bounds allow, summed over all functions. -/
def budget (p : Plan R) (w : Findings R) : ℕ :=
  (p.module.functions.toList.map fun f => max 1 (p.recursionBound f) - w.underWay f.id).sum

omit [Number R] in
lemma depth_eq_sum (p : Plan R) :
    p.depth = (p.module.functions.toList.map fun f => max 1 (p.recursionBound f)).sum := by
  rw [depth, List.sum, List.foldr_map]

omit [Number R] in
lemma budget_congr (h : w.underWay = w'.underWay) : p.budget w = p.budget w' := by
  rw [budget, budget, h]

omit [Number R] in
/-- An activation that begins uses up some of what the bounds allow. -/
lemma budget_enter_lt (hf : f ∈ p.module.functions)
    (hlt : w.underWay f.id < max 1 (p.recursionBound f)) :
    p.budget (w.enter f.id).2 < p.budget w := by
  refine List.sum_lt_sum _ _ (fun g _ => ?_) ⟨f, Array.mem_toList_iff.2 hf, ?_⟩
  · rw [Findings.underWay_enter]
    split
    · omega
    · exact le_rfl
  · rw [Findings.underWay_enter, if_pos rfl]
    omega

omit [Number R] in
/-- While an activation is under way, less is left than what the bounds allow altogether. -/
lemma budget_lt_depth (hf : f ∈ p.module.functions) (hpos : 0 < w.underWay f.id) :
    p.budget w < p.depth := by
  rw [depth_eq_sum]
  refine List.sum_lt_sum _ _ (fun g _ => Nat.sub_le _ _) ⟨f, Array.mem_toList_iff.2 hf, ?_⟩
  have hmax : 0 < max 1 (p.recursionBound f) := lt_max_of_lt_left one_pos
  omega

/-- Activations whose calls are answered alike have the same outcome, where the calls come up while
as much is left of the bounds as at the beginning. -/
lemma outcome_congr {h h' : CallHandler R (Findings R)} {n : ℕ}
    (hh : h.Restores m fun _ => True) (hreturned : h.returned? = h'.returned?)
    (hanswer : ∀ c : Call R (Findings R), c.callee ∈ m.functions →
      (Plan.of m settings).budget c.world = n → h.answer c = h'.answer c)
    (hx : (Plan.of m settings).budget x.findings = n) :
    (Plan.of m settings).outcome h x = (Plan.of m settings).outcome h' x := by
  rw [outcome, outcome, run_eq, run_eq]
  refine Body.runSchedule_congr (restores_keeps hh x.function x.findings.underWay)
    ⟨underWay_prepared _ _ _, trivial⟩ _ _ hreturned fun c hc => ?_
  have hcallee := hc.callee_mem
  rw [module_body] at hcallee
  exact hanswer c hcallee ((budget_congr hc.world.1).trans hx)

/-- Calls are answered alike if they are followed one level deeper, if the depth suffices for what
is left of the bounds. -/
lemma answer_follow_eq (hc : c.callee ∈ m.functions)
    (hdepth : (Plan.of m settings).budget c.world < depth) :
    ((Plan.of m settings).follow depth).answer c
      = ((Plan.of m settings).follow (depth + 1)).answer c := by
  induction depth generalizing c with
  | zero => exact absurd hdepth (Nat.not_lt_zero _)
  | succ depth ih =>
    -- the calls that come up in the activation have less of the bounds left than the call itself
    rw [answer_follow_succ, answer_follow_succ, respond, respond]
    split
    · next hf =>
      have hlt : (Plan.of m settings).budget ((Plan.of m settings).begin c).findings
          < (Plan.of m settings).budget c.world :=
        budget_enter_lt (p := Plan.of m settings) hc (lt_max_of_lt_right hf)
      have houtcome : (Plan.of m settings).outcome ((Plan.of m settings).follow depth)
            ((Plan.of m settings).begin c)
          = (Plan.of m settings).outcome ((Plan.of m settings).follow (depth + 1))
            ((Plan.of m settings).begin c) :=
        outcome_congr (follow_restores (maintains_true _) depth) rfl
          (fun c' hc' hbudget => ih hc' (by omega)) rfl
      rw [houtcome]
    · rfl

/-- **A call is answered by an activation whose own calls are answered in the same way**, while some
activation is under way. -/
theorem answer_calls_eq (hc : c.callee ∈ m.functions)
    (hbudget : (Plan.of m settings).budget c.world < (Plan.of m settings).depth) :
    (Plan.of m settings).calls.answer c
      = (Plan.of m settings).respond (Plan.of m settings).calls c :=
  (answer_follow_eq hc hbudget).trans (answer_follow_succ _ _ c)

end Plan

end Roundoff
