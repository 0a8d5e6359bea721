/-
# The calls of a run

A handler can keep a log of the calls that it answers.  A run under the logging handler is the run
under the handler itself, and its log lists the calls that come up in the run, each with the data
from which it is answered.

What holds of the state of the analysis at the beginning of a run, and is kept by every call, holds
whenever a call comes up and at the end of the run.  Handlers that answer alike the calls that come
up lead to the same run.  And nothing but the answers to these calls leads from the state at the
beginning to the one at the end.
-/
import Mathlib
import Roundoff.Proofs.Transfer.Simulation

namespace Roundoff

variable {R σ : Type}

/-- A call of a function with a body, with the data from which it is answered. -/
structure Call (R σ : Type) where
  /-- The state of the analysis of the whole program. -/
  world : σ
  /-- The function that makes the call. -/
  caller : Function R
  /-- The called function. -/
  callee : Function R
  /-- The actual parameters. -/
  args : List (Value R)
  /-- The store of the caller. -/
  store : Store R
  /-- The first symbol in supply. -/
  supply : Symbol

namespace CallHandler

/-- The answer to a call: the store of the caller and the state of the analysis after the call, and
the first symbol in supply then. -/
def answer (h : CallHandler R σ) (c : Call R σ) : (Store R × σ) × Symbol :=
  h.analyse c.world c.caller c.callee c.args c.store c.supply

/-- The handler that answers calls alike and keeps a log of them. -/
def logged (h : CallHandler R σ) : CallHandler R (σ × List (Call R σ)) where
  analyse w caller callee args s n :=
    let c : Call R σ := ⟨w.1, caller, callee, args, s, n⟩
    let r := h.answer c
    ((r.1.1, r.1.2, w.2 ++ [c]), r.2)
  returned? w := h.returned? w.1

/-- The answers to some calls lead from a state of the analysis to another: each call comes up in
the state in which the one before it has left the analysis. -/
inductive Leads (h : CallHandler R σ) (w : σ) : List (Call R σ) → σ → Prop
  /-- There is no call. -/
  | nil : Leads h w [] w
  /-- At last a call is answered. -/
  | snoc {cs : List (Call R σ)} {c : Call R σ} (hcs : Leads h w cs c.world) :
    Leads h w (cs ++ [c]) (h.answer c).1.2

end CallHandler

variable [Number R]

namespace Body

variable {b : Body R} {h h' : CallHandler R σ} {a : Activation R} {w : σ} {P : σ → Prop}
  {log : List (Call R σ)} {i : Instruction R} {edges : PhiEdges}

/-! ## Logging -/

/-- Answering a call is all that a run does to the state of the analysis. -/
lemma functionCall_world (callee : Function R) (args : List (Value R)) (n : Symbol) :
    (b.functionCall h a w i callee args n).1.2.2
      = (h.answer ⟨w, b.function, callee, args, a.store, n⟩).1.2 := by
  obtain ⟨_, _, -, heq⟩ := functionCall_eq (b := b) (a := a) (i := i) h callee args n
  rw [heq]
  rfl

/-- The calls that come up when a schedule is run. -/
def callsOf (b : Body R) (h : CallHandler R σ) (a : Activation R) (w : σ) (schedule : Schedule)
    (n : Symbol) : List (Call R σ) :=
  (b.runSchedule h.logged a (w, []) schedule n).1.world.2

/-- **The answers to the calls of a run lead from its beginning to its end.** -/
theorem callsOf_leads (b : Body R) (h : CallHandler R σ) (a : Activation R) (w : σ)
    (schedule : Schedule) (n : Symbol) :
    h.Leads w (b.callsOf h a w schedule n) (b.runSchedule h a w schedule n).1.world := by
  have hsim : h.logged.Simulates h b.module b.function fun v w' => v.1 = w' ∧ h.Leads w v.2 w' := by
    refine ⟨?_, ?_⟩
    · rintro v _ ⟨rfl, -⟩ id
      rfl
    · rintro ⟨v, log⟩ _ ⟨rfl, hlog⟩ callee hcallee args s n
      exact ⟨⟨rfl, rfl, .snoc (c := ⟨v, b.function, callee, args, s, n⟩) hlog⟩, rfl⟩
  exact (runSchedule_alike hsim (a := a) ⟨rfl, .nil⟩ schedule n).1.world.2

/-! ## Invariants -/

/-- What holds of the states of the analysis is kept by the calls of a function. -/
def Keeps (b : Body R) (h : CallHandler R σ) (P : σ → Prop) : Prop :=
  ∀ c : Call R σ, c.caller = b.function → c.callee ∈ b.module.functions → P c.world →
    P (h.answer c).1.2

/-- A call that may come up in a run: it is made by the function of the body, and what every call
keeps holds of the state in which it comes up. -/
structure IsCallIn (b : Body R) (P : σ → Prop) (c : Call R σ) : Prop where
  /-- The function of the body makes the call. -/
  caller_eq : c.caller = b.function
  /-- The called function belongs to the module. -/
  callee_mem : c.callee ∈ b.module.functions
  /-- The state of the analysis is as wanted. -/
  world : P c.world

omit [Number R] in
/-- A run under the logging handler goes like the run without a log, and what every call keeps holds
all along. -/
lemma logged_simulates (hkeep : b.Keeps h P) : h.logged.Simulates h b.module b.function
    fun w w' => w.1 = w' ∧ P w' ∧ ∀ c ∈ w.2, b.IsCallIn P c where
  returned_eq := by
    rintro w _ ⟨rfl, -⟩ id
    rfl
  analyse := by
    rintro ⟨v, log⟩ _ ⟨rfl, hP, hlog⟩ callee hcallee args s n
    refine ⟨⟨rfl, rfl, hkeep ⟨v, b.function, callee, args, s, n⟩ rfl hcallee hP, ?_⟩, rfl⟩
    intro c hc
    rcases List.mem_append.1 hc with hc | hc
    · exact hlog c hc
    · obtain rfl := List.mem_singleton.1 hc
      exact ⟨rfl, hcallee, hP⟩

section Invariant

variable (hkeep : b.Keeps h P) (hP : P w) (schedule : Schedule) (n : Symbol)

include hkeep hP

lemma runSchedule_logged : Outcome.Matches
    (fun w w' => w.1 = w' ∧ P w' ∧ ∀ c ∈ w.2, b.IsCallIn P c)
    (b.runSchedule h.logged a (w, []) schedule n).1 (b.runSchedule h a w schedule n).1 :=
  (runSchedule_alike (logged_simulates hkeep) ⟨rfl, hP, by simp⟩ schedule n).1

/-- **What every call keeps holds of every call that comes up.** -/
theorem isCallIn_of_mem_callsOf {c : Call R σ} (hc : c ∈ b.callsOf h a w schedule n) :
    b.IsCallIn P c :=
  (runSchedule_logged hkeep hP schedule n).world.2.2 c hc

/-- **What every call keeps holds at the end of a run.** -/
theorem runSchedule_keeps : P (b.runSchedule h a w schedule n).1.world :=
  (runSchedule_logged hkeep hP schedule n).world.2.1

/-- **Handlers that answer alike the calls that come up lead to the same run.** -/
theorem runSchedule_congr (hreturned : h.returned? = h'.returned?)
    (hanswer : ∀ c, b.IsCallIn P c → h.answer c = h'.answer c) :
    b.runSchedule h a w schedule n = b.runSchedule h' a w schedule n := by
  -- the states of the analysis stay the same, so the same calls come up
  have hsim : h.Simulates h' b.module b.function fun w w' => w = w' ∧ P w := by
    refine ⟨?_, ?_⟩
    · rintro v _ ⟨rfl, -⟩ id
      rw [hreturned]
    · rintro v _ ⟨rfl, hv⟩ callee hcallee args s n
      have hc : b.IsCallIn P ⟨v, b.function, callee, args, s, n⟩ := ⟨rfl, hcallee, hv⟩
      have heq : h.analyse v b.function callee args s n = h'.analyse v b.function callee args s n :=
        hanswer _ hc
      rw [← heq]
      exact ⟨⟨rfl, rfl, hkeep _ rfl hcallee hc.world⟩, rfl⟩
  obtain ⟨hmatch, hsupply⟩ := runSchedule_alike hsim (a := a) ⟨rfl, hP⟩ schedule n
  exact Prod.ext (hmatch.eq fun _ _ h => h.1) hsupply

end Invariant

end Body

end Roundoff
