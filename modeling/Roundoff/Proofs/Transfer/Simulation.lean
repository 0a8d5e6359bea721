/-
# Runs under different call handlers

A run through a body knows the state of the analysis of the whole program only from the answers to
its calls.  So if two handlers answer calls alike, from states that are related in some way, and
leave related states behind, then runs under them find the same and end in related states.  There is
one lemma for each level of a run, from calls up to schedules.

Comparing a handler with itself, where the relation says of a state what every call keeps, shows
that a run keeps it.
-/
import Mathlib
import Roundoff.Analysis.Calls
import Roundoff.Proofs.Transfer.Runs

namespace Roundoff

variable {R σ τ α β γ δ : Type}

/-! ## Computations -/

/-- From every symbol on, two computations leave off at the same symbol, and their results are
related. -/
def Fresh.Alike (m : Fresh α) (m' : Fresh β) (P : α → β → Prop) : Prop :=
  ∀ n, P (m n).1 (m' n).1 ∧ (m n).2 = (m' n).2

namespace Fresh

variable {m : Fresh α} {m' : Fresh β} {P : α → β → Prop} {Q : γ → δ → Prop}

lemma alike_pure {a : α} {b : β} (h : P a b) : Alike (pure a) (pure b) P := fun _ => ⟨h, rfl⟩

lemma alike_refl (m : Fresh α) : m.Alike m Eq := fun _ => ⟨rfl, rfl⟩

lemma Alike.bind {f : α → Fresh γ} {f' : β → Fresh δ} (hm : m.Alike m' P)
    (hf : ∀ a b, P a b → (f a).Alike (f' b) Q) : (m >>= f).Alike (m' >>= f') Q := by
  intro n
  obtain ⟨hP, hn⟩ := hm n
  rw [bind_apply, bind_apply, ← hn]
  exact hf _ _ hP _

/-- Computations that go on alike after the same one. -/
lemma alike_bind_left {m : Fresh α} {f : α → Fresh γ} {f' : α → Fresh δ}
    (hf : ∀ a, (f a).Alike (f' a) Q) : (m >>= f).Alike (m >>= f') Q :=
  (alike_refl m).bind fun a _ h => h ▸ hf a

end Fresh

/-! ## Handlers -/

/-- Two visits with the same answer and state, and related states of the analysis of the whole
program. -/
structure Outcome.Matches (S : σ → τ → Prop) (o : Outcome R σ α) (o' : Outcome R τ α) : Prop where
  /-- The answers are the same. -/
  answer_eq : o.answer = o'.answer
  /-- The states of the activation are the same. -/
  state_eq : o.state = o'.state
  /-- The states of the analysis are related. -/
  world : S o.world o'.world

lemma Outcome.Matches.eq {S : σ → σ → Prop} {o o' : Outcome R σ α} (h : o.Matches S o')
    (hS : ∀ w w', S w w' → w = w') : o = o' := by
  obtain ⟨answer, a, w⟩ := o
  obtain ⟨answer', a', w'⟩ := o'
  obtain ⟨rfl, rfl, hw⟩ := h
  obtain rfl := hS w w' hw
  rfl

/-- Two handlers answer the calls of a function alike if the states of the analysis are related, and
leave related states behind. -/
structure CallHandler.Simulates (h : CallHandler R σ) (h' : CallHandler R τ) (m : Module R)
    (caller : Function R) (S : σ → τ → Prop) : Prop where
  /-- They know of the same returned errors. -/
  returned_eq : ∀ w w', S w w' → ∀ id, h.returned? w id = h'.returned? w' id
  /-- They analyse calls alike. -/
  analyse : ∀ w w', S w w' → ∀ callee ∈ m.functions, ∀ args s,
    (h.analyse w caller callee args s).Alike (h'.analyse w' caller callee args s)
      fun r r' => r.1 = r'.1 ∧ S r.2 r'.2

/-! ## Visits -/

variable [Number R]

namespace Body

variable {b : Body R} {h : CallHandler R σ} {h' : CallHandler R τ} {S : σ → τ → Prop}
  {a : Activation R} {w : σ} {w' : τ} {i : Instruction R} {edges : PhiEdges}

omit [Number R] in
lemma attempt_alike (hw : S w w') (rule : Attempt (Activation R)) :
    (attempt a w rule).Alike (attempt a w' rule) (Outcome.Matches S) := by
  refine Fresh.alike_bind_left fun o => ?_
  cases o with
  | none => exact Fresh.alike_pure ⟨rfl, rfl, hw⟩
  | some a' => exact Fresh.alike_pure ⟨rfl, rfl, hw⟩

variable (hsim : h.Simulates h' b.module b.function S)

include hsim

lemma functionCall_alike (hw : S w w') {callee : Function R} (hcallee : callee ∈ b.module.functions)
    (args : List (Value R)) : (b.functionCall h a w i callee args).Alike
      (b.functionCall h' a w' i callee args)
      fun r r' => r.1 = r'.1 ∧ r.2.1 = r'.2.1 ∧ S r.2.2 r'.2.2 := by
  refine (hsim.analyse w w' hw callee hcallee args a.store).bind ?_
  rintro ⟨s, v⟩ ⟨_, v'⟩ ⟨rfl, hv⟩
  have hreturned : returnedError? h v s callee.id = returnedError? h' v' s callee.id := by
    rw [returnedError?, returnedError?, hsim.returned_eq v v' hv]
  dsimp only
  rw [hreturned]
  split
  · exact Fresh.alike_pure ⟨rfl, rfl, hv⟩
  · exact Fresh.alike_pure ⟨rfl, rfl, hv⟩

lemma call_alike (hw : S w w') (callee : Callee R) (args : List (Value R)) :
    (b.call h a w i callee args).Alike (b.call h' a w' i callee args) (Outcome.Matches S) := by
  rw [call, call]
  split
  · split
    · exact Fresh.alike_pure ⟨rfl, rfl, hw⟩
    · exact attempt_alike hw _
  · split
    · exact Fresh.alike_pure ⟨rfl, rfl, hw⟩
    · next f hf =>
      refine (functionCall_alike hsim hw (Module.mem_of_calleeBody? hf) args).bind ?_
      rintro ⟨found, a', v⟩ ⟨_, _, v'⟩ ⟨rfl, rfl, hv⟩
      exact Fresh.alike_pure ⟨rfl, rfl, hv⟩

lemma operate_alike (hw : S w w') :
    (b.operate h edges a w i).Alike (b.operate h' edges a w' i) (Outcome.Matches S) := by
  rw [operate, operate]
  cases i.op with
  | alloca ty =>
    refine Fresh.alike_bind_left fun r => ?_
    split
    · exact Fresh.alike_pure ⟨rfl, rfl, hw⟩
    · exact Fresh.alike_pure ⟨rfl, rfl, hw⟩
    · exact Fresh.alike_pure ⟨rfl, rfl, hw⟩
  | call callee args | invoke callee args _ _ => exact call_alike hsim hw callee args
  | br | condBr | unreachable => exact Fresh.alike_pure ⟨rfl, rfl, hw⟩
  | _ => exact attempt_alike hw _

lemma visit_alike (hw : S w w') :
    (b.visit h edges a w i).Alike (b.visit h' edges a w' i) (Outcome.Matches S) := by
  rw [visit, visit]
  split
  · exact Fresh.alike_pure ⟨rfl, rfl, hw⟩
  · split
    · exact operate_alike hsim hw
    · split
      · exact Fresh.alike_bind_left fun s => Fresh.alike_pure ⟨rfl, rfl, hw⟩
      · exact operate_alike hsim hw

lemma visitAll_alike (hw : S w w') (is : List (Instruction R)) (count : ℕ) :
    (b.visitAll h edges count a w is).Alike (b.visitAll h' edges count a w' is)
      (Outcome.Matches S) := by
  induction is generalizing a w w' count with
  | nil => exact Fresh.alike_pure ⟨rfl, rfl, hw⟩
  | cons i is ih =>
    rw [visitAll, visitAll]
    refine (visit_alike hsim hw).bind ?_
    rintro ⟨answer, a', v⟩ ⟨_, _, v'⟩ ⟨rfl, rfl, hv⟩
    cases answer with
    | error fault => exact Fresh.alike_pure ⟨rfl, rfl, hv⟩
    | ok found => exact ih hv _

lemma visitBlock_alike (hw : S w w') (v : Visit) :
    (b.visitBlock h v a w).Alike (b.visitBlock h' v a w') (Outcome.Matches S) :=
  visitAll_alike hsim hw _ 0

/-! ## Runs -/

lemma runVisits_alike (hw : S w w') (vs : List Visit) :
    (b.runVisits h a w vs).Alike (b.runVisits h' a w' vs) (Outcome.Matches S) := by
  induction vs generalizing a w w' with
  | nil => exact Fresh.alike_pure ⟨rfl, rfl, hw⟩
  | cons v vs ih =>
    rw [runVisits, runVisits]
    refine (visitBlock_alike hsim hw v).bind ?_
    rintro ⟨answer, a', u⟩ ⟨_, _, u'⟩ ⟨rfl, rfl, hu⟩
    cases answer with
    | error fault => exact Fresh.alike_pure ⟨rfl, rfl, hu⟩
    | ok count => exact ih hu

lemma runItem_alike (hw : S w w') (item : ScheduleItem) :
    (b.runItem h a w item).Alike (b.runItem h' a w' item) (Outcome.Matches S) := by
  cases item with
  | visit v => exact runVisits_alike hsim hw [v]
  | closedForm header tripCount fallback =>
    rw [runItem, runItem]
    refine Fresh.alike_bind_left fun r => ?_
    split
    · exact Fresh.alike_pure ⟨rfl, rfl, hw⟩
    · exact runVisits_alike hsim hw fallback

/-- **Runs under handlers that answer calls alike** find the same. -/
theorem runSchedule_alike (hw : S w w') (schedule : Schedule) :
    (b.runSchedule h a w schedule).Alike (b.runSchedule h' a w' schedule) (Outcome.Matches S) := by
  induction schedule generalizing a w w' with
  | nil => exact Fresh.alike_pure ⟨rfl, rfl, hw⟩
  | cons item items ih =>
    rw [runSchedule, runSchedule]
    refine (runItem_alike hsim hw item).bind ?_
    rintro ⟨answer, a', u⟩ ⟨_, _, u'⟩ ⟨rfl, rfl, hu⟩
    cases answer with
    | error fault => exact Fresh.alike_pure ⟨rfl, rfl, hu⟩
    | ok _ => exact ih hu

end Body

end Roundoff
