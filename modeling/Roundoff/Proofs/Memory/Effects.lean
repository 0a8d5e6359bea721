/-
# Which calls memory is followed through

A memory state is made by every reachable store, and by every reachable call that is not known by
the name of the callee to leave memory as it is, and by nothing else.

Whether a call is followed into its callee is decided differently: the callee has a body, and its
name is not that of an elementary routine.  So the two agree on a call that is followed unless the
callee bears the name of one of the other routines that leave memory alone.  Such a call is
followed, and what the callee writes is merged, but no memory state is made for it.
-/
import Mathlib
import Roundoff.Proofs.Memory.Blocks
import Roundoff.Proofs.Transfer.Visits

namespace Roundoff

variable {R : Type} {m : Module R} {f : Function R}

namespace Memory

variable {g : FlowGraph} {order joins bs : List BlockId} {p : Progress} {b : BlockId}
  {r : Memory × StateId} {s before : StateId} {i : Instruction R} {is : List (Instruction R)}
  {id : InstId}

/-- Memory has a state that the instruction has written. -/
def Defines (mem : Memory) (id : InstId) : Prop :=
  ∃ s before, mem.state? s = some (.written id before)

/-! ## Who writes a state -/

/-- A written state is an old one, or the instruction has written it. -/
lemma written_step (h : (step m f r i).1.state? s = some (.written id before)) :
    r.1.state? s = some (.written id before) ∨ i.id = id ∧ m.mayWrite i = true := by
  obtain ⟨mem, t⟩ := r
  cases hi : m.mayWrite i with
  | false => exact .inl (by rwa [state?, (step_of_not_mayWrite hi).2] at h)
  | true =>
    rw [state?, (step_of_mayWrite hi).2, Array.getElem?_push] at h
    split at h
    · cases h
      exact .inr ⟨rfl, rfl⟩
    · exact .inl h

lemma written_foldl_step (h : (is.foldl (step m f) r).1.state? s = some (.written id before)) :
    r.1.state? s = some (.written id before) ∨ ∃ i ∈ is, i.id = id ∧ m.mayWrite i = true := by
  induction is generalizing r with
  | nil => exact .inl h
  | cons i is ih =>
    rcases ih h with hold | ⟨j, hj, hwrite⟩
    · exact (written_step hold).imp_right fun hwrite => ⟨i, List.mem_cons_self, hwrite⟩
    · exact .inr ⟨j, List.mem_cons_of_mem _ hj, hwrite⟩

lemma written_foldl_stepBlock (h : (bs.foldl (stepBlock m f g order joins) p).memory.state? s
      = some (.written id before)) :
    p.memory.state? s = some (.written id before) ∨
      ∃ b ∈ bs, ∃ i ∈ f.blockInsts b, i.id = id ∧ m.mayWrite i = true := by
  induction bs generalizing p with
  | nil => exact .inl h
  | cons b bs ih =>
    rcases ih h with hold | ⟨c, hc, hwrite⟩
    · exact (written_foldl_step hold).imp_right fun hwrite => ⟨b, List.mem_cons_self, hwrite⟩
    · exact .inr ⟨c, List.mem_cons_of_mem _ hc, hwrite⟩

/-- A state is written by an instruction in a reachable block that may write. -/
lemma Defines.exists_inst (h : (Memory.of m f).Defines id) :
    ∃ b ∈ Memory.order f, ∃ i ∈ f.blockInsts b, i.id = id ∧ m.mayWrite i = true := by
  obtain ⟨s, before, hs⟩ := h
  refine (written_foldl_stepBlock (state?_of_eq_written.1 hs)).resolve_left fun hnil => ?_
  -- at the beginning there are the initial state and the joins
  have hstates := (state?_following_nil (m := m) s).symm.trans hnil
  cases s with
  | zero => cases hstates
  | succ n => simp at hstates

/-- On the way over instructions every one that may write has written a state. -/
lemma Leads.defines {mem : Memory} {t : StateId} (h : mem.Leads m s is t) (hi : i ∈ is)
    (hwrite : m.mayWrite i = true) : mem.Defines i.id := by
  induction h with
  | nil => cases hi
  | keep _ hkeep ih =>
    rcases List.mem_append.1 hi with hi | hi
    · exact ih hi
    · obtain rfl := List.mem_singleton.1 hi
      rw [hkeep] at hwrite
      cases hwrite
  | write _ _ hu ih =>
    rcases List.mem_append.1 hi with hi | hi
    · exact ih hi
    · obtain rfl := List.mem_singleton.1 hi
      exact ⟨_, _, hu⟩

/-- **The reachable instructions that may write** are those that have memory states of their own. -/
theorem defines_iff_mayWrite (hf : f.InstsInPlace) (hb : b ∈ Memory.order f)
    (hi : i ∈ f.blockInsts b) : (Memory.of m f).Defines i.id ↔ m.mayWrite i = true := by
  constructor
  · intro h
    obtain ⟨c, -, j, hj, hid, hwrite⟩ := h.exists_inst
    -- an instruction is told from the others by its position
    have hinst := hf.inst?_of_mem_blockInsts hj
    rw [hid, hf.inst?_of_mem_blockInsts hi] at hinst
    cases hinst
    exact hwrite
  · exact (leads_of hb).defines hi

end Memory

/-! ## Calls that are followed -/

/-- A callee with a body has the name of the function. -/
lemma Module.calleeName?_of_calleeBody? {site : Callee R} {callee : Function R}
    (h : m.calleeBody? site = some callee) : m.calleeName? site = some callee.name := by
  obtain ⟨id, hid, hget⟩ := Option.bind_eq_some_iff.1 (Option.filter_eq_some_iff.1 h).1
  cases site with
  | external name => cases hid
  | direct | indirect =>
    rw [calleeName?, hid, Option.bind_some, hget, Option.map_some]
    nofun

section Calls

variable {settings : Settings} {body : Body R} {callee : Function R}
  {args : List (Value R)} {b : BlockId} {i : Instruction R}

/-- The calls that are followed are those of functions with a body that are not taken for elementary
routines. -/
lemma Body.calledBody?_eq_some_iff : body.calledBody? i = some (callee, args) ↔
    ∃ site, i.op.callSite? = some (site, args) ∧ body.routine? site = none ∧
      body.module.calleeBody? site = some callee := by
  rw [calledBody?, Option.bind_eq_some_iff]
  constructor
  · rintro ⟨⟨site, args'⟩, hsite, hbody⟩
    dsimp only at hbody
    split at hbody
    · cases hbody
    · next hroutine =>
      obtain ⟨g, hg, heq⟩ := Option.map_eq_some_iff.1 hbody
      cases heq
      exact ⟨site, hsite, Option.not_isSome_iff_eq_none.1 hroutine, hg⟩
  · rintro ⟨site, hsite, hroutine, hg⟩
    refine ⟨(site, args), hsite, ?_⟩
    dsimp only
    rw [hroutine, hg]
    rfl

/-- A call that is followed counts as one that may write, unless the callee has the name of a
routine that leaves memory alone. -/
lemma Body.mayWrite_of_calledBody? (h : body.calledBody? i = some (callee, args)) :
    body.module.mayWrite i = !pureRoutines.contains callee.name := by
  obtain ⟨site, hsite, hroutine, hbody⟩ := calledBody?_eq_some_iff.1 h
  have hcall : body.module.mayWrite i = !body.module.isPureCall site := by
    rw [Module.mayWrite]
    cases hop : i.op with
    | call | invoke =>
      rw [hop] at hsite
      cases hsite
      rfl
    | _ =>
      rw [hop] at hsite
      cases hsite
  have hname := Module.calleeName?_of_calleeBody? hbody
  rw [routine?, hname, Option.bind_some] at hroutine
  rw [hcall, Module.isPureCall, hname]
  dsimp only
  rw [hroutine, Option.isSome_none, Bool.false_or]

/-- **A call that is followed has a memory state** of its own if and only if the callee does not
have the name of a routine that leaves memory alone. -/
theorem Body.defines_iff_of_calledBody? (hf : f.InstsInPlace) (hb : b ∈ Memory.order f)
    (hi : i ∈ f.blockInsts b) (h : (Body.of m settings f).calledBody? i = some (callee, args)) :
    (Body.of m settings f).memory.Defines i.id ↔ callee.name ∉ pureRoutines := by
  have hwrite : m.mayWrite i = !pureRoutines.contains callee.name :=
    (Body.of m settings f).mayWrite_of_calledBody? h
  refine (Memory.defines_iff_mayWrite hf hb hi).trans ?_
  rw [hwrite, Bool.not_eq_true', ← Bool.not_eq_true, List.contains_iff_mem]

/-- No function with a body has the name of a routine that leaves memory alone. -/
def Module.SparesPureRoutines (m : Module R) : Prop :=
  ∀ g ∈ m.functions, g.isDeclaration = false → g.name ∉ pureRoutines

/-- **In a valid module that spares these names** every reachable call that is followed has a memory
state of its own. -/
theorem Module.SparesPureRoutines.defines (hnames : m.SparesPureRoutines)
    (hm : m.validate = .ok ()) {id : FunctionId} (hf : m.function? id = some f)
    (hb : b ∈ Memory.order f) (hi : i ∈ f.blockInsts b)
    (h : (Body.of m settings f).calledBody? i = some (callee, args)) :
    (Body.of m settings f).memory.Defines i.id := by
  refine (Body.defines_iff_of_calledBody? (instsInPlace_of_validate hm hf) hb hi h).2 ?_
  obtain ⟨site, -, -, hbody⟩ := Body.calledBody?_eq_some_iff.1 h
  have hdefined : callee.isDeclaration = false := by
    simpa using (Option.filter_eq_some_iff.1 hbody).2
  exact hnames callee (mem_of_calleeBody? hbody) hdefined

end Calls

end Roundoff
