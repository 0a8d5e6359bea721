/-
# Calls between a store and a load

A call that may write counts as a write to every address.  So it hides the stores before it from all
loads after it, also from loads of stack slots whose addresses the callee cannot know, and what the
loads are given is looked up along their addresses.  Apart from that, calls make no difference: on a
path on which no call comes after the last store, the load is given what it would be given without
the calls.
-/
import Mathlib
import Roundoff.Proofs.Memory.Sources

namespace Roundoff

variable {R : Type} {m : Module R} {f : Function R} {address : Origin} {i : Instruction R}
  {is : List (Instruction R)}

namespace Function

/-- The last of some instructions that may write and is not proved to miss an address, if the calls
are left out. -/
def lastStore? (f : Function R) (m : Module R) (address : Origin) (is : List (Instruction R)) :
    Option (Instruction R) :=
  f.lastWrite? m address (is.filter fun i => !i.isCall)

/-- A call is the last write of some instructions. -/
def EndsInCall (f : Function R) (m : Module R) (address : Origin) (is : List (Instruction R)) :
    Prop :=
  ∃ i, f.lastWrite? m address is = some i ∧ i.isCall = true

/-- Without a call after it the last store is the last write. -/
lemma lastWrite?_eq_lastStore? (h : ¬ f.EndsInCall m address is) :
    f.lastWrite? m address is = f.lastStore? m address is := by
  have hcomm : (is.filter fun i => !i.isCall).filter (fun i => m.mayWrite i && !f.misses address i)
      = (is.filter fun i => m.mayWrite i && !f.misses address i).filter fun i => !i.isCall := by
    rw [List.filter_filter, List.filter_filter]
    exact List.filter_congr fun i _ => Bool.and_comm _ _
  rw [EndsInCall, lastWrite?] at h
  rw [lastStore?, lastWrite?, lastWrite?, hcomm]
  generalize is.filter (fun i => m.mayWrite i && !f.misses address i) = writes at h ⊢
  cases hlast : writes.getLast? with
  | none => simp [List.getLast?_eq_none_iff.1 hlast]
  | some i =>
    have hcall : i.isCall = false := by
      by_contra hi
      exact h ⟨i, hlast, Bool.eq_true_of_not_eq_false hi⟩
    obtain ⟨ws, rfl⟩ := List.getLast?_eq_some_iff.1 hlast
    simp [List.filter_append, hcall]

/-- What is read after a call is looked up along the address. -/
lemma Supplies.firstRecord {records : Records R} {load : Instruction R} {e : Estimate R}
    (h : f.Supplies records load (f.lastWrite? m address is) e)
    (hcall : f.EndsInCall m address is) :
    f.FirstRecord records load e := by
  obtain ⟨i, hi, hicall⟩ := hcall
  rw [hi] at h
  cases h with
  | store hi' => exact absurd (hicall.symm.trans hi') nofun
  | call _ he => exact he

end Function

namespace Memory

variable {records : Records R} {load : Instruction R} {e : Estimate R} {b : BlockId}
  {before after : List (Instruction R)} {ptr : Value R} [Number R]

/-- **Calls hide stores, and nothing else.**  A record that a load is given is looked up along the
address, or it is the record of the last store on a path to the load, the calls left out.  The
record of such a store is given if no call after it may write. -/
theorem sources_with_calls (hplace : f.InstsInPlace) (honce : f.ListedOnce)
    (hreach : ∃ bs, (FlowGraph.of f).Path b bs) (hblock : f.blockInsts b = before ++ load :: after)
    (hload : load.op = .load ptr) :
    (∀ e ∈ (Memory.of m f).sources f records load.id, f.FirstRecord records load e ∨
      ∃ bs, (FlowGraph.of f).Path b bs ∧
        f.Supplies records load (f.lastStore? m (Origin.of f ptr) (passed f bs ++ before)) e) ∧
    (∀ bs e, (FlowGraph.of f).Path b bs →
      ¬ f.EndsInCall m (Origin.of f ptr) (passed f bs ++ before) →
      f.Supplies records load (f.lastStore? m (Origin.of f ptr) (passed f bs ++ before)) e →
      e ∈ (Memory.of m f).sources f records load.id ∨
        ∃ e' ∈ (Memory.of m f).sources f records load.id, (e == e') = true) := by
  obtain ⟨hsound, hcomplete, -⟩ := sources_exact m f records hplace honce hreach hblock hload
  refine ⟨fun e he => ?_, fun bs e hbs hcall he => ?_⟩
  · obtain ⟨bs, hbs, hsupplies⟩ := hsound e he
    by_cases hcall : f.EndsInCall m (Origin.of f ptr) (passed f bs ++ before)
    · exact .inl (hsupplies.firstRecord hcall)
    · exact .inr ⟨bs, hbs, Function.lastWrite?_eq_lastStore? hcall ▸ hsupplies⟩
  · exact hcomplete bs e hbs (Function.lastWrite?_eq_lastStore? hcall ▸ he)

/-- **A load that comes after calls**, or before all writes, is given the record along its address,
whatever has been stored before the calls. -/
theorem mem_sources_iff_of_calls (hplace : f.InstsInPlace) (honce : f.ListedOnce)
    (hreach : ∃ bs, (FlowGraph.of f).Path b bs) (hblock : f.blockInsts b = before ++ load :: after)
    (hload : load.op = .load ptr)
    (hcalls : ∀ bs, (FlowGraph.of f).Path b bs → ∀ i,
      f.lastWrite? m (Origin.of f ptr) (passed f bs ++ before) = some i → i.isCall = true) :
    e ∈ (Memory.of m f).sources f records load.id ↔ f.FirstRecord records load e := by
  obtain ⟨hsound, hcomplete, -⟩ := sources_exact m f records hplace honce hreach hblock hload
  have hfirst : ∀ e ∈ (Memory.of m f).sources f records load.id, f.FirstRecord records load e := by
    intro e he
    obtain ⟨bs, hbs, hsupplies⟩ := hsound e he
    cases hlast : f.lastWrite? m (Origin.of f ptr) (passed f bs ++ before) with
    | none =>
      rw [hlast] at hsupplies
      cases hsupplies with
      | none he => exact he
    | some i => exact hsupplies.firstRecord ⟨i, hlast, hcalls bs hbs i hlast⟩
  refine ⟨hfirst e, fun he => ?_⟩
  obtain ⟨bs, hbs⟩ := hreach
  have hsupplies : f.Supplies records load
      (f.lastWrite? m (Origin.of f ptr) (passed f bs ++ before)) e := by
    cases hlast : f.lastWrite? m (Origin.of f ptr) (passed f bs ++ before) with
    | none => exact .none he
    | some i => exact .call (hcalls bs hbs i hlast) he
  rcases hcomplete bs e hbs hsupplies with hmem | ⟨e', hmem, -⟩
  · exact hmem
  · -- there is only one record along the address
    have hinst : f.inst? load.id = some load :=
      hplace.inst?_of_mem_blockInsts (hblock ▸ List.mem_append_right _ List.mem_cons_self)
    have he' := (Function.addressRecord?_eq_some_iff hinst).2 (hfirst e' hmem)
    have he := (Function.addressRecord?_eq_some_iff hinst).2 he
    exact Option.some.inj (he'.symm.trans he) ▸ hmem

/-- **A load along an address that no instruction computes**, as the one of a formal parameter or of
a global variable, is given the record of the address if it comes after calls or before all writes. -/
theorem mem_sources_iff_of_definition?_eq_none (hplace : f.InstsInPlace) (honce : f.ListedOnce)
    (hreach : ∃ bs, (FlowGraph.of f).Path b bs) (hblock : f.blockInsts b = before ++ load :: after)
    (hload : load.op = .load ptr) (hdef : f.definition? ptr = none)
    (hcalls : ∀ bs, (FlowGraph.of f).Path b bs → ∀ i,
      f.lastWrite? m (Origin.of f ptr) (passed f bs ++ before) = some i → i.isCall = true) :
    e ∈ (Memory.of m f).sources f records load.id ↔ (Key.of? f.id ptr).bind records = some e := by
  rw [mem_sources_iff_of_calls hplace honce hreach hblock hload hcalls]
  exact Function.firstRecord_iff_of_definition?_eq_none (by rw [Instruction.pointer?, hload]) hdef

end Memory

end Roundoff
