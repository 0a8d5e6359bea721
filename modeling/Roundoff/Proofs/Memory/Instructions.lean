/-
# Memory states through a list of instructions

Every instruction that may write makes a state over the one before it, and any other instruction
leaves the states as they are.  So the states lead from the first one, over the instructions, to the
last one, and states are only ever added.  Beside the states, the origins of all addresses are
recorded, and for a load the state that it reads.
-/
import Mathlib
import Roundoff.Proofs.Memory.Walk
import Roundoff.Proofs.Program.Positions
import Roundoff.Proofs.Store

namespace Roundoff

variable {R : Type} {m : Module R} {f : Function R}

/-- Whether an instruction may write memory: a store, or a call that is not known to leave memory as
it is. -/
def Module.mayWrite (m : Module R) (i : Instruction R) : Bool :=
  match i.op with
  | .store _ _ => true
  | .call callee _ | .invoke callee _ _ _ => !m.isPureCall callee
  | _ => false

/-- The address that an instruction loads from or stores to. -/
def Instruction.address? (i : Instruction R) : Option (Value R) :=
  match i.op with
  | .load ptr | .store _ ptr => some ptr
  | _ => none

namespace Memory

variable {mem mem' mem'' : Memory} {s t u : StateId} {i : Instruction R}
  {is js : List (Instruction R)}
  {id : InstId}

/-! ## One instruction -/

@[simp] lemma state?_push (mem : Memory) (x : MemoryState) (s : StateId) :
    (mem.push x).2.state? s = if s = mem.states.size then some x else mem.state? s := by
  rw [push, state?, state?, Array.getElem?_push]

/-- An instruction that may write makes a state. -/
lemma step_of_mayWrite (hi : m.mayWrite i = true) :
    (step m f (mem, s) i).2 = mem.states.size ∧
      (step m f (mem, s) i).1.states = mem.states.push (.written i.id s) := by
  rw [Module.mayWrite] at hi
  unfold step
  split at hi
  · next v ptr hop => simp [hop, push]
  · next callee args hop => simp_all [push]
  · next callee args normal unwind hop => simp_all [push]
  · cases hi

/-- Any other instruction leaves the states as they are. -/
lemma step_of_not_mayWrite (hi : m.mayWrite i = false) :
    (step m f (mem, s) i).2 = s ∧ (step m f (mem, s) i).1.states = mem.states := by
  rw [Module.mayWrite] at hi
  unfold step
  cases hop : i.op with
  | store v ptr => simp [hop] at hi
  | call callee args => simp_all
  | invoke callee args normal unwind => simp_all
  | _ => simp [hop]

lemma loads_step (r : Memory × StateId) {ptr : Value R} (hop : i.op = .load ptr) :
    (step m f r i).1.loads = r.1.loads.insert i.id r.2 := by
  simp [step, hop]

lemma loads_step_of_ne (r : Memory × StateId) (hid : i.id ≠ id) :
    (step m f r i).1.loads.get? id = r.1.loads.get? id := by
  obtain ⟨mem, s⟩ := r
  unfold step
  cases hop : i.op with
  | load ptr => simp [hop, hid]
  | call callee args | invoke callee args normal unwind =>
    simp only [hop]
    split <;> rfl
  | _ => simp [hop, push]

/-- The origin of the address is recorded. -/
lemma origins_step (r : Memory × StateId) :
    (step m f r i).1.origins
      = i.address?.elim r.1.origins fun ptr => r.1.origins.insert i.id (Origin.of f ptr) := by
  obtain ⟨mem, s⟩ := r
  unfold step Instruction.address?
  cases hop : i.op with
  | call callee args | invoke callee args normal unwind =>
    simp only [hop]
    split <;> rfl
  | _ => simp [hop, push]

/-! ## Adding states -/

/-- All states of `mem`, and all origins that it knows of, are kept in `mem'`. -/
structure Extends (mem mem' : Memory) : Prop where
  state : ∀ {s x}, mem.state? s = some x → mem'.state? s = some x
  origin : ∀ {id}, (mem.origins.get? id).isSome → (mem'.origins.get? id).isSome

lemma Extends.refl (mem : Memory) : mem.Extends mem := ⟨id, id⟩

lemma Extends.trans (h : mem.Extends mem') (h' : mem'.Extends mem'') : mem.Extends mem'' :=
  ⟨fun hs => h'.state (h.state hs), fun hid => h'.origin (h.origin hid)⟩

lemma Extends.size_le (h : mem.Extends mem') : mem.states.size ≤ mem'.states.size := by
  by_contra hlt
  rw [not_le] at hlt
  have hstate : mem.state? mem'.states.size = some mem.states[mem'.states.size] :=
    Array.getElem?_eq_getElem hlt
  exact lt_irrefl _ (lt_size_of_state? (h.state hstate))

/-- The known origins are those of the addresses of instructions. -/
def OriginsOf (mem : Memory) (f : Function R) : Prop :=
  ∀ id o, mem.origins.get? id = some o → ∃ i ptr, f.inst? id = some i ∧ i.address? = some ptr ∧
    o = Origin.of f ptr

/-- The states lead from `s` over the instructions to `t`. -/
inductive Leads (m : Module R) (mem : Memory) (s : StateId) : List (Instruction R) → StateId → Prop
  /-- There are no instructions. -/
  | nil : Leads m mem s [] s
  /-- An instruction leaves memory as it is. -/
  | keep {is : List (Instruction R)} {i : Instruction R} {t : StateId} (h : Leads m mem s is t)
      (hi : m.mayWrite i = false) : Leads m mem s (is ++ [i]) t
  /-- An instruction may write. -/
  | write {is : List (Instruction R)} {i : Instruction R} {t u : StateId} (h : Leads m mem s is t)
      (hi : m.mayWrite i = true) (hu : mem.state? u = some (.written i.id t)) :
      Leads m mem s (is ++ [i]) u

lemma Leads.mono (h : mem.Leads m s is t)
    (hstate : ∀ {u i before}, mem.state? u = some (.written i before) →
      mem'.state? u = some (.written i before)) : mem'.Leads m s is t := by
  induction h with
  | nil => exact .nil
  | keep _ hi ih => exact ih.keep hi
  | write _ hi hu ih => exact ih.write hi (hstate hu)

/-! ## A list of instructions -/

/-- What following memory through instructions from the state `s` comes to. -/
structure Follows (m : Module R) (f : Function R) (mem : Memory) (s : StateId)
    (is : List (Instruction R)) (r : Memory × StateId) : Prop where
  /-- States are added only. -/
  extends_memory : mem.Extends r.1
  /-- The states refer to each other as they should. -/
  wellFormed : r.1.WellFormed
  /-- The last state exists. -/
  lt_size : r.2 < r.1.states.size
  /-- The states lead from the first to the last one. -/
  leads : r.1.Leads m s is r.2
  /-- Only origins of addresses are known. -/
  originsOf : (∀ i ∈ is, f.inst? i.id = some i) → mem.OriginsOf f → r.1.OriginsOf f
  /-- The origins of all addresses are known. -/
  origin : ∀ i ∈ is, i.address?.isSome → (r.1.origins.get? i.id).isSome

lemma WellFormed.of_push (hmem : mem.WellFormed) (hs : s < mem.states.size)
    (hstates : mem'.states = mem.states.push (.written id s)) : mem'.WellFormed := by
  have hstate (t : StateId) : mem'.state? t = if t = mem.states.size then some (.written id s)
      else mem.state? t := by
    rw [state?, hstates, Array.getElem?_push, state?]
  have hsize : mem.states.size ≤ mem'.states.size := by
    rw [hstates, Array.size_push]
    exact Nat.le_succ _
  constructor
  · intro t i before ht
    rw [hstate] at ht
    split at ht
    · next heq =>
      cases ht
      rwa [heq]
    · exact hmem.before_lt ht
  · intro t b ts ht u hu
    rw [hstate] at ht
    split at ht
    · cases ht
    · exact (hmem.incoming_lt ht u hu).trans_le hsize

lemma WellFormed.of_states_eq (hmem : mem.WellFormed) (hstates : mem'.states = mem.states) :
    mem'.WellFormed := by
  have hstate (t : StateId) : mem'.state? t = mem.state? t := by rw [state?, hstates, state?]
  constructor
  · intro t i before ht
    exact hmem.before_lt ((hstate t).symm.trans ht)
  · intro t b ts ht u hu
    rw [hstates]
    exact hmem.incoming_lt ((hstate t).symm.trans ht) u hu

lemma OriginsOf.step {r : Memory × StateId} (h : r.1.OriginsOf f) (hi : f.inst? i.id = some i) :
    (step m f r i).1.OriginsOf f := by
  intro id o ho
  rw [origins_step] at ho
  cases haddress : i.address? with
  | none =>
    rw [haddress] at ho
    exact h id o ho
  | some ptr =>
    rw [haddress, Option.elim_some, Table.get?_insert] at ho
    split at ho
    · next hid =>
      cases ho
      exact ⟨i, ptr, hid ▸ hi, haddress, rfl⟩
    · exact h id o ho

lemma isSome_origins_step {r : Memory × StateId}
    (h : (r.1.origins.get? id).isSome ∨ i.id = id ∧ i.address?.isSome) :
    ((step m f r i).1.origins.get? id).isSome := by
  rw [origins_step]
  cases haddress : i.address? with
  | none => simpa [haddress] using h
  | some ptr =>
    rw [Option.elim_some, Table.get?_insert]
    split
    · rfl
    · next hne =>
      rcases h with h | ⟨heq, -⟩
      · exact h
      · exact absurd heq hne

/-- Following memory through one more instruction. -/
lemma Follows.step {r : Memory × StateId} (h : Follows m f mem s is r) (i : Instruction R) :
    Follows m f mem s (is ++ [i]) (step m f r i) := by
  have horigins : ∀ {id}, (r.1.origins.get? id).isSome →
      ((Memory.step m f r i).1.origins.get? id).isSome := fun h => isSome_origins_step (Or.inl h)
  have horigin : ∀ j ∈ is ++ [i], j.address?.isSome →
      ((Memory.step m f r i).1.origins.get? j.id).isSome := by
    intro j hj haddress
    rcases List.mem_append.1 hj with hj | hj
    · exact horigins (h.origin j hj haddress)
    · obtain rfl := List.mem_singleton.1 hj
      exact isSome_origins_step (Or.inr ⟨rfl, haddress⟩)
  have hof : (∀ j ∈ is ++ [i], f.inst? j.id = some j) → mem.OriginsOf f →
      (Memory.step m f r i).1.OriginsOf f := fun his hmem =>
    (h.originsOf (fun j hj => his j (List.mem_append_left _ hj)) hmem).step
      (his i (List.mem_append_right _ List.mem_cons_self))
  cases hwrite : m.mayWrite i with
  | true =>
    obtain ⟨hlast, hstates⟩ : (Memory.step m f r i).2 = r.1.states.size ∧
        (Memory.step m f r i).1.states = r.1.states.push (.written i.id r.2) :=
      step_of_mayWrite hwrite
    have hnew : (Memory.step m f r i).1.state? (Memory.step m f r i).2
        = some (.written i.id r.2) := by
      rw [hlast, state?, hstates, Array.getElem?_push_size]
    have hold : ∀ {u x}, r.1.state? u = some x → (Memory.step m f r i).1.state? u = some x := by
      intro u x hu
      have hlt := lt_size_of_state? hu
      rw [state?, hstates, Array.getElem?_push, if_neg (ne_of_lt hlt)]
      exact hu
    exact ⟨h.extends_memory.trans ⟨hold, horigins⟩, h.wellFormed.of_push h.lt_size hstates,
      lt_size_of_state? hnew, (h.leads.mono hold).write hwrite hnew, hof, horigin⟩
  | false =>
    obtain ⟨hlast, hstates⟩ : (Memory.step m f r i).2 = r.2 ∧
        (Memory.step m f r i).1.states = r.1.states := step_of_not_mayWrite hwrite
    have hold : ∀ {u x}, r.1.state? u = some x → (Memory.step m f r i).1.state? u = some x := by
      intro u x hu
      rwa [state?, hstates]
    refine ⟨h.extends_memory.trans ⟨hold, horigins⟩, h.wellFormed.of_states_eq hstates, ?_, ?_, hof,
      horigin⟩
    · rw [hlast, hstates]
      exact h.lt_size
    · rw [hlast]
      exact (h.leads.mono hold).keep hwrite

/-- Following memory through instructions. -/
lemma follows_foldl (hmem : mem.WellFormed) (hs : s < mem.states.size)
    (is : List (Instruction R)) : Follows m f mem s is (is.foldl (step m f) (mem, s)) := by
  induction is using List.reverseRecOn with
  | nil => exact ⟨.refl mem, hmem, hs, .nil, fun _ => id, by simp⟩
  | append_singleton is i ih =>
    rw [List.foldl_append]
    exact ih.step i

lemma loads_foldl_of_notMem (r : Memory × StateId) (hid : id ∉ is.map Instruction.id) :
    (is.foldl (step m f) r).1.loads.get? id = r.1.loads.get? id := by
  induction is generalizing r with
  | nil => rfl
  | cons i is ih =>
    rw [List.map_cons, List.mem_cons, not_or] at hid
    rw [List.foldl_cons, ih _ hid.2, loads_step_of_ne _ (Ne.symm hid.1)]

end Memory

end Roundoff
