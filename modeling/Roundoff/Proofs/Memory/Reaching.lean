/-
# The writes that reach a load

On a path through a function the last write that is not proved to miss an address is the one that a
load of the address may read.  Going back over the memory states from a load comes upon exactly
these writes, one for each path to the load.

In one direction, memory is followed along the path, and the states lead over its blocks.  In the
other direction, a state that a load comes upon was made at some place in the function: where an
instruction wrote, or where a block starts from a join or from memory as the function found it.
Between that place and the place at which the state is current nothing is written, so the walk goes
on from there, and the path is found by putting its pieces together from behind.
-/
import Mathlib
import Roundoff.Proofs.Memory.Blocks

namespace Roundoff

variable {R : Type} {m : Module R} {f : Function R} {address : Origin} {i : Instruction R}
  {is js : List (Instruction R)}

/-! ## The last write -/

/-- Whether an instruction is a store that is proved to miss an address. -/
def Function.misses (f : Function R) (address : Origin) (i : Instruction R) : Bool :=
  match i.op with
  | .store _ ptr => !(Origin.of f ptr).mayAlias address
  | _ => false

/-- The last of some instructions that may write and is not proved to miss an address. -/
def Function.lastWrite? (f : Function R) (m : Module R) (address : Origin)
    (is : List (Instruction R)) : Option (Instruction R) :=
  (is.filter fun i => m.mayWrite i && !f.misses address i).getLast?

namespace Function

@[simp] lemma lastWrite?_nil : f.lastWrite? m address [] = none := rfl

lemma lastWrite?_append_of_keeps (hi : m.mayWrite i = false) :
    f.lastWrite? m address (is ++ [i]) = f.lastWrite? m address is := by
  simp [lastWrite?, List.filter_append, hi]

lemma lastWrite?_append_of_misses (hi : f.misses address i = true) :
    f.lastWrite? m address (is ++ [i]) = f.lastWrite? m address is := by
  simp [lastWrite?, List.filter_append, hi]

lemma lastWrite?_append_of_writes (hi : m.mayWrite i = true) (hmiss : f.misses address i = false) :
    f.lastWrite? m address (is ++ [i]) = some i := by
  simp [lastWrite?, List.filter_append, hi, hmiss]

end Function

namespace Memory

variable {s t : StateId} {w : Option InstId} {b p : BlockId} {bs : List BlockId}

/-- The instructions on the blocks of a path. -/
abbrev passed (f : Function R) (bs : List BlockId) : List (Instruction R) := bs.flatMap f.blockInsts

lemma passed_append_singleton : passed f (bs ++ [b]) = passed f bs ++ f.blockInsts b := by
  simp [passed]

/-- Of the instructions in reachable blocks, the memory states know the stores that miss. -/
lemma misses_of (hf : f.InstsInPlace) (hb : b ∈ order f) (hi : i ∈ f.blockInsts b)
    (hwrite : m.mayWrite i = true) :
    (Memory.of m f).misses i.id address = f.misses address i := by
  rw [Memory.misses, origins_of hf hb hi, Function.misses, Instruction.address?]
  rw [Module.mayWrite] at hwrite
  cases hop : i.op with
  | load ptr => simp [hop] at hwrite
  | _ => simp

/-! ## Along a path -/

/-- What may be read at the start of instructions may be read at their end, unless they write. -/
lemma Leads.reads (hf : f.InstsInPlace) (hb : b ∈ order f)
    (h : (Memory.of m f).Leads m s is t) (his : ∀ i ∈ is, i ∈ f.blockInsts b)
    (hs : (Memory.of m f).Reads address s ((f.lastWrite? m address js).map Instruction.id)) :
    (Memory.of m f).Reads address t ((f.lastWrite? m address (js ++ is)).map Instruction.id) := by
  induction h with
  | nil => rwa [List.append_nil]
  | keep _ hi ih =>
    rw [← List.append_assoc, Function.lastWrite?_append_of_keeps hi]
    exact ih fun j hj => his j (List.mem_append_left _ hj)
  | @write is i t u _ hi hu ih =>
    have hmem := his i (List.mem_append_right _ List.mem_cons_self)
    have hmisses : (Memory.of m f).misses i.id address = f.misses address i :=
      misses_of hf hb hmem hi
    rw [← List.append_assoc]
    cases hmiss : f.misses address i with
    | true =>
      rw [Function.lastWrite?_append_of_misses hmiss]
      exact .skip hu (hmisses.trans hmiss) (ih fun j hj => his j (List.mem_append_left _ hj))
    | false =>
      rw [Function.lastWrite?_append_of_writes hi hmiss]
      exact .hit hu (hmisses.trans hmiss)

/-- What is last written on a path to a block may be read where the block starts. -/
lemma reads_of_path (hf : f.InstsInPlace) (hpath : (FlowGraph.of f).Path b bs) :
    (Memory.of m f).Reads address (firstState m f b)
      ((f.lastWrite? m address (passed f bs)).map Instruction.id) := by
  induction hpath with
  | @entry b he =>
    have hb : b ∈ order f := (FlowGraph.mem_reversePostorder_iff f).2 ⟨[], .entry he⟩
    have hzero : (Memory.of m f).Reads address 0 none := .initial (state?_of_zero)
    have hstart := startsFrom_firstState (m := m) hb
    generalize firstState m f b = s at hstart ⊢
    cases hstart with
    | entry => exact hzero
    | single hne => exact absurd he hne
    | join hs hts => exact .join hs ((hts 0).2 (Or.inl ⟨he, rfl⟩)) hzero
  | @step b t bs hpath ht ih =>
    have hb : b ∈ order f := (FlowGraph.mem_reversePostorder_iff f).2 ⟨bs, hpath⟩
    have hmem : t ∈ order f := (FlowGraph.mem_reversePostorder_iff f).2 ⟨_, hpath.step ht⟩
    have hend := (leads_of hb).reads hf hb (fun i hi => hi) ih
    have hstart := startsFrom_firstState (m := m) hmem
    rw [passed_append_singleton]
    generalize firstState m f t = s at hstart ⊢
    cases hstart with
    | entry _ hnone => exact absurd ht (hnone b hb)
    | single _ _ _ hunique => rwa [← hunique b hb ht]
    | join hs hts => exact .join hs ((hts _).2 (Or.inr ⟨b, hb, ht, rfl⟩)) hend

/-! ## Back along a path -/

/-- At a place of a block, behind its first instructions `is`, memory is in the state `s`. -/
structure At (m : Module R) (f : Function R) (b : BlockId) (is : List (Instruction R))
    (s : StateId) :
    Prop where
  /-- The block is reachable. -/
  mem_order : b ∈ order f
  /-- The instructions are those of the block. -/
  mem_block : ∀ i ∈ is, i ∈ f.blockInsts b
  /-- The states lead over the instructions. -/
  leads : (Memory.of m f).Leads m (firstState m f b) is s

/-- The place at which a state is made. -/
inductive Made (m : Module R) (f : Function R) : BlockId → List (Instruction R) → StateId → Prop
  /-- The initial state is there when the function is entered. -/
  | entry {b : BlockId} (hb : (FlowGraph.of f).StartsAt b) : Made m f b [] 0
  /-- An instruction writes. -/
  | write {b : BlockId} {is : List (Instruction R)} {i : Instruction R} {s t : StateId}
      (h : At m f b is t) (hmem : i ∈ f.blockInsts b) (hi : m.mayWrite i = true)
      (hs : (Memory.of m f).state? s = some (.written i.id t)) : Made m f b (is ++ [i]) s
  /-- A block starts from a join. -/
  | join {b : BlockId} {s : StateId} {ts : List StateId}
      (hs : (Memory.of m f).state? s = some (.joined b ts))
      (hts : ∀ t, t ∈ ts ↔ ((FlowGraph.of f).StartsAt b ∧ t = 0) ∨
        ∃ p ∈ order f, b ∈ (FlowGraph.of f).targetsOf p ∧ t = lastState m f p) : Made m f b [] s

/-- Every path to the first place goes on to the second one, and nothing is written in between. -/
def Carries (m : Module R) (f : Function R) (address : Origin) (b : BlockId)
    (is : List (Instruction R)) (c : BlockId) (js : List (Instruction R)) : Prop :=
  ∀ bs, (FlowGraph.of f).Path b bs → ∃ cs, (FlowGraph.of f).Path c cs ∧
    f.lastWrite? m address (passed f cs ++ js) = f.lastWrite? m address (passed f bs ++ is)

lemma Carries.refl (b : BlockId) (is : List (Instruction R)) : Carries m f address b is b is :=
  fun bs hbs => ⟨bs, hbs, rfl⟩

/-- A state that is current at some place was made at another one, from which nothing is written up
to the first. -/
lemma At.exists_made (address : Origin) (h : At m f b is s) :
    ∃ c js, Made m f c js s ∧ Carries m f address c js b is := by
  -- A block may start from the end of a block that comes earlier in the order.
  induction hn : (order f).idxOf b using Nat.strong_induction_on generalizing b is s with
  | _ n ih =>
    obtain ⟨hb, hmem, hleads⟩ := h
    induction hleads with
    | nil =>
      have hstart := startsFrom_firstState (m := m) hb
      generalize firstState m f b = s at hstart ⊢
      cases hstart with
      | entry he => exact ⟨b, [], .entry he, .refl b []⟩
      | join hs hts => exact ⟨b, [], .join hs hts, .refl b []⟩
      | @single p _ hp hbefore _ =>
        have hmem := hbefore.subset List.mem_cons_self
        obtain ⟨c, js, hmade, hcarries⟩ := ih _
          (hn ▸ Search.idxOf_lt_idxOf_of_sublist (FlowGraph.nodup_reversePostorder f) hbefore)
          ⟨hmem, fun i hi => hi, leads_of hmem⟩ rfl
        refine ⟨c, js, hmade, fun bs hbs => ?_⟩
        obtain ⟨cs, hcs, heq⟩ := hcarries bs hbs
        exact ⟨cs ++ [p], hcs.step hp, by rw [passed_append_singleton, List.append_nil, heq]⟩
    | @keep is i t _ hi ih' =>
      obtain ⟨c, js, hmade, hcarries⟩ := ih' fun j hj => hmem j (List.mem_append_left _ hj)
      refine ⟨c, js, hmade, fun bs hbs => ?_⟩
      obtain ⟨cs, hcs, heq⟩ := hcarries bs hbs
      exact ⟨cs, hcs, by rw [← List.append_assoc, Function.lastWrite?_append_of_keeps hi, heq]⟩
    | @write is i t u hleads hi hu _ =>
      have hat : At m f b is t := ⟨hb, fun j hj => hmem j (List.mem_append_left _ hj), hleads⟩
      exact ⟨b, is ++ [i],
        .write hat (hmem i (List.mem_append_right _ List.mem_cons_self)) hi hu, .refl _ _⟩

/-- A state that an instruction has written was made by that instruction. -/
lemma At.exists_written (hf : f.InstsInPlace) (address : Origin) (h : At m f b is s) {id : InstId}
    (hs : (Memory.of m f).state? s = some (.written id t)) :
    ∃ c js i, At m f c js t ∧ m.mayWrite i = true ∧ i.id = id ∧
      (Memory.of m f).misses id address = f.misses address i ∧
      Carries m f address c (js ++ [i]) b is := by
  obtain ⟨c, js, hmade, hcarries⟩ := h.exists_made address
  cases hmade with
  | entry => simp [state?_of_zero] at hs
  | join hs' _ => simp [hs] at hs'
  | @write js i _ u hat hmem hi hs' =>
    obtain ⟨rfl, rfl⟩ : id = i.id ∧ t = u := by simpa using hs.symm.trans hs'
    exact ⟨c, js, i, hat, hi, rfl, misses_of hf hat.mem_order hmem hi, hcarries⟩

/-- What may be read at a place is last written on some path to it. -/
lemma Reads.exists_path (hf : f.InstsInPlace) (h : (Memory.of m f).Reads address s w)
    (hat : At m f b is s) :
    ∃ bs, (FlowGraph.of f).Path b bs ∧
      (f.lastWrite? m address (passed f bs ++ is)).map Instruction.id = w := by
  induction h generalizing b is with
  | initial hs =>
    obtain ⟨c, js, hmade, hcarries⟩ := hat.exists_made address
    cases hmade with
    | entry he =>
      obtain ⟨cs, hcs, heq⟩ := hcarries [] (.entry he)
      exact ⟨cs, hcs, by rw [heq]; rfl⟩
    | write _ _ _ hs' => simp [hs] at hs'
    | join hs' _ => simp [hs] at hs'
  | hit hs hmiss =>
    obtain ⟨c, js, i, hat', hi, hid, hmisses, hcarries⟩ := hat.exists_written hf address hs
    obtain ⟨bs, hbs⟩ := (FlowGraph.mem_reversePostorder_iff f).1 hat'.mem_order
    obtain ⟨cs, hcs, heq⟩ := hcarries bs hbs
    refine ⟨cs, hcs, ?_⟩
    rw [heq, ← List.append_assoc,
      Function.lastWrite?_append_of_writes hi (hmisses.symm.trans hmiss), Option.map_some, hid]
  | skip hs hmiss _ ih =>
    obtain ⟨c, js, i, hat', hi, -, hmisses, hcarries⟩ := hat.exists_written hf address hs
    obtain ⟨bs, hbs, hw⟩ := ih hat'
    obtain ⟨cs, hcs, heq⟩ := hcarries bs hbs
    refine ⟨cs, hcs, ?_⟩
    rw [heq, ← List.append_assoc,
      Function.lastWrite?_append_of_misses (hmisses.symm.trans hmiss), hw]
  | join hs ht hreads ih =>
    obtain ⟨c, js, hmade, hcarries⟩ := hat.exists_made address
    cases hmade with
    | entry => simp [state?_of_zero] at hs
    | write _ _ _ hs' => simp [hs] at hs'
    | join hs' hts =>
      obtain ⟨rfl, rfl⟩ := MemoryState.joined.inj (Option.some.inj (hs.symm.trans hs'))
      rcases (hts _).1 ht with ⟨he, rfl⟩ | ⟨p, hp, htarget, rfl⟩
      · -- the function has been entered, and nothing has been written
        obtain ⟨cs, hcs, heq⟩ := hcarries [] (.entry he)
        refine ⟨cs, hcs, ?_⟩
        rw [heq, hreads.eq_none_of_initial (state?_of_zero)]
        rfl
      · obtain ⟨bs, hbs, hw⟩ := ih ⟨hp, fun i hi => hi, leads_of hp⟩
        obtain ⟨cs, hcs, heq⟩ := hcarries (bs ++ [p]) (hbs.step htarget)
        exact ⟨cs, hcs, by rw [heq, passed_append_singleton, List.append_nil, hw]⟩

/-- **The walk over memory states is the meet over all paths.**  Going back from a place comes upon
the last writes, not proved to miss the address, of the paths to the place. -/
theorem reads_iff_exists_path (hf : f.InstsInPlace) (hat : At m f b is s) :
    (Memory.of m f).Reads address s w ↔ ∃ bs, (FlowGraph.of f).Path b bs ∧
      (f.lastWrite? m address (passed f bs ++ is)).map Instruction.id = w := by
  constructor
  · intro h
    exact h.exists_path hf hat
  · rintro ⟨bs, hbs, rfl⟩
    exact hat.leads.reads hf hat.mem_order hat.mem_block (reads_of_path hf hbs)

end Memory

end Roundoff
