/-
# What a load is given to read

A load is given the distinct records of the writes that it comes upon.  These writes are the last
ones, not proved to miss the address of the load, of the paths to it, one write for each path.  Of a
store the record is its own one.  Of a call, and of a path without such a write, it is the first
record along the address of the load.
-/
import Mathlib
import Roundoff.Proofs.Memory.Address
import Roundoff.Proofs.Memory.Reaching
import Roundoff.Proofs.Number.Exact

namespace Roundoff

/-! ## Duplicates -/

section Duplicates

variable {α : Type} [BEq α]

lemma eraseDups_sublist : (l : List α) → l.eraseDups.Sublist l
  | [] => .slnil
  | b :: l => by
    rw [List.eraseDups_cons]
    exact ((eraseDups_sublist _).trans List.filter_sublist).cons_cons b
termination_by l => l.length
decreasing_by exact Nat.lt_succ_of_le (List.length_filter_le _ _)

/-- An element that is erased equals one that is kept. -/
lemma mem_eraseDups_or_exists_beq {a : α} :
    {l : List α} → a ∈ l → a ∈ l.eraseDups ∨ ∃ b ∈ l.eraseDups, (a == b) = true
  | b :: l, h => by
    rw [List.eraseDups_cons]
    rcases List.mem_cons.1 h with rfl | h
    · exact Or.inl List.mem_cons_self
    · cases hb : a == b with
      | true => exact Or.inr ⟨b, List.mem_cons_self, hb⟩
      | false =>
        have hkept : a ∈ l.filter fun c => !c == b := List.mem_filter.2 ⟨h, by rw [hb]; rfl⟩
        rcases mem_eraseDups_or_exists_beq hkept with hmem | ⟨c, hc, heq⟩
        · exact Or.inl (List.mem_cons_of_mem _ hmem)
        · exact Or.inr ⟨c, List.mem_cons_of_mem _ hc, heq⟩
termination_by l => l.length
decreasing_by exact Nat.lt_succ_of_le (List.length_filter_le _ _)

/-- No element that is kept equals an earlier one. -/
lemma pairwise_eraseDups : (l : List α) → l.eraseDups.Pairwise fun a b => (b == a) = false
  | [] => List.Pairwise.nil
  | b :: l => by
    rw [List.eraseDups_cons, List.pairwise_cons]
    refine ⟨fun c hc => ?_, pairwise_eraseDups _⟩
    simpa using (List.mem_filter.1 ((eraseDups_sublist _).subset hc)).2
termination_by l => l.length
decreasing_by exact Nat.lt_succ_of_le (List.length_filter_le _ _)

end Duplicates

variable {R : Type} {m : Module R} {f : Function R} {records : Records R} {load i : Instruction R}
  {e : Estimate R}

/-- `f.Supplies records load w e`: if `w` is the write that the load comes upon, or `none` if it
comes upon none, then the load is given the record `e`. -/
inductive Function.Supplies (f : Function R) (records : Records R) (load : Instruction R) :
    Option (Instruction R) → Estimate R → Prop
  /-- What a store wrote has the record of the store. -/
  | store {i : Instruction R} {e : Estimate R} (hi : i.isCall = false)
      (he : records (.inst f.id i.id) = some e) : Supplies f records load (some i) e
  /-- What a call wrote is looked up along the address. -/
  | call {i : Instruction R} {e : Estimate R} (hi : i.isCall = true)
      (he : f.FirstRecord records load e) : Supplies f records load (some i) e
  /-- What nothing wrote is looked up along the address. -/
  | none {e : Estimate R} (he : f.FirstRecord records load e) : Supplies f records load none e

namespace Function

lemma lastWrite?_mem {address : Origin} {is : List (Instruction R)}
    (h : f.lastWrite? m address is = some i) : i ∈ is ∧ m.mayWrite i = true := by
  obtain ⟨hmem, hi⟩ := List.mem_filter.1 (List.mem_of_getLast? h)
  exact ⟨hmem, (Bool.and_eq_true_iff.1 hi).1⟩

lemma lastWrite?_eq_of_append {address : Origin} {is js : List (Instruction R)}
    (hi : m.mayWrite i = true) (hmiss : f.misses address i = false)
    (hjs : ∀ j ∈ js, m.mayWrite j = true → f.misses address j = true) :
    f.lastWrite? m address (is ++ i :: js) = some i := by
  have hnone : (js.filter fun j => m.mayWrite j && !f.misses address j) = [] := by
    rw [List.filter_eq_nil_iff]
    intro j hj
    cases hwrite : m.mayWrite j with
    | true => simp [hjs j hj hwrite]
    | false => simp
  rw [lastWrite?, List.filter_append, List.filter_cons, hi, hmiss, hnone]
  simp

end Function

namespace Memory

variable {mem : Memory} {s : StateId} {w : Option (Instruction R)} {b : BlockId}
  {before after : List (Instruction R)} {ptr : Value R} {bs : List BlockId}

/-! ## The record of a write -/

/-- The record of a state is the one of the write for which the state stands. -/
lemma record?_eq_some_iff (hload : f.inst? load.id = some load)
    (hwrite : mem.write? s = some (w.map Instruction.id))
    (hw : ∀ i, w = some i → f.inst? i.id = some i) :
    mem.record? f records load.id s = some e ↔ f.Supplies records load w e := by
  cases w with
  | none =>
    rw [record?, state?_of_write?_none hwrite]
    dsimp only
    rw [Function.addressRecord?_eq_some_iff hload]
    exact ⟨.none, fun | .none he => he⟩
  | some i =>
    obtain ⟨before, hs⟩ := exists_state?_of_write?_some hwrite
    rw [record?, hs]
    dsimp only
    rw [hw i rfl, Option.any_some]
    cases hcall : i.isCall with
    | true =>
      rw [if_pos rfl, Function.addressRecord?_eq_some_iff hload]
      refine ⟨.call hcall, fun h => ?_⟩
      cases h with
      | store hi => exact absurd (hcall.symm.trans hi) nofun
      | call _ he => exact he
    | false =>
      rw [if_neg Bool.false_ne_true]
      refine ⟨.store hcall, fun h => ?_⟩
      cases h with
      | store _ he => exact he
      | call hi => exact absurd (hcall.symm.trans hi) nofun

/-- Only a state that stands for a write has a record. -/
lemma isSome_write?_of_record? {id : InstId} (h : mem.record? f records id s = some e) :
    ∃ w, mem.write? s = some w := by
  cases hs : mem.state? s with
  | none =>
    rw [record?, hs] at h
    cases h
  | some x =>
    cases x with
    | initial => exact ⟨none, by rw [write?, hs]⟩
    | written i before => exact ⟨some i, by rw [write?, hs]⟩
    | joined b ts =>
      rw [record?, hs] at h
      cases h

/-! ## The records of the paths to a load -/

/-- Instructions passed on a path, and those of a block, carry their own positions. -/
lemma inst?_of_mem_passed (hf : f.InstsInPlace) (hblock : f.blockInsts b = before ++ load :: after)
    (hi : i ∈ passed f bs ++ before) : f.inst? i.id = some i := by
  rcases List.mem_append.1 hi with hi | hi
  · obtain ⟨c, -, hc⟩ := List.mem_flatMap.1 hi
    exact hf.inst?_of_mem_blockInsts hc
  · exact hf.inst?_of_mem_blockInsts (hblock ▸ List.mem_append_left _ hi)

/-- A load comes upon a record exactly if it is the record of the last write, not proved to miss, on
some path to the load. -/
lemma exists_record?_iff (hf : f.InstsInPlace) (honce : f.ListedOnce) (hb : b ∈ order f)
    (hblock : f.blockInsts b = before ++ load :: after) (hload : load.op = .load ptr) :
    (∃ s ∈ (Memory.of m f).statesOf load.id,
        (Memory.of m f).record? f records load.id s = some e) ↔
      ∃ bs, (FlowGraph.of f).Path b bs ∧ f.Supplies records load
        (f.lastWrite? m (Origin.of f ptr) (passed f bs ++ before)) e := by
  have hmem : load ∈ f.blockInsts b := hblock ▸ List.mem_append_right _ List.mem_cons_self
  have hinst := hf.inst?_of_mem_blockInsts hmem
  have horigin : (Memory.of m f).origins.get? load.id = some (Origin.of f ptr) := by
    rw [origins_of hf hb hmem, Instruction.address?, hload]
    rfl
  obtain ⟨s, hs, hlt, hleads⟩ := exists_loads_of (m := m) hf honce hb hblock hload
  have hat : At m f b before s :=
    ⟨hb, fun i hi => hblock ▸ List.mem_append_left _ hi, hleads⟩
  have hwrites (w : Option InstId) :
      (∃ t ∈ (Memory.of m f).statesOf load.id, (Memory.of m f).write? t = some w) ↔
        ∃ bs, (FlowGraph.of f).Path b bs ∧
          (f.lastWrite? m (Origin.of f ptr) (passed f bs ++ before)).map Instruction.id = w := by
    rw [exists_mem_statesOf_iff horigin wellFormed_of hs hlt, reads_iff_exists_path hf hat]
  have hlast (bs : List BlockId) (i : Instruction R)
      (hi : f.lastWrite? m (Origin.of f ptr) (passed f bs ++ before) = some i) :
      f.inst? i.id = some i :=
    inst?_of_mem_passed hf hblock (Function.lastWrite?_mem hi).1
  constructor
  · rintro ⟨t, ht, he⟩
    obtain ⟨w, hw⟩ := isSome_write?_of_record? he
    obtain ⟨bs, hbs, rfl⟩ := (hwrites w).1 ⟨t, ht, hw⟩
    exact ⟨bs, hbs, (record?_eq_some_iff hinst hw (hlast bs)).1 he⟩
  · rintro ⟨bs, hbs, he⟩
    obtain ⟨t, ht, hw⟩ := (hwrites _).2 ⟨bs, hbs, rfl⟩
    exact ⟨t, ht, (record?_eq_some_iff hinst hw (hlast bs)).2 he⟩

section Sources

variable [Number R]

/-- What a load is given, up to duplicates. -/
lemma mem_sources {id : InstId} (h : e ∈ mem.sources f records id) :
    ∃ s ∈ mem.statesOf id, mem.record? f records id s = some e :=
  List.mem_filterMap.1 ((eraseDups_sublist _).subset h)

/-- A load is given records of values. -/
lemma exists_key_of_mem_sources {id : InstId} (h : e ∈ mem.sources f records id) :
    ∃ k, records k = some e := by
  obtain ⟨s, -, h⟩ := mem_sources h
  have haddress (h : f.addressRecord? records id = some e) : ∃ k, records k = some e := by
    obtain ⟨i, hi, -⟩ := Option.bind_eq_some_iff.1 h
    exact ((Function.addressRecord?_eq_some_iff hi).1 h).exists_key
  rw [record?] at h
  split at h
  · exact haddress h
  · split at h
    · exact haddress h
    · exact ⟨_, h⟩
  · cases h

lemma mem_sources_or_exists_beq {id : InstId}
    (h : ∃ s ∈ mem.statesOf id, mem.record? f records id s = some e) :
    e ∈ mem.sources f records id ∨ ∃ e' ∈ mem.sources f records id, (e == e') = true :=
  mem_eraseDups_or_exists_beq (List.mem_filterMap.2 h)

/-- **A load is given exactly the records of its paths.**  Consider a load in a reachable block, and
on each path to it the last write that is not proved to miss its address.  Every record that the
load is given is that of such a write, every such record is given or equals one that is, and no two
of the records given are equal. -/
theorem sources_exact (m : Module R) (f : Function R) (records : Records R)
    (hplace : f.InstsInPlace)
    (honce : f.ListedOnce) {b : BlockId} (hreach : ∃ bs, (FlowGraph.of f).Path b bs)
    {before after : List (Instruction R)} {load : Instruction R} {ptr : Value R}
    (hblock : f.blockInsts b = before ++ load :: after) (hload : load.op = .load ptr) :
    (∀ e ∈ (Memory.of m f).sources f records load.id, ∃ bs, (FlowGraph.of f).Path b bs ∧
      f.Supplies records load (f.lastWrite? m (Origin.of f ptr) (passed f bs ++ before)) e) ∧
    (∀ bs e, (FlowGraph.of f).Path b bs →
      f.Supplies records load (f.lastWrite? m (Origin.of f ptr) (passed f bs ++ before)) e →
      e ∈ (Memory.of m f).sources f records load.id ∨
        ∃ e' ∈ (Memory.of m f).sources f records load.id, (e == e') = true) ∧
    ((Memory.of m f).sources f records load.id).Pairwise fun e e' => (e' == e) = false := by
  have hb : b ∈ order f := (FlowGraph.mem_reversePostorder_iff f).2 hreach
  refine ⟨fun e he => ?_, fun bs e hbs he => ?_, pairwise_eraseDups _⟩
  · exact (exists_record?_iff hplace honce hb hblock hload).1 (mem_sources he)
  · exact mem_sources_or_exists_beq
      ((exists_record?_iff hplace honce hb hblock hload).2 ⟨bs, hbs, he⟩)

/-- **The last store is a source if all later writes miss.**  If the value that a load reads was
last written by a store, and all writes after it on the path taken are proved to miss the address,
then the record of the store is given to the load.  A later write that only may miss hides the
store. -/
theorem mem_sources_of_later_misses (hplace : f.InstsInPlace) (honce : f.ListedOnce)
    (hbs : (FlowGraph.of f).Path b bs) (hblock : f.blockInsts b = before ++ load :: after)
    (hload : load.op = .load ptr) {is js : List (Instruction R)}
    (hpassed : passed f bs ++ before = is ++ i :: js) {value target : Value R}
    (hi : i.op = .store value target)
    (halias : (Origin.of f target).mayAlias (Origin.of f ptr) = true)
    (hjs : ∀ j ∈ js, m.mayWrite j = true → f.misses (Origin.of f ptr) j = true)
    (he : records (.inst f.id i.id) = some e) :
    e ∈ (Memory.of m f).sources f records load.id ∨
      ∃ e' ∈ (Memory.of m f).sources f records load.id, (e == e') = true := by
  have hb : b ∈ order f := (FlowGraph.mem_reversePostorder_iff f).2 ⟨bs, hbs⟩
  have hwrite : m.mayWrite i = true := by rw [Module.mayWrite, hi]
  have hmiss : f.misses (Origin.of f ptr) i = false := by
    rw [Function.misses, hi]
    simp [halias]
  have hcall : i.isCall = false := by
    rw [Instruction.isCall, hi]
    rfl
  refine mem_sources_or_exists_beq
    ((exists_record?_iff hplace honce hb hblock hload).2 ⟨bs, hbs, ?_⟩)
  rw [hpassed, Function.lastWrite?_eq_of_append hwrite hmiss hjs]
  exact .store hcall he

end Sources

end Memory

/-! ## Two stores before a join -/

namespace Diamond

/-- The load from the slot. -/
def readSlot : Instruction ℝ := ⟨⟨6⟩, ⟨3⟩, "v", .float 64, .load (.inst ⟨0⟩), none, none⟩

/-- The return of what has been read. -/
def result : Instruction ℝ := ⟨⟨7⟩, ⟨3⟩, "", .void, .ret (some (.inst ⟨6⟩)), none, none⟩

/-- The function makes a stack slot and writes one of its formal parameters to it, and then,
whichever it has written, reads the slot. -/
def function : Function ℝ where
  id := ⟨0⟩
  name := "diamond"
  params := #[⟨"c", .int 1, none⟩, ⟨"x", .float 64, none⟩, ⟨"y", .float 64, none⟩]
  retTy := .float 64
  blocks := #[⟨⟨0⟩, "entry", [⟨0⟩, ⟨1⟩], none, none⟩, ⟨⟨1⟩, "left", [⟨2⟩, ⟨3⟩], none, none⟩,
    ⟨⟨2⟩, "right", [⟨4⟩, ⟨5⟩], none, none⟩, ⟨⟨3⟩, "join", [⟨6⟩, ⟨7⟩], none, none⟩]
  insts := #[⟨⟨0⟩, ⟨0⟩, "a", .pointer (.float 64), .alloca (.float 64), none, none⟩,
    ⟨⟨1⟩, ⟨0⟩, "", .void, .condBr (.arg 0) ⟨1⟩ ⟨2⟩, none, none⟩,
    ⟨⟨2⟩, ⟨1⟩, "", .void, .store (.arg 1) (.inst ⟨0⟩), none, none⟩,
    ⟨⟨3⟩, ⟨1⟩, "", .void, .br ⟨3⟩, none, none⟩,
    ⟨⟨4⟩, ⟨2⟩, "", .void, .store (.arg 2) (.inst ⟨0⟩), none, none⟩,
    ⟨⟨5⟩, ⟨2⟩, "", .void, .br ⟨3⟩, none, none⟩,
    readSlot, result]
  maxRecursion := none
  entryPoint := false

/-- The module of the function. -/
def program : Module ℝ := ⟨"m", #[function], #[], #[]⟩

/-- What is known of what is stored on the left, which is exact. -/
noncomputable def exact : Estimate ℝ := ⟨⟨0, 1, Format.none⟩, some (.const 0)⟩

/-- What is known of what is stored on the right, which is too large by one. -/
noncomputable def inexact : Estimate ℝ := ⟨⟨0, 1, Format.none⟩, some (.const 1)⟩

/-- The records of the two stores. -/
noncomputable def recorded : Records ℝ
  | .inst ⟨0⟩ ⟨2⟩ => some exact
  | .inst ⟨0⟩ ⟨4⟩ => some inexact
  | _ => none

lemma path_entry : (FlowGraph.of function).Path ⟨0⟩ [] :=
  .entry (FlowGraph.startsAt_of (by decide))

lemma path_left : (FlowGraph.of function).Path ⟨3⟩ [⟨0⟩, ⟨1⟩] := by
  have h : (FlowGraph.of function).Path ⟨1⟩ [⟨0⟩] :=
    path_entry.step (FlowGraph.mem_targetsOf_of.2 ⟨_, rfl, by decide, rfl⟩)
  exact h.step (FlowGraph.mem_targetsOf_of.2 ⟨_, rfl, by decide, rfl⟩)

lemma path_right : (FlowGraph.of function).Path ⟨3⟩ [⟨0⟩, ⟨2⟩] := by
  have h : (FlowGraph.of function).Path ⟨2⟩ [⟨0⟩] :=
    path_entry.step (FlowGraph.mem_targetsOf_of.2 ⟨_, rfl, by decide, rfl⟩)
  exact h.step (FlowGraph.mem_targetsOf_of.2 ⟨_, rfl, by decide, rfl⟩)

/-- The load is given what is recorded of the store on the left and of the one on the right. -/
theorem sources_of_both_stores :
    function.InstsInPlace ∧ function.ListedOnce ∧ ∀ e ∈ [exact, inexact],
      e ∈ (Memory.of program function).sources function recorded readSlot.id ∨
        ∃ e' ∈ (Memory.of program function).sources function recorded readSlot.id,
          (e == e') = true := by
  have hplace : function.InstsInPlace := Function.instsInPlace_of_map_eq_range (by decide)
  have honce : function.ListedOnce := by
    rw [Function.ListedOnce]
    decide
  have hblock : function.blockInsts ⟨3⟩ = [] ++ readSlot :: [result] := rfl
  obtain ⟨-, hgiven, -⟩ :=
    Memory.sources_exact program function recorded hplace honce ⟨_, path_left⟩ hblock rfl
  refine ⟨hplace, honce, fun e he => ?_⟩
  rcases List.mem_pair.1 he with rfl | rfl
  · exact hgiven _ exact path_left (.store rfl rfl)
  · exact hgiven _ inexact path_right (.store rfl rfl)

end Diamond

end Roundoff
