/-
# What validation checks

A module passes validation exactly if it is *wired*: functions, globals, blocks and instructions are
at the positions that they carry, blocks list instructions that exist and belong to them, and the
blocks and functions to which control may pass exist.

To be *closed* is more.  In a closed module the operands and the struct types exist as well, and
every instruction is listed once, by the block that it names.  Validation looks at none of this, so
that a module with a missing operand passes.
-/
import Mathlib
import Roundoff.Program.Validity
import Roundoff.Proofs.Program.Positions

namespace Roundoff

variable {R : Type} {m : Module R} {f : Function R}

/-! ## Wired modules -/

/-- The blocks and instructions of a function are at their positions, and everything that control
passes to exists. -/
structure Function.IsWired (m : Module R) (f : Function R) : Prop where
  /-- Every block carries its own position. -/
  block_id : ∀ (k : ℕ) (b : Block), f.blocks[k]? = some b → b.id.val.toNat = k
  /-- Every block lists instructions that exist and belong to it. -/
  listed : ∀ b ∈ f.blocks, ∀ id ∈ b.insts, ∃ i, f.inst? id = some i ∧ i.block = b.id
  /-- Every instruction carries its own position. -/
  inst_id : ∀ (k : ℕ) (i : Instruction R), f.insts[k]? = some i → i.id.val.toNat = k
  /-- The blocks that may follow an instruction exist. -/
  successor : ∀ i ∈ f.insts, ∀ b ∈ i.op.successors, (f.block? b).isSome
  /-- The blocks for which a phi has a value exist. -/
  incoming : ∀ i ∈ f.insts, ∀ vs, i.op.incoming? = some vs → ∀ e ∈ vs, (f.block? e.2).isSome
  /-- The functions that are called directly exist. -/
  callee : ∀ i ∈ f.insts, ∀ id args, i.op.callSite? = some (.direct id, args) →
    (m.function? id).isSome

/-- The functions and global variables of a module are at their positions, and the bodies of the
functions are wired. -/
structure Module.IsWired (m : Module R) : Prop where
  /-- Every function carries its own position. -/
  function_id : ∀ (k : ℕ) (f : Function R), m.functions[k]? = some f → f.id.val.toNat = k
  /-- Every global variable carries its own position. -/
  global_id : ∀ (k : ℕ) (g : Global R), m.globals[k]? = some g → g.id.val.toNat = k
  /-- The bodies of the functions are wired. -/
  body : ∀ f ∈ m.functions, f.IsWired m

namespace Function

lemma entryDefect?_eq_none_iff {b : Block} {id : InstId} :
    f.entryDefect? b id = none ↔ ∃ i, f.inst? id = some i ∧ i.block = b.id := by
  rw [entryDefect?]
  cases f.inst? id <;> simp

lemma blockDefect?_eq_none_iff {k : ℕ} {b : Block} :
    f.blockDefect? k b = none ↔
      b.id.val.toNat = k ∧ ∀ id ∈ b.insts, ∃ i, f.inst? id = some i ∧ i.block = b.id := by
  rw [blockDefect?]
  split
  · next hval => simp [hval, List.findSome?_eq_none_iff, entryDefect?_eq_none_iff]
  · next hval => simp [hval]

lemma targetDefect?_eq_none_iff {b : BlockId} :
    f.targetDefect? b = none ↔ (f.block? b).isSome := by
  rw [targetDefect?]
  split <;> simp_all

lemma incomingDefect?_eq_none_iff {op : Operation R} :
    f.incomingDefect? op = none ↔
      ∀ vs, op.incoming? = some vs → ∀ e ∈ vs, (f.block? e.2).isSome := by
  rw [incomingDefect?]
  cases op.incoming? <;> simp [List.findSome?_eq_none_iff, Option.isSome_iff_ne_none]

lemma instructionDefect?_eq_none_iff {k : ℕ} {i : Instruction R} :
    f.instructionDefect? k i = none ↔ i.id.val.toNat = k ∧
      (∀ b ∈ i.op.successors, (f.block? b).isSome) ∧
      ∀ vs, i.op.incoming? = some vs → ∀ e ∈ vs, (f.block? e.2).isSome := by
  rw [instructionDefect?]
  split
  · next hval =>
    rw [Option.or_eq_none_iff, List.findSome?_eq_none_iff, incomingDefect?_eq_none_iff]
    simp [hval, targetDefect?_eq_none_iff]
  · next hval => simp [hval]

end Function

namespace Module

lemma callDefect?_eq_none_iff {i : Instruction R} :
    m.callDefect? f i = none ↔
      ∀ id args, i.op.callSite? = some (.direct id, args) → (m.function? id).isSome := by
  rw [callDefect?]
  split
  · next id args hcall => simp [hcall, Option.isSome_iff_ne_none]
  · next hcall => simpa using fun id args h => (hcall id args h).elim

/-- The body of a function has no defect exactly if it is wired. -/
lemma bodyDefect?_eq_none_iff : m.bodyDefect? f = none ↔ f.IsWired m := by
  rw [bodyDefect?, Option.or_eq_none_iff, Option.map_eq_none_iff, firstDefect_eq_none_iff,
    firstDefect_eq_none_iff]
  simp only [Array.getElem?_toList, Nat.zero_add, Option.or_eq_none_iff, Option.map_eq_none_iff,
    Function.blockDefect?_eq_none_iff, Function.instructionDefect?_eq_none_iff,
    callDefect?_eq_none_iff]
  constructor
  · rintro ⟨hblocks, hinsts⟩
    have hmem : ∀ i ∈ f.insts, ∃ k, f.insts[k]? = some i := fun i hi => Array.mem_iff_getElem?.1 hi
    refine ⟨fun k b hb => (hblocks k b hb).1, fun b hb => ?_, fun k i hi => (hinsts k i hi).1.1,
      fun i hi => ?_, fun i hi => ?_, fun i hi => ?_⟩
    · obtain ⟨k, hk⟩ := Array.mem_iff_getElem?.1 hb
      exact (hblocks k b hk).2
    all_goals obtain ⟨k, hk⟩ := hmem i hi
    · exact (hinsts k i hk).1.2.1
    · exact (hinsts k i hk).1.2.2
    · exact (hinsts k i hk).2
  · intro hw
    refine ⟨fun k b hb => ⟨hw.block_id k b hb, hw.listed b (Array.mem_of_getElem? hb)⟩,
      fun k i hi => ?_⟩
    have hmem := Array.mem_of_getElem? hi
    exact ⟨⟨hw.inst_id k i hi, hw.successor i hmem, hw.incoming i hmem⟩, hw.callee i hmem⟩

lemma functionDefect?_eq_none_iff {k : ℕ} :
    m.functionDefect? k f = none ↔ f.id.val.toNat = k ∧ f.IsWired m := by
  rw [functionDefect?]
  split
  · next hval => simp [hval, bodyDefect?_eq_none_iff]
  · next hval => simp [hval]

lemma globalDefect?_eq_none_iff {k : ℕ} {g : Global R} :
    globalDefect? k g = none ↔ g.id.val.toNat = k := by
  rw [globalDefect?]
  split <;> simp_all

/-- **A module passes validation exactly if it is wired.** -/
theorem validate_eq_ok_iff : m.validate = .ok () ↔ m.IsWired := by
  have hvalidate : m.validate = .ok () ↔ m.defect? = none := by
    rw [validate]
    cases m.defect? <;> simp
  rw [hvalidate, defect?, Option.or_eq_none_iff, firstDefect_eq_none_iff, firstDefect_eq_none_iff]
  simp only [Array.getElem?_toList, Nat.zero_add, functionDefect?_eq_none_iff,
    globalDefect?_eq_none_iff]
  constructor
  · rintro ⟨hfunctions, hglobals⟩
    refine ⟨fun k f hf => (hfunctions k f hf).1, hglobals, fun f hf => ?_⟩
    obtain ⟨k, hk⟩ := Array.mem_iff_getElem?.1 hf
    exact (hfunctions k f hk).2
  · intro hw
    exact ⟨fun k f hf => ⟨hw.function_id k f hf, hw.body f (Array.mem_of_getElem? hf)⟩,
      hw.global_id⟩

end Module

/-! ## Closed modules -/

/-- What a call reads to find its target. -/
def Callee.operands : Callee R → List (Value R)
  | direct _ | external _ => []
  | indirect target => [target]

/-- Everything that an operation reads. -/
def Operation.operands : Operation R → List (Value R)
  | binary _ lhs rhs | icmp _ lhs rhs | fcmp _ lhs rhs => [lhs, rhs]
  | cast _ operand => [operand]
  | select cond ifTrue ifFalse => [cond, ifTrue, ifFalse]
  | phi incoming => incoming.map Prod.fst
  | load ptr => [ptr]
  | store value ptr => [value, ptr]
  | element base indices => base :: indices
  | call callee args | invoke callee args _ _ => callee.operands ++ args
  | ret value => value.toList
  | condBr cond _ _ => [cond]
  | alloca _ | br _ | unreachable => []

/-- The types that an operation names. -/
def Operation.types : Operation R → List Ty
  | alloca allocated => [allocated]
  | _ => []

/-- What an operand of a function refers to exists. -/
def Module.HasOperand (m : Module R) (f : Function R) : Value R → Prop
  | .inst id => (f.inst? id).isSome
  | .arg index => (f.param? index).isSome
  | .global id => (m.global? id).isSome
  | .function id => (m.function? id).isSome
  | .constInt _ | .constFloat _ | .undef => True

/-- The struct types that a type is made of exist. -/
def Module.HasType (m : Module R) : Ty → Prop
  | .struct id => (m.struct? id).isSome
  | .pointer target => m.HasType target
  | .array elem _ => m.HasType elem
  | .void | .int _ | .float _ => True

/-- A wired function in which all operands and types exist, and in which every instruction is listed
once, by the block that it belongs to. -/
structure Function.IsClosed (m : Module R) (f : Function R) : Prop extends f.IsWired m where
  /-- The operands of all instructions exist. -/
  operand : ∀ i ∈ f.insts, ∀ v ∈ i.op.operands, m.HasOperand f v
  /-- The types of the results and of what is allocated exist. -/
  instType : ∀ i ∈ f.insts, ∀ ty ∈ i.ty :: i.op.types, m.HasType ty
  /-- The types of the formals exist. -/
  paramType : ∀ p ∈ f.params, m.HasType p.ty
  /-- The type of the returned value exists. -/
  retType : m.HasType f.retTy
  /-- The block that an instruction belongs to exists and lists it once. -/
  block : ∀ i ∈ f.insts, ∃ b, f.block? i.block = some b ∧ b.insts.count i.id = 1

/-- A wired module in which every position refers to something that exists. -/
structure Module.IsClosed (m : Module R) : Prop extends m.IsWired where
  /-- The bodies of the functions are closed. -/
  closed : ∀ f ∈ m.functions, f.IsClosed m
  /-- The types of the global variables exist. -/
  globalType : ∀ g ∈ m.globals, m.HasType g.ty
  /-- The types of the fields of all struct types exist. -/
  fieldType : ∀ s ∈ m.structs, ∀ ty ∈ s.fields, m.HasType ty

/-! ## Modules that are valid and not closed -/

namespace LooseEnds

/-- A call of what an operand points to. -/
def call (target : Value R) (args : List (Value R)) (ty : Ty) : Instruction R :=
  ⟨⟨0⟩, ⟨0⟩, "c", ty, .call (.indirect target) args, none, none⟩

/-- The module of one function with a call that its block lists as often as it likes. -/
def program (target : Value R) (args : List (Value R)) (ty : Ty) (times : ℕ) : Module R :=
  ⟨"m", #[{ id := ⟨0⟩, name := "f", params := #[], retTy := ty,
            blocks := #[⟨⟨0⟩, "entry", List.replicate times ⟨0⟩, none, none⟩],
            insts := #[call target args ty],
            maxRecursion := none, entryPoint := false }], #[], #[]⟩

/-- Whatever is called, with whatever arguments and types, and however often the call is listed: the
module passes validation. -/
theorem validate_program (target : Value R) (args : List (Value R)) (ty : Ty) (times : ℕ) :
    (program target args ty times).validate = .ok () := by
  have hinst : ∀ id ∈ List.replicate times (⟨0⟩ : InstId), id = ⟨0⟩ := fun id hid =>
    List.eq_of_mem_replicate hid
  refine Module.validate_eq_ok_iff.2 ⟨?_, ?_, ?_⟩
  · rintro (_ | k) f hf
    · cases hf
      rfl
    · cases hf
  · rintro k g ⟨⟩
  · intro f hf
    obtain rfl := Array.mem_singleton.1 hf
    refine ⟨?_, ?_, ?_, ?_, ?_, ?_⟩
    · rintro (_ | k) b hb
      · cases hb
        rfl
      · cases hb
    · intro b hb id hid
      obtain rfl := Array.mem_singleton.1 hb
      rw [hinst id hid]
      exact ⟨_, rfl, rfl⟩
    · rintro (_ | k) i hi
      · cases hi
        rfl
      · cases hi
    all_goals
      intro i hi
      obtain rfl := Array.mem_singleton.1 hi
    · rintro b ⟨⟩
    · rintro vs ⟨⟩
    · rintro id args' ⟨⟩

/-- It is closed only if the operands and the type of the call exist and the call is listed once. -/
theorem isClosed_program {target : Value R} {args : List (Value R)} {ty : Ty} {times : ℕ}
    (h : (program target args ty times).IsClosed) :
    (∀ f ∈ (program target args ty times).functions, ∀ v ∈ target :: args,
      (program target args ty times).HasOperand f v) ∧
      (program target args ty times).HasType ty ∧ times = 1 := by
  have hinst : call target args ty ∈ #[call target args ty] := Array.mem_singleton.2 rfl
  have hclosed := h.closed _ (Array.mem_singleton.2 rfl)
  refine ⟨fun f hf v hv => ?_, hclosed.instType _ hinst ty (List.mem_cons_self ..), ?_⟩
  · obtain rfl := Array.mem_singleton.1 hf
    exact hclosed.operand _ hinst v hv
  · obtain ⟨b, hb, hcount⟩ := hclosed.block _ hinst
    cases hb
    exact List.count_replicate_self.symm.trans hcount

/-- So a valid module may lack an operand or a struct type, and it may list an instruction never or
twice. -/
theorem not_isClosed_program :
    ¬ (program (.arg 0 : Value R) [] .void 1).IsClosed ∧
      ¬ (program (.undef : Value R) [] (.struct ⟨0⟩) 1).IsClosed ∧
      ¬ (program (.undef : Value R) [] .void 0).IsClosed ∧
      ¬ (program (.undef : Value R) [] .void 2).IsClosed := by
  refine ⟨fun h => ?_, fun h => ?_, fun h => ?_, fun h => ?_⟩
  · have harg := (isClosed_program h).1 _ (Array.mem_singleton.2 rfl) _ (List.mem_cons_self ..)
    cases harg
  · cases (isClosed_program h).2.1
  · cases (isClosed_program h).2.2
  · cases (isClosed_program h).2.2

end LooseEnds

end Roundoff
