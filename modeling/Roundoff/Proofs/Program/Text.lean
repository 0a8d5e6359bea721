/-
# Modules are read back from their text

A module is read back from its text if the numbers that it contains are, unless arrays and objects
are nested too deep in it, which is an error of the text.  Everything else is read as it was
written, one type after the other: names for alternatives, fields that are left out where there is
nothing, and `null` where an aggregate says nothing of a field.

Arrays and objects are nested a few levels deep in every module.  Only types and annotations can be
nested without bound.
-/
import Mathlib
import Roundoff.Number.Double
import Roundoff.Program.Text
import Roundoff.Proofs.Json.Codec
import Roundoff.Proofs.Program.Validity

namespace Roundoff

open Json

variable {R : Type}

/-! ## The numbers that a module contains -/

/-- The numbers that an operand contains. -/
def Value.floats : Value R → List R
  | constFloat x => [x]
  | inst _ | arg _ | global _ | function _ | constInt _ | undef => []

/-- The numbers that the annotation of a scalar contains. -/
def ScalarInfo.floats (info : ScalarInfo R) : List R :=
  (info.bounds.toList.flatMap fun (a, b) => [a, b]) ++ info.initialError.toList

namespace ValueInfo

mutual

/-- The numbers that an annotation contains. -/
def floats : ValueInfo R → List R
  | scalar info => info.floats
  | struct fields => floatsOfFields fields

/-- The numbers that the annotations of the fields of an aggregate contain. -/
def floatsOfFields : List (Option (ValueInfo R)) → List R
  | [] => []
  | none :: fields => floatsOfFields fields
  | some info :: fields => floats info ++ floatsOfFields fields

end

end ValueInfo

/-- The numbers that an optional annotation contains. -/
def floatsOfInfo (info : Option (ValueInfo R)) : List R := info.toList.flatMap ValueInfo.floats

/-- The numbers that an operation contains. -/
def Operation.floats (op : Operation R) : List R := op.operands.flatMap Value.floats

/-- The numbers that an instruction contains. -/
def Instruction.floats (i : Instruction R) : List R := i.op.floats ++ floatsOfInfo i.info

/-- The numbers that a function contains. -/
def Function.floats (f : Function R) : List R :=
  (f.params.toList.flatMap fun p => floatsOfInfo p.info) ++
    f.insts.toList.flatMap Instruction.floats

/-- The numbers that a module contains. -/
def Module.floats (m : Module R) : List R :=
  m.functions.toList.flatMap Function.floats ++
    m.globals.toList.flatMap fun g => floatsOfInfo g.info

/-! ## Positions and types -/

lemma readsBack_structId (id : StructId) : ReadsBack id :=
  (readsBack_uint32 id.val).map (f := StructId.mk) rfl fun _ => rfl

lemma readsBack_functionId (id : FunctionId) : ReadsBack id :=
  (readsBack_uint32 id.val).map (f := FunctionId.mk) rfl fun _ => rfl

lemma readsBack_blockId (id : BlockId) : ReadsBack id :=
  (readsBack_uint32 id.val).map (f := BlockId.mk) rfl fun _ => rfl

lemma readsBack_instId (id : InstId) : ReadsBack id :=
  (readsBack_uint32 id.val).map (f := InstId.mk) rfl fun _ => rfl

lemma readsBack_globalId (id : GlobalId) : ReadsBack id :=
  (readsBack_uint32 id.val).map (f := GlobalId.mk) rfl fun _ => rfl

/-- Types are read back, however they are nested. -/
lemma readsBack_ty (t : Ty) : ReadsBack t := by
  induction t with
  | void => exact reads_of_clip_eq (fun _ => rfl) rfl rfl
  | int bits => exact (readsBack_uint32 bits).variant "Int" Ty.int (fun _ => rfl) rfl
  | float bits => exact (readsBack_uint32 bits).variant "Float" Ty.float (fun _ => rfl) rfl
  | pointer t ih => exact Reads.tagged (Reads.map ih Ty.pointer) "Pointer" (fun _ => rfl) rfl
  | struct id => exact (readsBack_structId id).variant "Struct" Ty.struct (fun _ => rfl) rfl
  | array elem length ih =>
    have hpair : Reads (fun j => Ty.decode? (obj [("Array", j)]))
        (arr [elem.encode, toJson length]) (.array elem length) :=
      Reads.pair ih (readsBack_uint64 length) Ty.array (fun _ _ => rfl) rfl
    exact hpair.tagged "Array" (fun _ => rfl) rfl

/-! ## Operands -/

lemma Value.toJson_ne [ToJson R] (v : Value R) : toJson v ≠ null ∧ toJson v ≠ unreadable := by
  cases v <;> exact ⟨nofun, nofun⟩

lemma ValueInfo.toJson_ne [ToJson R] (info : ValueInfo R) :
    toJson info ≠ null ∧ toJson info ≠ unreadable := by
  cases info <;> exact ⟨nofun, nofun⟩

/-- An annotation is not read as the absence of one. -/
lemma ValueInfo.decodeFields?_cons [OfJson R] {j : Json} (hj : j ≠ null) (js : List Json) :
    decodeFields? (j :: js) = do
      let info ← (decode? j : Option (ValueInfo R))
      let infos ← decodeFields? js
      return some info :: infos := by
  cases j <;> first | exact absurd rfl hj | rfl

variable [ToJson R] [OfJson R]

lemma readsBack_value {v : Value R} (h : ∀ x ∈ v.floats, IsExact x) : ReadsBack v := by
  cases v with
  | inst id => exact (readsBack_instId id).variant "Inst" Value.inst (fun _ => rfl) rfl
  | arg index => exact (readsBack_uint32 index).variant "Arg" Value.arg (fun _ => rfl) rfl
  | global id => exact (readsBack_globalId id).variant "Global" Value.global (fun _ => rfl) rfl
  | function id =>
    exact (readsBack_functionId id).variant "Function" Value.function (fun _ => rfl) rfl
  | constInt raw => exact (readsBack_int64 raw).variant "ConstInt" Value.constInt (fun _ => rfl) rfl
  | constFloat x =>
    have hx : IsExact x := h x (List.mem_singleton_self x)
    exact hx.readsBack.variant "ConstFloat" Value.constFloat (fun _ => rfl) rfl
  | undef => exact reads_of_clip_eq (fun _ => rfl) rfl rfl

/-! ## Annotations -/

lemma readsBack_format (f : Format) : ReadsBack f :=
  reads_three (readsBack_uint32 f.width) (readsBack_uint32 f.fracBits) (readsBack_bool f.signed)
    (by decide) Format.mk

lemma readsBack_scalarInfo {info : ScalarInfo R} (h : ∀ x ∈ info.floats, IsExact x) :
    ReadsBack info := by
  have hbounds : ReadsBack info.bounds := readsBack_option fun (a, b) hab => by
    have hfloats : ∀ x ∈ [a, b], x ∈ info.floats := fun x hx =>
      List.mem_append_left _ (List.mem_flatMap.2 ⟨(a, b), Option.mem_toList.2 hab, hx⟩)
    have ha : IsExact a := h a (hfloats a List.mem_cons_self)
    have hb : IsExact b := h b (hfloats b (List.mem_cons_of_mem _ List.mem_cons_self))
    exact ⟨readsBack_pair ha.readsBack hb.readsBack, nofun, nofun⟩
  have herror : ReadsBack info.initialError := readsBack_option fun x hx => by
    have hexact := h x (List.mem_append_right _ (Option.mem_toList.2 hx))
    exact ⟨hexact.readsBack, hexact.toJson_ne⟩
  have hnames : (([("format", toJson info.format)] ++ optionalField "range" info.bounds
      ++ optionalField "initial_error" info.initialError).map Prod.fst).Nodup := by
    cases info.bounds <;> cases info.initialError <;> simp [optionalField]
  refine Reads.record hnames fun room => ?_
  rw [required_seen (readsBack_format info.format) ?_, optional_seen hbounds ?_,
    optional_seen herror ?_]
  · simp only [Option.bind_eq_bind, ite_some_bind, List.forall_mem_append,
      List.forall_mem_singleton, depth_optionalField_le, ite_and]
    rfl
  all_goals cases info.bounds <;> cases info.initialError <;> rfl

namespace ValueInfo

mutual

/-- Annotations are read back, however they are nested. -/
theorem reads_encode :
    ∀ info : ValueInfo R, (∀ x ∈ info.floats, IsExact x) → Reads decode? (encode info) info
  | scalar info, h => (readsBack_scalarInfo h).variant "Scalar" scalar (fun _ => rfl) rfl
  | struct fields, h => by
    have hfields : Reads (fun j => decode? (obj [("Struct", j)])) (arr (encodeFields fields))
        (struct fields) := by
      refine Reads.of_succ rfl (Nat.succ_pos _) rfl fun room => ?_
      rw [clip_succ_arr]
      change (decodeFields? ((encodeFields fields).map (clip room))).map struct = _
      rw [decodeFields?_clip fields h]
      simp only [depth_arr_le]
      split <;> rfl
    exact hfields.tagged "Struct" (fun _ => rfl) rfl

/-- So are the annotations of the fields of an aggregate. -/
theorem decodeFields?_clip :
    ∀ (fields : List (Option (ValueInfo R))), (∀ x ∈ floatsOfFields fields, IsExact x) →
      ∀ room, decodeFields? ((encodeFields fields).map (clip room))
        = if ∀ j ∈ encodeFields fields, depth j ≤ room then some fields else none
  | [], _, _ => by simp [encodeFields, decodeFields?]
  | none :: fields, h, room => by
    have hnull : clip room null = null := rfl
    have hdepth : depth null ≤ room := Nat.zero_le room
    rw [encodeFields, List.map_cons, hnull, decodeFields?, decodeFields?_clip fields h room]
    simp only [List.forall_mem_cons, hdepth, true_and]
    split <;> rfl
  | some info :: fields, h, room => by
    obtain ⟨hinfo, hfields⟩ := List.forall_mem_append.1 h
    have hread := reads_encode info hinfo room
    have hne : clip room (encode info) ≠ null :=
      clip_ne_null (toJson_ne info).1 (toJson_ne info).2 room
    rw [encodeFields, List.map_cons, decodeFields?_cons hne, hread,
      decodeFields?_clip fields hfields room]
    simp only [Option.bind_eq_bind, ite_some_bind, List.forall_mem_cons, ite_and]
    rfl

end

end ValueInfo

lemma readsBack_info {info : Option (ValueInfo R)} (h : ∀ x ∈ floatsOfInfo info, IsExact x) :
    ReadsBack info :=
  readsBack_option fun v hv => by
    have hfloats : ∀ x ∈ v.floats, x ∈ floatsOfInfo info := fun x hx =>
      List.mem_flatMap.2 ⟨v, Option.mem_toList.2 hv, hx⟩
    exact ⟨ValueInfo.reads_encode v fun x hx => h x (hfloats x hx), v.toJson_ne⟩

/-! ## Instructions -/

lemma readsBack_binaryOp (op : BinaryOp) : ReadsBack op :=
  reads_of_clip_eq (fun _ => rfl) rfl (by cases op <;> rfl)

lemma readsBack_castOp (op : CastOp) : ReadsBack op :=
  reads_of_clip_eq (fun _ => rfl) rfl (by cases op <;> rfl)

lemma readsBack_predicate (p : Predicate) : ReadsBack p :=
  reads_of_clip_eq (fun _ => rfl) rfl (by cases p <;> rfl)

lemma readsBack_callee {callee : Callee R} (h : ∀ v ∈ callee.operands, ReadsBack v) :
    ReadsBack callee := by
  cases callee with
  | direct id => exact (readsBack_functionId id).variant "Direct" Callee.direct (fun _ => rfl) rfl
  | external name =>
    exact (readsBack_string name).variant "External" Callee.external (fun _ => rfl) rfl
  | indirect target =>
    exact (h target (List.mem_singleton_self _)).variant "Indirect" Callee.indirect (fun _ => rfl)
      rfl

/-- Operations are read back. -/
lemma readsBack_operation {op : Operation R} (h : ∀ x ∈ op.floats, IsExact x) : ReadsBack op := by
  have hoperand : ∀ v ∈ op.operands, ReadsBack v := fun v hv =>
    readsBack_value fun x hx => h x (List.mem_flatMap.2 ⟨v, hv, hx⟩)
  cases op with
  | binary op lhs rhs =>
    obtain ⟨hlhs, hrhs⟩ : ReadsBack lhs ∧ ReadsBack rhs := by
      simpa [Operation.operands] using hoperand
    exact (reads_three (readsBack_binaryOp op) hlhs hrhs (by decide) Operation.binary).tagged
      "Binary" (fun _ => rfl) rfl
  | cast op operand =>
    exact (reads_two (readsBack_castOp op) (hoperand operand (List.mem_singleton_self _))
      (by decide) Operation.cast).tagged "Cast" (fun _ => rfl) rfl
  | icmp p lhs rhs =>
    obtain ⟨hlhs, hrhs⟩ : ReadsBack lhs ∧ ReadsBack rhs := by
      simpa [Operation.operands] using hoperand
    exact (reads_three (readsBack_predicate p) hlhs hrhs (by decide) Operation.icmp).tagged "ICmp"
      (fun _ => rfl) rfl
  | fcmp p lhs rhs =>
    obtain ⟨hlhs, hrhs⟩ : ReadsBack lhs ∧ ReadsBack rhs := by
      simpa [Operation.operands] using hoperand
    exact (reads_three (readsBack_predicate p) hlhs hrhs (by decide) Operation.fcmp).tagged "FCmp"
      (fun _ => rfl) rfl
  | select c t f =>
    obtain ⟨hc, ht, hf⟩ : ReadsBack c ∧ ReadsBack t ∧ ReadsBack f := by
      simpa [Operation.operands] using hoperand
    exact (reads_three hc ht hf (by decide) Operation.select).tagged "Select" (fun _ => rfl) rfl
  | phi incoming =>
    have hincoming : ReadsBack incoming := readsBack_list fun p hp =>
      readsBack_pair (hoperand p.1 (List.mem_map_of_mem hp)) (readsBack_blockId p.2)
    exact (reads_one hincoming "incoming" Operation.phi).tagged "Phi" (fun _ => rfl) rfl
  | alloca allocated =>
    exact (reads_one (readsBack_ty allocated) "allocated" Operation.alloca).tagged "Alloca"
      (fun _ => rfl) rfl
  | load ptr =>
    exact (reads_one (hoperand ptr (List.mem_singleton_self _)) "ptr" Operation.load).tagged "Load"
      (fun _ => rfl) rfl
  | store value ptr =>
    obtain ⟨hvalue, hptr⟩ : ReadsBack value ∧ ReadsBack ptr := by
      simpa [Operation.operands] using hoperand
    exact (reads_two hvalue hptr (by decide) Operation.store).tagged "Store" (fun _ => rfl) rfl
  | element base indices =>
    obtain ⟨hbase, hindices⟩ := List.forall_mem_cons.1 hoperand
    exact (reads_two hbase (readsBack_list hindices) (by decide) Operation.element).tagged
      "GetElementPtr" (fun _ => rfl) rfl
  | call callee args =>
    obtain ⟨htarget, hargs⟩ := List.forall_mem_append.1 hoperand
    exact (reads_two (readsBack_callee htarget) (readsBack_list hargs) (by decide)
      Operation.call).tagged "Call" (fun _ => rfl) rfl
  | invoke callee args normal unwind =>
    obtain ⟨htarget, hargs⟩ := List.forall_mem_append.1 hoperand
    have hcontents : Reads (fun j => Operation.decode? (obj [("Invoke", j)]))
        (obj [("callee", toJson callee), ("args", toJson args), ("normal", toJson normal),
          ("unwind", toJson unwind)]) (.invoke callee args normal unwind) := by
      refine Reads.record (by simp) fun room => ?_
      rw [required_seen (readsBack_callee htarget) ?_, required_seen (readsBack_list hargs) ?_,
        required_seen (readsBack_blockId normal) ?_, required_seen (readsBack_blockId unwind) ?_]
      · simp only [Option.bind_eq_bind, ite_some_bind, List.forall_mem_cons, ite_and]
        rfl
      all_goals rfl
    exact hcontents.tagged "Invoke" (fun _ => rfl) rfl
  | ret value =>
    have hvalue : ReadsBack value := readsBack_option fun v hv =>
      ⟨hoperand v (Option.mem_toList.2 hv), v.toJson_ne⟩
    have hcontents : Reads (fun j => Operation.decode? (obj [("Ret", j)]))
        (obj [("value", toJson value)]) (.ret value) := by
      refine Reads.record (by simp) fun room => ?_
      rw [nullable_seen hvalue rfl]
      simp only [Option.bind_eq_bind, ite_some_bind, List.forall_mem_singleton]
      rfl
    exact hcontents.tagged "Ret" (fun _ => rfl) rfl
  | br target =>
    exact (reads_one (readsBack_blockId target) "target" Operation.br).tagged "Br" (fun _ => rfl)
      rfl
  | condBr c t f =>
    exact (reads_three (hoperand c (List.mem_singleton_self _)) (readsBack_blockId t)
      (readsBack_blockId f) (by decide) Operation.condBr).tagged "CondBr" (fun _ => rfl) rfl
  | unreachable => exact reads_of_clip_eq (fun _ => rfl) rfl rfl

/-- Labels may be absent. -/
lemma readsBack_label (label : Option String) : ReadsBack label :=
  readsBack_option fun s _ => ⟨readsBack_string s, nofun, nofun⟩

/-- So may numbers that say how often something is done. -/
lemma readsBack_count (count : Option UInt32) : ReadsBack count :=
  readsBack_option fun n _ => ⟨readsBack_uint32 n, nofun, nofun⟩

lemma readsBack_instruction {i : Instruction R} (h : ∀ x ∈ i.floats, IsExact x) :
    ReadsBack i := by
  obtain ⟨hop, hinfo⟩ := List.forall_mem_append.1 h
  have hnames : (([("id", toJson i.id), ("block", toJson i.block), ("name", toJson i.name),
      ("ty", toJson i.ty), ("kind", toJson i.op)] ++ optionalField "info" i.info
      ++ optionalField "target" i.target).map Prod.fst).Nodup := by
    cases i.info <;> cases i.target <;> simp [optionalField]
  refine Reads.record hnames fun room => ?_
  rw [required_seen (readsBack_instId i.id) ?_, required_seen (readsBack_blockId i.block) ?_,
    withDefault_seen (readsBack_string i.name) ?_, required_seen (readsBack_ty i.ty) ?_,
    required_seen (readsBack_operation hop) ?_, optional_seen (readsBack_info hinfo) ?_,
    optional_seen (readsBack_label i.target) ?_]
  · simp only [Option.bind_eq_bind, ite_some_bind, List.forall_mem_append, List.forall_mem_cons,
      depth_optionalField_le, ite_and]
    rfl
  all_goals cases i.info <;> cases i.target <;> rfl

/-! ## Functions and modules -/

lemma readsBack_param {p : Param R} (h : ∀ x ∈ floatsOfInfo p.info, IsExact x) : ReadsBack p := by
  have hnames : (([("name", toJson p.name), ("ty", toJson p.ty)]
      ++ optionalField "info" p.info).map Prod.fst).Nodup := by
    cases p.info <;> simp [optionalField]
  refine Reads.record hnames fun room => ?_
  rw [required_seen (readsBack_string p.name) ?_, required_seen (readsBack_ty p.ty) ?_,
    optional_seen (readsBack_info h) ?_]
  · simp only [Option.bind_eq_bind, ite_some_bind, List.forall_mem_append, List.forall_mem_cons,
      depth_optionalField_le, ite_and]
    rfl
  all_goals cases p.info <;> rfl

lemma readsBack_block (b : Block) : ReadsBack b := by
  have hinsts : ReadsBack b.insts := readsBack_list fun id _ => readsBack_instId id
  have hnames : (([("id", toJson b.id), ("name", toJson b.name), ("insts", toJson b.insts)]
      ++ optionalField "unroll_hint" b.unrollHint
      ++ optionalField "trip_count" b.tripCount).map Prod.fst).Nodup := by
    cases b.unrollHint <;> cases b.tripCount <;> simp [optionalField]
  refine Reads.record hnames fun room => ?_
  rw [required_seen (readsBack_blockId b.id) ?_, withDefault_seen (readsBack_string b.name) ?_,
    required_seen hinsts ?_, optional_seen (readsBack_count b.unrollHint) ?_,
    optional_seen (readsBack_count b.tripCount) ?_]
  · simp only [Option.bind_eq_bind, ite_some_bind, List.forall_mem_append, List.forall_mem_cons,
      depth_optionalField_le, ite_and]
    rfl
  all_goals cases b.unrollHint <;> cases b.tripCount <;> rfl

lemma readsBack_function {f : Function R} (h : ∀ x ∈ f.floats, IsExact x) : ReadsBack f := by
  obtain ⟨hparams, hinsts⟩ := List.forall_mem_append.1 h
  have hparams : ReadsBack f.params := readsBack_array fun p hp => readsBack_param fun x hx =>
    hparams x (List.mem_flatMap.2 ⟨p, Array.mem_toList_iff.2 hp, hx⟩)
  have hblocks : ReadsBack f.blocks := readsBack_array fun b _ => readsBack_block b
  have hinsts : ReadsBack f.insts := readsBack_array fun i hi => readsBack_instruction fun x hx =>
    hinsts x (List.mem_flatMap.2 ⟨i, Array.mem_toList_iff.2 hi, hx⟩)
  have hnames : (([("id", toJson f.id), ("name", toJson f.name), ("params", toJson f.params),
      ("ret_ty", toJson f.retTy), ("blocks", toJson f.blocks), ("insts", toJson f.insts)]
      ++ optionalField "max_recursion" f.maxRecursion
      ++ [("entry_point", toJson f.entryPoint)]).map Prod.fst).Nodup := by
    cases f.maxRecursion <;> simp [optionalField]
  refine Reads.record hnames fun room => ?_
  rw [required_seen (readsBack_functionId f.id) ?_, required_seen (readsBack_string f.name) ?_,
    required_seen hparams ?_, required_seen (readsBack_ty f.retTy) ?_, required_seen hblocks ?_,
    required_seen hinsts ?_, optional_seen (readsBack_count f.maxRecursion) ?_,
    withDefault_seen (readsBack_bool f.entryPoint) ?_]
  · simp only [Option.bind_eq_bind, ite_some_bind, List.forall_mem_append, List.forall_mem_cons,
      depth_optionalField_le, ite_and]
    rfl
  all_goals cases f.maxRecursion <;> rfl

lemma readsBack_global {g : Global R} (h : ∀ x ∈ floatsOfInfo g.info, IsExact x) :
    ReadsBack g := by
  have hnames : (([("id", toJson g.id), ("name", toJson g.name), ("ty", toJson g.ty)]
      ++ optionalField "info" g.info ++ optionalField "target" g.target).map Prod.fst).Nodup := by
    cases g.info <;> cases g.target <;> simp [optionalField]
  refine Reads.record hnames fun room => ?_
  rw [required_seen (readsBack_globalId g.id) ?_, required_seen (readsBack_string g.name) ?_,
    required_seen (readsBack_ty g.ty) ?_, optional_seen (readsBack_info h) ?_,
    optional_seen (readsBack_label g.target) ?_]
  · simp only [Option.bind_eq_bind, ite_some_bind, List.forall_mem_append, List.forall_mem_cons,
      depth_optionalField_le, ite_and]
    rfl
  all_goals cases g.info <;> cases g.target <;> rfl

lemma readsBack_structType (s : StructType) : ReadsBack s :=
  reads_two (readsBack_string s.name) (readsBack_list fun t _ => readsBack_ty t) (by decide)
    StructType.mk

lemma readsBack_module {m : Module R} (h : ∀ x ∈ m.floats, IsExact x) : ReadsBack m := by
  obtain ⟨hfunctions, hglobals⟩ := List.forall_mem_append.1 h
  have hfunctions : ReadsBack m.functions := readsBack_array fun f hf =>
    readsBack_function fun x hx =>
      hfunctions x (List.mem_flatMap.2 ⟨f, Array.mem_toList_iff.2 hf, hx⟩)
  have hglobals : ReadsBack m.globals := readsBack_array fun g hg => readsBack_global fun x hx =>
    hglobals x (List.mem_flatMap.2 ⟨g, Array.mem_toList_iff.2 hg, hx⟩)
  have hstructs : ReadsBack m.structs := readsBack_array fun s _ => readsBack_structType s
  refine Reads.record (by simp) fun room => ?_
  rw [required_seen (readsBack_string m.name) ?_, required_seen hfunctions ?_,
    withDefault_seen hglobals ?_, withDefault_seen hstructs ?_]
  · simp only [Option.bind_eq_bind, ite_some_bind, List.forall_mem_cons, ite_and]
    rfl
  all_goals rfl

namespace Module

/-- A module is read back from its text exactly if nothing is nested too deep in it; it is then
checked. -/
theorem read_write_eq {m : Module R} (h : ∀ x ∈ m.floats, IsExact x) :
    read m.write
      = if depth (toJson m) ≤ maxDepth then
          match m.defect? with
          | some d => .error (.invalid d)
          | none => .ok m
        else .error .syntaxError := by
  have hread := readsBack_module h maxDepth
  rw [read, write, writeLines, read?_writeOnto]
  dsimp only
  by_cases hdepth : depth (toJson m) ≤ maxDepth
  · rw [if_pos hdepth] at hread
    rw [ofJson, hread]
    exact (if_pos hdepth).symm
  · rw [if_neg hdepth] at hread
    rw [ofJson, hread]
    exact (if_neg hdepth).symm

/-- **Valid modules are read back.**  Let the numbers of a module be finite, and let finite numbers
be written and read exactly.  If the module is valid, then it is read back from its text, provided
that arrays and objects are not nested too deep in the text; otherwise the text is refused. -/
theorem read_write_of_valid [Number R] {m : Module R}
    (hexact : ∀ x ∈ m.floats, Number.isFinite x = true → IsExact x)
    (hfinite : ∀ x ∈ m.floats, Number.isFinite x = true) (hvalid : m.defect? = none) :
    read m.write = if depth (toJson m) ≤ maxDepth then .ok m else .error .syntaxError := by
  rw [read_write_eq fun x hx => hexact x hx (hfinite x hx), hvalid]

end Module

/-! ## Modules that are read back and that are not -/

namespace AnnotatedPair

/-- A module with numbers in the annotation of one field of an aggregate and in an operand. -/
def program : Module Float where
  name := "annotated"
  functions := #[{
    id := ⟨0⟩, name := "main", params := #[], retTy := .float 64,
    blocks := #[⟨⟨0⟩, "entry", [⟨0⟩], none, some 3⟩],
    insts := #[⟨⟨0⟩, ⟨0⟩, "", .void, .ret (some (.constFloat 0.1)), none, none⟩],
    maxRecursion := none, entryPoint := true }]
  globals := #[⟨⟨0⟩, "pair", .struct ⟨0⟩,
    some (.struct [some (.scalar ⟨⟨32, 16, true⟩, some (0.1, 0.5), none⟩), none]), none⟩]
  structs := #[⟨"pair", [.int 32, .pointer (.int 8)]⟩]

lemma floats_program : program.floats = [0.1, 0.1, 0.5] := rfl

/-- It is read back. -/
theorem read_write_program : Module.read program.write = .ok program := by
  have htenth : IsExact (0.1 : Float) := ⟨by decide +kernel, by decide +kernel⟩
  have hhalf : IsExact (0.5 : Float) := ⟨by decide +kernel, by decide +kernel⟩
  have hexact : ∀ x ∈ program.floats, Number.isFinite x = true → IsExact x := by
    rw [floats_program]
    simp only [List.forall_mem_cons]
    exact ⟨fun _ => htenth, fun _ => htenth, fun _ => hhalf, nofun⟩
  have hfinite : ∀ x ∈ program.floats, Number.isFinite x = true := by
    rw [floats_program]
    decide +kernel
  have hdepth : depth (toJson program) ≤ maxDepth := by decide +kernel
  rw [Module.read_write_of_valid hexact hfinite rfl, if_pos hdepth]

end AnnotatedPair

namespace NestedPointers

/-- A pointer to a pointer, and so on. -/
def pointers : ℕ → Ty
  | 0 => .void
  | n + 1 => .pointer (pointers n)

/-- A module whose only struct type has a field of such a type. -/
def program (n : ℕ) : Module Float := ⟨"m", #[], #[], #[⟨"s", [pointers n]⟩]⟩

lemma depth_toJson_program (n : ℕ) : depth (toJson (program n)) = n + 4 := by
  have hpointers (n : ℕ) : depth (pointers n).encode = n := by
    induction n with
    | zero => rfl
    | succ n ih =>
      change max (depth (pointers n).encode) 0 + 1 = n + 1
      rw [ih, Nat.max_zero]
  change max 0 (max 1 (max 1 (max (max (max 0 (max (max (depth (pointers n).encode) 0 + 1) 0) + 1)
    0 + 1) 0))) + 1 = n + 4
  rw [hpointers]
  omega

/-- With 124 pointers, arrays and objects are nested 128 deep: the module is valid and contains no
numbers, but its text is refused. -/
theorem read_write_refused : (program 124).defect? = none ∧ (program 124).floats = [] ∧
    (Module.read (program 124).write : Except ModuleError (Module Float))
      = .error .syntaxError := by
  have hfloats : (program 124).floats = [] := rfl
  have hexact : ∀ x ∈ (program 124).floats, IsExact x := by simp [hfloats]
  have hdepth : ¬ depth (toJson (program 124)) ≤ maxDepth := by
    rw [depth_toJson_program]
    decide
  exact ⟨rfl, hfloats, by rw [Module.read_write_eq hexact, if_neg hdepth]⟩

end NestedPointers

end Roundoff
