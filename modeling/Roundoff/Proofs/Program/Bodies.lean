/-
# Bodies under construction

The body of a function is built by calls that add formal parameters, blocks and instructions, in
whatever order, and that change what was added before: an instruction is annotated or labelled, and
a phi is given a value for a further block, which may have been added after the phi.

Whatever is called, a body grows: what has been added stays at its position and keeps its name, its
type and its block.  And the body stays *built*: everything is at the position that it carries, and
each block lists the instructions that were pushed into it, in the order in which they were pushed.
For that the calls may refer to blocks and functions that exist only.
-/
import Mathlib
import Roundoff.Program.Builder
import Roundoff.Proofs.Program.Validity

namespace Roundoff

variable {R : Type} {m m' : Module R} {f f' f'' : Function R} {i i' i'' : Instruction R}
  {op op' op'' : Operation R}

/-! ## Growing bodies -/

/-- What is pushed leaves the positions of what has been there. -/
lemma getElem?_push_of_eq_some {α : Type} {xs : Array α} {k : ℕ} {x : α} (h : xs[k]? = some x)
    (y : α) : (xs.push y)[k]? = some x := by
  rw [Array.getElem?_push, if_neg (Array.getElem?_eq_some_iff.1 h).1.ne, h]

/-- The position that is answered for what is pushed is a position, even if it has been answered
before. -/
lemma isSome_getElem?_push {α : Type} (xs : Array α) (y : α) :
    ((xs.push y)[(UInt32.ofNat xs.size).toNat]?).isSome := by
  have hlt : (UInt32.ofNat xs.size).toNat < (xs.push y).size := by
    rw [UInt32.toNat_ofNat', Array.size_push]
    exact Nat.lt_succ_of_le (Nat.mod_le _ _)
  rw [Array.getElem?_eq_getElem hlt, Option.isSome_some]

/-- The same operation, or a phi with further incoming values. -/
def Operation.Continues (op op' : Operation R) : Prop :=
  op' = op ∨ ∃ vs ws, op = .phi vs ∧ op' = .phi (vs ++ ws)

lemma Operation.Continues.trans (h : op.Continues op') (h' : op'.Continues op'') :
    op.Continues op'' := by
  rcases h with rfl | ⟨vs, ws, rfl, rfl⟩
  · exact h'
  · rcases h' with rfl | ⟨vs', ws', heq, rfl⟩
    · exact Or.inr ⟨vs, ws, rfl, rfl⟩
    · cases heq
      exact Or.inr ⟨vs, ws ++ ws', rfl, by rw [List.append_assoc]⟩

/-- The same instruction, up to what is known of it and the incoming values of a phi. -/
structure Instruction.Continues (i i' : Instruction R) : Prop where
  id : i'.id = i.id
  block : i'.block = i.block
  name : i'.name = i.name
  ty : i'.ty = i.ty
  op : i.op.Continues i'.op

lemma Instruction.Continues.refl (i : Instruction R) : i.Continues i :=
  ⟨rfl, rfl, rfl, rfl, .inl rfl⟩

lemma Instruction.Continues.trans (h : i.Continues i') (h' : i'.Continues i'') : i.Continues i'' :=
  ⟨h'.id.trans h.id, h'.block.trans h.block, h'.name.trans h.name, h'.ty.trans h.ty,
    h.op.trans h'.op⟩

namespace Function

/-- Everything in `f` is in `f'` as well, at the same position. -/
structure Grows (f f' : Function R) : Prop where
  id : f'.id = f.id
  name : f'.name = f.name
  retTy : f'.retTy = f.retTy
  param : ∀ {k : ℕ} {p}, f.params[k]? = some p → f'.params[k]? = some p
  block : ∀ {k : ℕ} {b}, f.blocks[k]? = some b →
    ∃ b', f'.blocks[k]? = some b' ∧ b'.id = b.id ∧ b'.name = b.name
  inst : ∀ {k : ℕ} {i}, f.insts[k]? = some i → ∃ i', f'.insts[k]? = some i' ∧ i.Continues i'

namespace Grows

lemma refl (f : Function R) : f.Grows f where
  id := rfl
  name := rfl
  retTy := rfl
  param h := h
  block h := ⟨_, h, rfl, rfl⟩
  inst h := ⟨_, h, .refl _⟩

lemma trans (h : f.Grows f') (h' : f'.Grows f'') : f.Grows f'' where
  id := h'.id.trans h.id
  name := h'.name.trans h.name
  retTy := h'.retTy.trans h.retTy
  param hk := h'.param (h.param hk)
  block hk := by
    obtain ⟨b', hb', hid, hname⟩ := h.block hk
    obtain ⟨b'', hb'', hid', hname'⟩ := h'.block hb'
    exact ⟨b'', hb'', hid'.trans hid, hname'.trans hname⟩
  inst hk := by
    obtain ⟨i', hi', hcontinues⟩ := h.inst hk
    obtain ⟨i'', hi'', hcontinues'⟩ := h'.inst hi'
    exact ⟨i'', hi'', hcontinues.trans hcontinues'⟩

lemma isSome_block? (h : f.Grows f') {b : BlockId} (hb : (f.block? b).isSome) :
    (f'.block? b).isSome := by
  obtain ⟨block, hblock⟩ := Option.isSome_iff_exists.1 hb
  obtain ⟨block', hblock', -⟩ := h.block hblock
  exact Option.isSome_of_eq_some hblock'

/-- Nothing is taken away. -/
lemma sizes_le (h : f.Grows f') : f.params.size ≤ f'.params.size ∧ f.blocks.size ≤ f'.blocks.size ∧
    f.insts.size ≤ f'.insts.size := by
  refine ⟨le_of_forall_lt fun k hk => ?_, le_of_forall_lt fun k hk => ?_,
    le_of_forall_lt fun k hk => ?_⟩
  · exact (Array.getElem?_eq_some_iff.1 (h.param (Array.getElem?_eq_getElem hk))).1
  · obtain ⟨b', hb', -⟩ := h.block (Array.getElem?_eq_getElem hk)
    exact (Array.getElem?_eq_some_iff.1 hb').1
  · obtain ⟨i', hi', -⟩ := h.inst (Array.getElem?_eq_getElem hk)
    exact (Array.getElem?_eq_some_iff.1 hi').1

end Grows

end Function

/-! ## Built bodies -/

/-- The blocks and functions to which an operation refers exist. -/
structure Operation.RefersIn (m : Module R) (f : Function R) (op : Operation R) : Prop where
  /-- The blocks that may follow exist. -/
  successor : ∀ b ∈ op.successors, (f.block? b).isSome
  /-- The blocks for which a phi has a value exist. -/
  incoming : ∀ vs, op.incoming? = some vs → ∀ e ∈ vs, (f.block? e.2).isSome
  /-- A function that is called directly exists. -/
  callee : ∀ id args, op.callSite? = some (.direct id, args) → (m.function? id).isSome

lemma Operation.RefersIn.mono (h : op.RefersIn m f)
    (hm : ∀ id, (m.function? id).isSome → (m'.function? id).isSome)
    (hf : ∀ b, (f.block? b).isSome → (f'.block? b).isSome) : op.RefersIn m' f' where
  successor b hb := hf b (h.successor b hb)
  incoming vs hvs e he := hf e.2 (h.incoming vs hvs e he)
  callee id args hcall := hm id (h.callee id args hcall)

namespace Function

/-- The positions of the instructions in order, each with the block of the instruction. -/
def placements (f : Function R) : List (InstId × BlockId) :=
  f.insts.toList.map fun i => (i.id, i.block)

/-- The body of a function is as its builder leaves it. -/
structure IsBuilt (m : Module R) (f : Function R) : Prop where
  /-- Every block carries its own position. -/
  block_id : ∀ {k : ℕ} {b}, f.blocks[k]? = some b → b.id = ⟨UInt32.ofNat k⟩
  /-- Every instruction carries its own position. -/
  inst_id : ∀ {k : ℕ} {i}, f.insts[k]? = some i → i.id = ⟨UInt32.ofNat k⟩
  /-- Every instruction is in a block that exists. -/
  inst_block : ∀ {k : ℕ} {i}, f.insts[k]? = some i → (f.block? i.block).isSome
  /-- Every block lists the instructions that are in it, in their order. -/
  listed : ∀ {k : ℕ} {b}, f.blocks[k]? = some b →
    b.insts = (f.placements.filter fun p => p.2.val.toNat = k).map Prod.fst
  /-- What instructions refer to exists. -/
  refers : ∀ {k : ℕ} {i}, f.insts[k]? = some i → i.op.RefersIn m f

namespace IsBuilt

lemma mono (h : f.IsBuilt m) (hm : ∀ id, (m.function? id).isSome → (m'.function? id).isSome) :
    f.IsBuilt m' :=
  { h with refers := fun hi => (h.refers hi).mono hm fun _ hb => hb }

lemma declaration (id : FunctionId) (name : String) (params : Array (Param R)) (retTy : Ty) :
    (Function.declaration id name params retTy).IsBuilt m where
  block_id h := by cases h
  inst_id h := by cases h
  inst_block h := by cases h
  listed h := by cases h
  refers h := by cases h

variable {k : ℕ} {b : Block}

lemma toNat_block_id (h : f.IsBuilt m) (hsize : f.blocks.size ≤ UInt32.size)
    (hb : f.blocks[k]? = some b) : b.id.val.toNat = k := by
  rw [h.block_id hb]
  exact UInt32.toNat_ofNat_of_lt' ((Array.getElem?_eq_some_iff.1 hb).1.trans_le hsize)

lemma toNat_inst_id (h : f.IsBuilt m) (hsize : f.insts.size ≤ UInt32.size)
    (hi : f.insts[k]? = some i) : i.id.val.toNat = k := by
  rw [h.inst_id hi]
  exact UInt32.toNat_ofNat_of_lt' ((Array.getElem?_eq_some_iff.1 hi).1.trans_le hsize)

/-- A built body is wired if there is a position for each block and each instruction. -/
lemma isWired (h : f.IsBuilt m) (hblocks : f.blocks.size ≤ UInt32.size)
    (hinsts : f.insts.size ≤ UInt32.size) : f.IsWired m where
  block_id _ _ hb := h.toNat_block_id hblocks hb
  inst_id _ _ hi := h.toNat_inst_id hinsts hi
  listed b hb id hid := by
    obtain ⟨k, hk⟩ := Array.mem_iff_getElem?.1 hb
    rw [h.listed hk, List.mem_map] at hid
    obtain ⟨p, hp, rfl⟩ := hid
    rw [List.mem_filter, placements, List.mem_map] at hp
    obtain ⟨⟨i, hi, rfl⟩, hblock⟩ := hp
    obtain ⟨j, hj⟩ := Array.mem_iff_getElem?.1 (Array.mem_toList_iff.1 hi)
    refine ⟨i, by rw [inst?, h.toNat_inst_id hinsts hj, hj], ?_⟩
    rw [decide_eq_true_iff, ← h.toNat_block_id hblocks hk] at hblock
    exact congrArg BlockId.mk (UInt32.toNat_inj.1 hblock)
  successor i hi b hb := by
    obtain ⟨k, hk⟩ := Array.mem_iff_getElem?.1 hi
    exact (h.refers hk).successor b hb
  incoming i hi vs hvs e he := by
    obtain ⟨k, hk⟩ := Array.mem_iff_getElem?.1 hi
    exact (h.refers hk).incoming vs hvs e he
  callee i hi id args hcall := by
    obtain ⟨k, hk⟩ := Array.mem_iff_getElem?.1 hi
    exact (h.refers hk).callee id args hcall

/-- No position is carried twice. -/
lemma nodup_placements (h : f.IsBuilt m) (hsize : f.insts.size ≤ UInt32.size) :
    (f.placements.map Prod.fst).Nodup := by
  have hrange : f.placements.map (fun p => p.1.val.toNat) = List.range f.insts.size := by
    refine List.ext_getElem (by simp [placements]) fun k hk hk' => ?_
    have hlt : k < f.insts.size := by simpa using hk'
    simp only [placements, List.map_map, List.getElem_map, List.getElem_range, Array.getElem_toList]
    exact h.toNat_inst_id hsize (Array.getElem?_eq_getElem hlt)
  refine List.Nodup.of_map (fun id => id.val.toNat) ?_
  rw [List.map_map]
  exact (congrArg List.Nodup hrange).mpr List.nodup_range

/-- No instruction is listed twice. -/
lemma listedOnce (h : f.IsBuilt m) (hsize : f.insts.size ≤ UInt32.size) : f.ListedOnce := by
  have hnodup := h.nodup_placements hsize
  refine List.nodup_flatMap.2
    ⟨fun b hb => ?_, List.pairwise_iff_getElem.2 fun k k' hk hk' hlt => ?_⟩
  · obtain ⟨k, hk⟩ := Array.mem_iff_getElem?.1 (Array.mem_toList_iff.1 hb)
    rw [h.listed hk]
    exact hnodup.sublist (List.filter_sublist.map _)
  · have hget {j : ℕ} (hj : j < f.blocks.toList.length) :
        f.blocks[j]? = some f.blocks.toList[j] := by
      rw [Array.length_toList] at hj
      rw [Array.getElem_toList, Array.getElem?_eq_getElem hj]
    intro id hid hid'
    rw [h.listed (hget hk), List.mem_map] at hid
    rw [h.listed (hget hk'), List.mem_map] at hid'
    obtain ⟨p, hp, rfl⟩ := hid
    obtain ⟨q, hq, heq⟩ := hid'
    rw [List.mem_filter, decide_eq_true_iff] at hp hq
    obtain rfl := List.inj_on_of_nodup_map hnodup hq.1 hp.1 heq
    exact absurd (hp.2.symm.trans hq.2) hlt.ne

/-- Every block lists the instructions that name it. -/
lemma insts_eq (h : f.IsBuilt m) (hsize : f.blocks.size ≤ UInt32.size)
    (hb : f.blocks[k]? = some b) :
    b.insts = (f.placements.filter fun p => p.2 = b.id).map Prod.fst := by
  rw [h.listed hb]
  refine congrArg (List.map Prod.fst) (List.filter_congr fun p _ => ?_)
  rw [← h.toNat_block_id hsize hb, decide_eq_decide]
  exact ⟨fun heq => congrArg BlockId.mk (UInt32.toNat_inj.1 heq), fun heq => heq ▸ rfl⟩

/-- Every instruction is listed by its block. -/
lemma exists_block (h : f.IsBuilt m) {p : InstId × BlockId} (hp : p ∈ f.placements) :
    ∃ b, f.block? p.2 = some b ∧ p.1 ∈ b.insts := by
  obtain ⟨i, hi, rfl⟩ := List.mem_map.1 hp
  obtain ⟨j, hj⟩ := Array.mem_iff_getElem?.1 (Array.mem_toList_iff.1 hi)
  obtain ⟨b, hb⟩ := Option.isSome_iff_exists.1 (h.inst_block hj)
  refine ⟨b, hb, ?_⟩
  rw [h.listed hb]
  exact List.mem_map.2 ⟨_, List.mem_filter.2 ⟨hp, decide_eq_true rfl⟩, rfl⟩

end IsBuilt

end Function

/-! ## Calls -/

/-- A call that builds a body.  All instructions are made by `push`. -/
inductive BodyCall (R : Type) where
  | param (name : String) (ty : Ty) (info : Option (ValueInfo R))
  | maxRecursion (bound : UInt32)
  | entryPoint
  | block (name : String)
  | positionAt (block : BlockId)
  | loopHints (header : BlockId) (unrollHint tripCount : Option UInt32)
  | push (name : String) (ty : Ty) (op : Operation R)
  | annotate (v : Value R) (info : ValueInfo R)
  | target (v : Value R) (label : String)
  | incoming (phi value : Value R) (block : BlockId)

namespace FunctionBuilder

variable {b : FunctionBuilder R} {change : Instruction R → Instruction R}

/-- What a call makes of a body. -/
def apply (b : FunctionBuilder R) : BodyCall R → FunctionBuilder R
  | .param name ty info => (b.addParam name ty info).2
  | .maxRecursion bound => b.setMaxRecursion bound
  | .entryPoint => b.markEntryPoint
  | .block name => (b.addBlock name).2
  | .positionAt block => b.positionAt block
  | .loopHints header unrollHint tripCount => b.setLoopHints header unrollHint tripCount
  | .push name ty op => (b.push name ty op).2
  | .annotate v info => b.annotate v info
  | .target v label => b.setTarget v label
  | .incoming phi v block => b.addIncoming phi v block

/-- The body is built as far as it goes, and instructions are pushed into a block that exists. -/
structure IsSound (m : Module R) (b : FunctionBuilder R) : Prop where
  built : b.function.IsBuilt m
  current : ∀ block, b.current = some block → (b.function.block? block).isSome

lemma isSound_start (id : FunctionId) (name : String) (retTy : Ty) :
    (start id name retTy : FunctionBuilder R).IsSound m :=
  ⟨.declaration id name #[] retTy, nofun⟩

lemma IsSound.mono (h : b.IsSound m)
    (hm : ∀ id, (m.function? id).isSome → (m'.function? id).isSome) : b.IsSound m' :=
  ⟨h.built.mono hm, h.current⟩

/-! ### Changing instructions and blocks -/

lemma grows_modifyInst (v : Value R) (hchange : ∀ i : Instruction R, i.Continues (change i)) :
    b.function.Grows (b.modifyInst v change).function := by
  rw [modifyInst]
  split
  · exact
    { Function.Grows.refl b.function with
      inst := fun {k i} hi => by
        rw [Array.getElem?_modify, hi]
        split
        · exact ⟨change i, rfl, hchange i⟩
        · exact ⟨i, rfl, .refl i⟩ }
  · exact .refl _

lemma placements_modifyInst (v : Value R) (hchange : ∀ i : Instruction R, i.Continues (change i)) :
    (b.modifyInst v change).function.placements = b.function.placements := by
  rw [modifyInst]
  split
  · refine List.ext_getElem? fun k => ?_
    simp only [Function.placements, List.getElem?_map, Array.getElem?_toList,
      Array.getElem?_modify]
    split
    · rw [Option.map_map]
      refine congrArg (Option.map · _) (funext fun i => ?_)
      exact Prod.ext (hchange i).id (hchange i).block
    · rfl
  · rfl

lemma exists_inst_of_modifyInst {v : Value R} {k : ℕ}
    (hi : (b.modifyInst v change).function.insts[k]? = some i) :
    ∃ i', b.function.insts[k]? = some i' ∧ (i = i' ∨ i = change i') := by
  rw [modifyInst] at hi
  split at hi
  · rw [Array.getElem?_modify] at hi
    split at hi
    · obtain ⟨i', hi', rfl⟩ := Option.map_eq_some_iff.1 hi
      exact ⟨i', hi', Or.inr rfl⟩
    · exact ⟨i, hi, Or.inl rfl⟩
  · exact ⟨i, hi, Or.inl rfl⟩

lemma blocks_modifyInst (v : Value R) :
    (b.modifyInst v change).function.blocks = b.function.blocks := by
  rw [modifyInst]
  split <;> rfl

lemma current_modifyInst (v : Value R) : (b.modifyInst v change).current = b.current := by
  rw [modifyInst]
  split <;> rfl

lemma IsSound.modifyInst (h : b.IsSound m) (v : Value R)
    (hchange : ∀ i : Instruction R, i.Continues (change i))
    (hrefers : ∀ i : Instruction R, i.op.RefersIn m b.function →
      (change i).op.RefersIn m b.function) : (b.modifyInst v change).IsSound m := by
  have hgrows := grows_modifyInst (b := b) v hchange
  refine ⟨⟨fun hB => ?_, fun hi => ?_, fun hi => ?_, fun hB => ?_, fun {k i} hi => ?_⟩,
    fun block hb => ?_⟩
  · rw [blocks_modifyInst] at hB
    exact h.built.block_id hB
  · obtain ⟨i', hi', rfl | rfl⟩ := exists_inst_of_modifyInst hi
    · exact h.built.inst_id hi'
    · exact (hchange i').id.trans (h.built.inst_id hi')
  · obtain ⟨i', hi', rfl | rfl⟩ := exists_inst_of_modifyInst hi
    · exact hgrows.isSome_block? (h.built.inst_block hi')
    · rw [(hchange i').block]
      exact hgrows.isSome_block? (h.built.inst_block hi')
  · rw [placements_modifyInst v hchange]
    rw [blocks_modifyInst] at hB
    exact h.built.listed hB
  · have hrefers' : i.op.RefersIn m b.function := by
      obtain ⟨i', hi', rfl | rfl⟩ := exists_inst_of_modifyInst hi
      · exact h.built.refers hi'
      · exact hrefers i' (h.built.refers hi')
    exact hrefers'.mono (fun _ hm => hm) fun _ => hgrows.isSome_block?
  · rw [current_modifyInst] at hb
    exact hgrows.isSome_block? (h.current block hb)

variable {changeBlock : Block → Block}

lemma grows_modifyBlock (id : BlockId)
    (hchange : ∀ B, (changeBlock B).id = B.id ∧ (changeBlock B).name = B.name) :
    b.function.Grows (b.modifyBlock id changeBlock).function :=
  { Function.Grows.refl b.function with
    block := fun {k B} hB => by
      change ∃ b', (b.function.blocks.modify id.val.toNat changeBlock)[k]? = some b' ∧ _
      rw [Array.getElem?_modify, hB]
      split
      · exact ⟨changeBlock B, rfl, hchange B⟩
      · exact ⟨B, rfl, rfl, rfl⟩ }

/-- Hints for a loop leave the list of instructions alone. -/
lemma IsSound.modifyBlock (h : b.IsSound m) (id : BlockId)
    (hchange : ∀ B, (changeBlock B).id = B.id ∧ (changeBlock B).name = B.name)
    (hinsts : ∀ B, (changeBlock B).insts = B.insts) : (b.modifyBlock id changeBlock).IsSound m := by
  have hgrows := grows_modifyBlock (b := b) id hchange
  have hblock {k : ℕ} {B : Block}
    (hB : (b.modifyBlock id changeBlock).function.blocks[k]? = some B) :
      ∃ B', b.function.blocks[k]? = some B' ∧ B.id = B'.id ∧ B.insts = B'.insts := by
    change (b.function.blocks.modify id.val.toNat changeBlock)[k]? = some B at hB
    rw [Array.getElem?_modify] at hB
    split at hB
    · obtain ⟨B', hB', rfl⟩ := Option.map_eq_some_iff.1 hB
      exact ⟨B', hB', (hchange B').1, hinsts B'⟩
    · exact ⟨B, hB, rfl, rfl⟩
  refine ⟨⟨fun hB => ?_, h.built.inst_id, fun hi => hgrows.isSome_block? (h.built.inst_block hi),
    fun hB => ?_, fun hi => ?_⟩, fun block hb => hgrows.isSome_block? (h.current block hb)⟩
  · obtain ⟨B', hB', hid, -⟩ := hblock hB
    exact hid.trans (h.built.block_id hB')
  · obtain ⟨B', hB', -, heq⟩ := hblock hB
    exact heq.trans (h.built.listed hB')
  · exact (h.built.refers hi).mono (fun _ hm => hm) fun _ => hgrows.isSome_block?

/-! ### Adding blocks and instructions -/

lemma grows_addBlock (b : FunctionBuilder R) (name : String) :
    b.function.Grows (b.addBlock name).2.function :=
  { Function.Grows.refl b.function with
    block := fun hB => ⟨_, getElem?_push_of_eq_some hB _, rfl, rfl⟩ }

/-- The position that is answered for a block is the one of a block. -/
lemma isSome_block?_addBlock (b : FunctionBuilder R) (name : String) :
    ((b.addBlock name).2.function.block? (b.addBlock name).1).isSome :=
  isSome_getElem?_push _ _

lemma IsSound.addBlock (h : b.IsSound m) (name : String) : (b.addBlock name).2.IsSound m := by
  have hgrows := grows_addBlock b name
  have hblock {k : ℕ} {B : Block} (hB : (b.addBlock name).2.function.blocks[k]? = some B) :
      k = b.function.blocks.size ∧ B = ⟨⟨UInt32.ofNat k⟩, name, [], none, none⟩ ∨
        b.function.blocks[k]? = some B := by
    change (b.function.blocks.push _)[k]? = some B at hB
    rw [Array.getElem?_push] at hB
    split at hB
    · next hk =>
      cases hB
      exact Or.inl ⟨hk, hk ▸ rfl⟩
    · exact Or.inr hB
  refine ⟨⟨fun hB => ?_, h.built.inst_id, fun hi => hgrows.isSome_block? (h.built.inst_block hi),
    fun hB => ?_, fun hi => ?_⟩, fun block hb => hgrows.isSome_block? (h.current block hb)⟩
  · obtain ⟨-, rfl⟩ | hB := hblock hB
    · rfl
    · exact h.built.block_id hB
  · obtain ⟨rfl, rfl⟩ | hB := hblock hB
    · -- no instruction is in a block that has not been there
      refine (List.map_eq_nil_iff.2 (List.filter_eq_nil_iff.2 fun p hp => ?_)).symm
      obtain ⟨i, hi, rfl⟩ := List.mem_map.1 hp
      obtain ⟨j, hj⟩ := Array.mem_iff_getElem?.1 (Array.mem_toList_iff.1 hi)
      obtain ⟨B, hB⟩ := Option.isSome_iff_exists.1 (h.built.inst_block hj)
      rw [decide_eq_true_iff]
      exact (Array.getElem?_eq_some_iff.1 hB).1.ne
    · exact h.built.listed hB
  · exact (h.built.refers hi).mono (fun _ hm => hm) fun _ => hgrows.isSome_block?

lemma IsSound.positionAt (h : b.IsSound m) {block : BlockId}
    (hblock : (b.function.block? block).isSome) : (b.positionAt block).IsSound m :=
  ⟨h.built, fun _ hb => Option.some.inj hb ▸ hblock⟩

lemma grows_ensureBlock (b : FunctionBuilder R) : b.function.Grows b.ensureBlock.2.function := by
  rw [ensureBlock]
  split
  · exact .refl _
  · exact grows_addBlock b "entry"

/-- There is a block for the next instruction. -/
lemma IsSound.ensureBlock (h : b.IsSound m) :
    b.ensureBlock.2.IsSound m ∧ (b.ensureBlock.2.function.block? b.ensureBlock.1).isSome := by
  rw [FunctionBuilder.ensureBlock]
  split
  · next block hblock => exact ⟨h, h.current block hblock⟩
  · exact ⟨(h.addBlock "entry").positionAt (isSome_block?_addBlock b "entry"),
      isSome_block?_addBlock b "entry"⟩

lemma placements_ensureBlock (b : FunctionBuilder R) :
    b.ensureBlock.2.function.placements = b.function.placements := by
  rw [ensureBlock]
  split <;> rfl

/-- Append an instruction to a block. -/
def append (b : FunctionBuilder R) (block : BlockId) (name : String) (ty : Ty) (op : Operation R) :
    FunctionBuilder R :=
  let id : InstId := ⟨UInt32.ofNat b.function.insts.size⟩
  FunctionBuilder.modifyBlock
    { b with function.insts := b.function.insts.push ⟨id, block, name, ty, op, none, none⟩ } block
    fun bl => { bl with insts := bl.insts ++ [id] }

lemma grows_append (b : FunctionBuilder R) (block : BlockId) (name : String) (ty : Ty)
    (op : Operation R) : b.function.Grows (b.append block name ty op).function := by
  refine Function.Grows.trans ?_ (grows_modifyBlock block fun B => ⟨rfl, rfl⟩)
  exact
    { Function.Grows.refl b.function with
      inst := fun hi => ⟨_, getElem?_push_of_eq_some hi _, .refl _⟩ }

lemma placements_append (b : FunctionBuilder R) (block : BlockId) (name : String) (ty : Ty)
    (op : Operation R) : (b.append block name ty op).function.placements
      = b.function.placements ++ [(⟨UInt32.ofNat b.function.insts.size⟩, block)] := by
  change ((b.function.insts.push _).toList.map _) = _
  rw [Array.toList_push, List.map_append]
  rfl

lemma IsSound.append (h : b.IsSound m) {block : BlockId}
    (hblock : (b.function.block? block).isSome) (name : String) (ty : Ty)
    (hop : op.RefersIn m b.function) : (b.append block name ty op).IsSound m := by
  have hgrows := grows_append b block name ty op
  have hinst {k : ℕ} {i : Instruction R}
      (hi : (b.append block name ty op).function.insts[k]? = some i) :
      i = ⟨⟨UInt32.ofNat k⟩, block, name, ty, op, none, none⟩ ∨
        b.function.insts[k]? = some i := by
    change (b.function.insts.push _)[k]? = some i at hi
    rw [Array.getElem?_push] at hi
    split at hi
    · next hk =>
      cases hi
      exact Or.inl (hk ▸ rfl)
    · exact Or.inr hi
  refine ⟨⟨fun {k B} hB => ?_, fun hi => ?_, fun hi => hgrows.isSome_block? ?_, fun {k B} hB => ?_,
    fun {k i} hi => ?_⟩, fun block hb => hgrows.isSome_block? (h.current block hb)⟩
  · change (b.function.blocks.modify _ _)[k]? = some B at hB
    rw [Array.getElem?_modify] at hB
    split at hB
    · obtain ⟨B', hB', rfl⟩ := Option.map_eq_some_iff.1 hB
      exact (h.built.block_id hB' : B'.id = _)
    · exact h.built.block_id hB
  · obtain rfl | hi := hinst hi
    · rfl
    · exact h.built.inst_id hi
  · obtain rfl | hi := hinst hi
    · exact hblock
    · exact h.built.inst_block hi
  · change (b.function.blocks.modify _ _)[k]? = some B at hB
    rw [Array.getElem?_modify] at hB
    rw [placements_append, List.filter_append, List.map_append]
    split at hB
    · next hk =>
      obtain ⟨B', hB', rfl⟩ := Option.map_eq_some_iff.1 hB
      rw [← h.built.listed hB', List.filter_cons_of_pos (by simpa using hk)]
      rfl
    · next hk =>
      rw [← h.built.listed hB, List.filter_cons_of_neg (by simpa using hk)]
      exact (List.append_nil _).symm
  · have hrefers : i.op.RefersIn m b.function := by
      obtain rfl | hi := hinst hi
      · exact hop
      · exact h.built.refers hi
    exact hrefers.mono (fun _ hm => hm) fun _ => hgrows.isSome_block?

/-! ### All calls -/

/-- The conditions under which a body may be built by a call: a block is one of the body, a function
that is called directly is one of the module. -/
def IsProper (m : Module R) (b : FunctionBuilder R) : BodyCall R → Prop
  | .positionAt block => (b.function.block? block).isSome
  | .push _ _ op => op.RefersIn m b.function
  | .incoming _ _ block => (b.function.block? block).isSome
  | _ => True

lemma continues_addIncoming (v : Value R) (block : BlockId) (i : Instruction R) :
    i.Continues (match i.op with
      | .phi incoming => { i with op := .phi (incoming ++ [(v, block)]) }
      | _ => i) := by
  split
  · next incoming hop => exact ⟨rfl, rfl, rfl, rfl, Or.inr ⟨incoming, [(v, block)], hop, rfl⟩⟩
  · exact .refl i

/-- A body grows by every call. -/
lemma grows_apply (b : FunctionBuilder R) (c : BodyCall R) :
    b.function.Grows (b.apply c).function := by
  cases c with
  | param name ty info =>
    exact
      { Function.Grows.refl b.function with
        param := fun hp => getElem?_push_of_eq_some hp _ }
  | maxRecursion bound => exact { Function.Grows.refl b.function with }
  | entryPoint => exact { Function.Grows.refl b.function with }
  | block name => exact grows_addBlock b name
  | positionAt block => exact .refl _
  | loopHints header unrollHint tripCount => exact grows_modifyBlock header fun B => ⟨rfl, rfl⟩
  | push name ty op =>
    exact (grows_ensureBlock b).trans (grows_append b.ensureBlock.2 b.ensureBlock.1 name ty op)
  | annotate v info => exact grows_modifyInst v fun i => ⟨rfl, rfl, rfl, rfl, Or.inl rfl⟩
  | target v label => exact grows_modifyInst v fun i => ⟨rfl, rfl, rfl, rfl, Or.inl rfl⟩
  | incoming phi v block => exact grows_modifyInst phi (continues_addIncoming v block)

/-- **A body stays built** by a call that refers to blocks and functions that exist. -/
theorem IsSound.apply (h : b.IsSound m) {c : BodyCall R} (hc : b.IsProper m c) :
    (b.apply c).IsSound m := by
  cases c with
  | param | maxRecursion | entryPoint =>
    exact ⟨{ h.built with refers := fun hi =>
      (h.built.refers hi).mono (fun _ hm => hm) fun _ hb => hb }, h.current⟩
  | block name => exact h.addBlock name
  | positionAt block => exact h.positionAt hc
  | loopHints header unrollHint tripCount =>
    exact h.modifyBlock header (fun B => ⟨rfl, rfl⟩) fun B => rfl
  | push name ty op =>
    obtain ⟨hsound, hblock⟩ := h.ensureBlock
    exact hsound.append hblock name ty
      (Operation.RefersIn.mono hc (fun _ hm => hm) fun _ => (grows_ensureBlock b).isSome_block?)
  | annotate v info =>
    exact h.modifyInst v (fun i => ⟨rfl, rfl, rfl, rfl, Or.inl rfl⟩) fun i hi => hi
  | target v label =>
    exact h.modifyInst v (fun i => ⟨rfl, rfl, rfl, rfl, Or.inl rfl⟩) fun i hi => hi
  | incoming phi v block =>
    refine h.modifyInst phi (continues_addIncoming v block) fun i hi => ?_
    split
    · next incoming hop =>
      refine ⟨nofun, ?_, nofun⟩
      rintro vs ⟨⟩ e he
      rcases List.mem_append.1 he with he | he
      · exact hi.incoming incoming (by rw [hop]; rfl) e he
      · obtain rfl := List.mem_singleton.1 he
        exact hc
    · exact hi

end FunctionBuilder

/-! ## What is added -/

/-- What a call adds to a body, with the operand or position that it answers. -/
inductive BodyItem (R : Type) where
  | param (v : Value R) (name : String) (ty : Ty) (info : Option (ValueInfo R))
  | block (id : BlockId) (name : String)
  /-- An instruction that is pushed into the block of the given position. -/
  | inst (v : Value R) (block : BlockId) (name : String) (ty : Ty) (op : Operation R)

namespace BodyItem

/-- The answered operand or position denotes what has been added. -/
def IsIn (f : Function R) : BodyItem R → Prop
  | param v name ty info => ∃ n, v = .arg n ∧ f.param? n = some ⟨name, ty, info⟩
  | block id name => ∃ b, f.block? id = some b ∧ b.id = id ∧ b.name = name
  | inst v b name ty op => ∃ id i, v = .inst id ∧ f.inst? id = some i ∧
      (⟨id, b, name, ty, op, none, none⟩ : Instruction R).Continues i

/-- The position of a pushed instruction, with the block that it is pushed into. -/
def pushed? : BodyItem R → Option (InstId × BlockId)
  | inst (.inst id) b _ _ _ => some (id, b)
  | _ => none

/-- In a growing body everything keeps what denotes it. -/
lemma IsIn.mono {x : BodyItem R} (h : x.IsIn f) (hf : f.Grows f') : x.IsIn f' := by
  cases x with
  | param v name ty info =>
    obtain ⟨n, rfl, hn⟩ := h
    exact ⟨n, rfl, hf.param hn⟩
  | block id name =>
    obtain ⟨b, hb, rfl, rfl⟩ := h
    exact hf.block hb
  | inst v block name ty op =>
    obtain ⟨id, i, rfl, hi, hcontinues⟩ := h
    obtain ⟨i', hi', hcontinues'⟩ := hf.inst hi
    exact ⟨id, i', rfl, hi', hcontinues.trans hcontinues'⟩

end BodyItem

/-- There are at most `n` formal parameters, blocks and instructions each. -/
structure Function.FitsIn (f : Function R) (n : ℕ) : Prop where
  params : f.params.size ≤ n
  blocks : f.blocks.size ≤ n
  insts : f.insts.size ≤ n

namespace FunctionBuilder

variable {b : FunctionBuilder R}

/-- What a call adds. -/
def added? (b : FunctionBuilder R) : BodyCall R → Option (BodyItem R)
  | .param name ty info => some (.param (b.addParam name ty info).1 name ty info)
  | .block name => some (.block (b.addBlock name).1 name)
  | .push name ty op => some (.inst (b.push name ty op).1 b.ensureBlock.1 name ty op)
  | _ => none

/-- A pushed instruction comes after the others. -/
lemma placements_apply (b : FunctionBuilder R) (c : BodyCall R) :
    (b.apply c).function.placements
      = b.function.placements ++ ((b.added? c).bind BodyItem.pushed?).toList := by
  cases c with
  | push name ty op =>
    change (b.ensureBlock.2.append b.ensureBlock.1 name ty op).function.placements = _
    rw [placements_append, placements_ensureBlock]
    rfl
  | annotate v info | target v label =>
    refine Eq.trans ?_ (List.append_nil _).symm
    exact placements_modifyInst v fun i => ⟨rfl, rfl, rfl, rfl, Or.inl rfl⟩
  | incoming phi v block =>
    exact (placements_modifyInst phi (continues_addIncoming v block)).trans (List.append_nil _).symm
  | _ => exact (List.append_nil _).symm

/-- What has been added is denoted by what is answered, if there is a position for it. -/
lemma isIn_of_added? {c : BodyCall R} {x : BodyItem R} (hx : b.added? c = some x)
    (hfits : (b.apply c).function.FitsIn UInt32.size) : x.IsIn (b.apply c).function := by
  cases c with
  | param name ty info =>
    cases hx
    refine ⟨_, rfl, ?_⟩
    have hlt : b.function.params.size < UInt32.size :=
      Nat.lt_of_lt_of_le (Nat.lt_succ_self _) ((Array.size_push ..).symm.trans_le hfits.params)
    change (b.function.params.push _)[(UInt32.ofNat b.function.params.size).toNat]? = _
    rw [UInt32.toNat_ofNat_of_lt' hlt, Array.getElem?_push_size]
  | block name =>
    cases hx
    have hlt : b.function.blocks.size < UInt32.size :=
      Nat.lt_of_lt_of_le (Nat.lt_succ_self _) ((Array.size_push ..).symm.trans_le hfits.blocks)
    refine ⟨⟨⟨UInt32.ofNat b.function.blocks.size⟩, name, [], none, none⟩, ?_, rfl, rfl⟩
    change (b.function.blocks.push _)[(UInt32.ofNat b.function.blocks.size).toNat]? = _
    rw [UInt32.toNat_ofNat_of_lt' hlt, Array.getElem?_push_size]
  | push name ty op =>
    cases hx
    have hlt : b.ensureBlock.2.function.insts.size < UInt32.size :=
      Nat.lt_of_lt_of_le (Nat.lt_succ_self _) ((Array.size_push ..).symm.trans_le hfits.insts)
    refine ⟨_, ⟨⟨UInt32.ofNat b.ensureBlock.2.function.insts.size⟩, b.ensureBlock.1, name, ty, op,
      none, none⟩, rfl, ?_, .refl _⟩
    change (b.ensureBlock.2.function.insts.push _)[
      (UInt32.ofNat b.ensureBlock.2.function.insts.size).toNat]? = _
    rw [UInt32.toNat_ofNat_of_lt' hlt]
    exact Array.getElem?_push_size
  | _ => cases hx

lemma sizes_modifyInst (v : Value R) (change : Instruction R → Instruction R) :
    (b.modifyInst v change).function.params.size = b.function.params.size ∧
      (b.modifyInst v change).function.blocks.size = b.function.blocks.size ∧
      (b.modifyInst v change).function.insts.size = b.function.insts.size := by
  rw [modifyInst]
  split
  · exact ⟨rfl, rfl, Array.size_modify⟩
  · exact ⟨rfl, rfl, rfl⟩

lemma sizes_ensureBlock (b : FunctionBuilder R) :
    b.ensureBlock.2.function.params.size = b.function.params.size ∧
      b.ensureBlock.2.function.blocks.size ≤ b.function.blocks.size + 1 ∧
      b.ensureBlock.2.function.insts.size = b.function.insts.size := by
  rw [ensureBlock]
  split
  · exact ⟨rfl, Nat.le_succ _, rfl⟩
  · exact ⟨rfl, (Array.size_push ..).le, rfl⟩

/-- A call adds at most one formal parameter, one block and one instruction. -/
lemma fitsIn_apply {n : ℕ} (h : b.function.FitsIn n) (c : BodyCall R) :
    (b.apply c).function.FitsIn (n + 1) := by
  have hsucc {k : ℕ} (hk : k ≤ n) : k ≤ n + 1 := hk.trans (Nat.le_succ n)
  cases c with
  | param name ty info =>
    exact ⟨(Array.size_push ..).trans_le (Nat.succ_le_succ h.params), hsucc h.blocks, hsucc h.insts⟩
  | block name =>
    exact ⟨hsucc h.params, (Array.size_push ..).trans_le (Nat.succ_le_succ h.blocks), hsucc h.insts⟩
  | loopHints header unrollHint tripCount =>
    exact ⟨hsucc h.params, Array.size_modify.trans_le (hsucc h.blocks), hsucc h.insts⟩
  | push name ty op =>
    obtain ⟨hparams, hblocks, hinsts⟩ := sizes_ensureBlock b
    exact ⟨hparams.trans_le (hsucc h.params),
      Array.size_modify.trans_le (hblocks.trans (Nat.succ_le_succ h.blocks)),
      (Array.size_push ..).trans_le (Nat.succ_le_succ (hinsts.trans_le h.insts))⟩
  | annotate v info | target v label | incoming phi v block =>
    obtain ⟨hparams, hblocks, hinsts⟩ := sizes_modifyInst (b := b) _ _
    exact ⟨hparams.trans_le (hsucc h.params), hblocks.trans_le (hsucc h.blocks),
      hinsts.trans_le (hsucc h.insts)⟩
  | maxRecursion | entryPoint | positionAt =>
    exact ⟨hsucc h.params, hsucc h.blocks, hsucc h.insts⟩

end FunctionBuilder

end Roundoff
