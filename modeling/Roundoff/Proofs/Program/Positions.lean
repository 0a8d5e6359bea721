/-
# Positions of instructions

Blocks list their instructions by position.  In a valid module every instruction carries its own
position, and then the instructions of a block carry the positions that the block lists.  Where no
position is listed twice, different blocks have different instructions.
-/
import Mathlib
import Roundoff.Program.Validity

namespace Roundoff

variable {R : Type} {f : Function R}

namespace Function

/-- Every instruction carries its own position. -/
def InstsInPlace (f : Function R) : Prop := ∀ id i, f.inst? id = some i → i.id = id

/-- Two instructions that carry the same position, which is their own, are the same. -/
lemma eq_of_inst?_id {i j : Instruction R} (hi : f.inst? i.id = some i) (hj : f.inst? j.id = some j)
    (hid : i.id = j.id) : i = j := by
  rw [hid, hj] at hi
  exact (Option.some.inj hi).symm

lemma InstsInPlace.inst?_of_mem_blockInsts (hf : f.InstsInPlace) {b : BlockId} {i : Instruction R}
    (hi : i ∈ f.blockInsts b) : f.inst? i.id = some i := by
  rw [blockInsts] at hi
  split at hi
  · obtain ⟨id, -, hid⟩ := List.mem_filterMap.1 hi
    rwa [hf id i hid]
  · cases hi

lemma instsInPlace_of_map_eq_range
    (h : f.insts.toList.map (fun i => i.id.val.toNat) = List.range f.insts.size) :
    f.InstsInPlace := by
  rintro ⟨n⟩ i hi
  have hget : (f.insts.toList.map fun i => i.id.val.toNat)[n.toNat]? = some i.id.val.toNat := by
    rw [List.getElem?_map, Array.getElem?_toList, show f.insts[n.toNat]? = some i from hi,
      Option.map_some]
  rw [h] at hget
  obtain ⟨hlt, hn⟩ := List.getElem?_eq_some_iff.1 hget
  rw [List.getElem_range] at hn
  cases hid : i.id
  rw [hid] at hn
  exact congrArg InstId.mk (UInt32.toNat_inj.1 hn.symm)

/-- No instruction is listed twice by the blocks. -/
def ListedOnce (f : Function R) : Prop := (f.blocks.toList.flatMap Block.insts).Nodup

variable {b c : BlockId} {block block' : Block}

lemma mem_blocks_of_block? (hb : f.block? b = some block) : block ∈ f.blocks.toList := by
  rw [Array.mem_toList_iff]
  exact Array.mem_of_getElem? hb

/-- Different blocks list different instructions. -/
lemma ListedOnce.disjoint (hf : f.ListedOnce) (hb : f.block? b = some block)
    (hc : f.block? c = some block') (hne : b ≠ c) : block.insts.Disjoint block'.insts := by
  have hpairwise := (List.nodup_flatMap.1 hf).2
  obtain ⟨hltb, hgetb⟩ := Array.getElem?_eq_some_iff.1 hb
  obtain ⟨hltc, hgetc⟩ := Array.getElem?_eq_some_iff.1 hc
  have hindex : b.val.toNat ≠ c.val.toNat := by
    intro heq
    have hval : b.val = c.val := UInt32.toNat_inj.1 heq
    apply hne
    cases b
    cases c
    exact congrArg BlockId.mk hval
  rw [List.pairwise_iff_getElem] at hpairwise
  rcases lt_or_gt_of_ne hindex with hlt | hlt
  · have h := hpairwise _ _ hltb hltc hlt
    rwa [Function.onFun, Array.getElem_toList, Array.getElem_toList, hgetb, hgetc] at h
  · have h := hpairwise _ _ hltc hltb hlt
    rw [Function.onFun, Array.getElem_toList, Array.getElem_toList, hgetb, hgetc] at h
    exact h.symm

/-- The instructions of a block carry the positions that the block lists. -/
lemma InstsInPlace.sublist (hf : f.InstsInPlace) (ids : List InstId) :
    ((ids.filterMap f.inst?).map Instruction.id).Sublist ids := by
  induction ids with
  | nil => exact List.Sublist.slnil
  | cons id ids ih =>
    cases hi : f.inst? id with
    | none =>
      rw [List.filterMap_cons_none hi]
      exact ih.cons _
    | some i =>
      rw [List.filterMap_cons_some hi, List.map_cons, hf id i hi]
      exact ih.cons_cons _

lemma ListedOnce.nodup_ids (hf : f.ListedOnce) (hplace : f.InstsInPlace) (b : BlockId) :
    ((f.blockInsts b).map Instruction.id).Nodup := by
  rw [blockInsts]
  split
  · next block hb =>
    exact (hplace.sublist block.insts).nodup
      ((List.nodup_flatMap.1 hf).1 block (mem_blocks_of_block? hb))
  · exact List.nodup_nil

lemma ListedOnce.notMem_ids (hf : f.ListedOnce) (hplace : f.InstsInPlace) (hne : b ≠ c)
    {id : InstId} (hb : id ∈ (f.blockInsts b).map Instruction.id) :
    id ∉ (f.blockInsts c).map Instruction.id := by
  intro hc
  rw [blockInsts] at hb hc
  split at hb
  · next block hblock =>
    split at hc
    · next block' hblock' =>
      exact hf.disjoint hblock hblock' hne ((hplace.sublist _).subset hb)
        ((hplace.sublist _).subset hc)
    · cases hc
  · cases hb

end Function

/-! ## Valid modules -/

/-- No defect is found if every item passes the test for its position. -/
lemma firstDefect_eq_none_iff {α ε : Type} {test : ℕ → α → Option ε} {n : ℕ} {xs : List α} :
    firstDefect test n xs = none ↔ ∀ k x, xs[k]? = some x → test (n + k) x = none := by
  induction xs generalizing n with
  | nil => simp [firstDefect]
  | cons x xs ih =>
    rw [firstDefect, Option.or_eq_none_iff, ih]
    constructor
    · rintro ⟨hx, hxs⟩ (_ | k) y hy
      · cases hy
        exact hx
      · have h := hxs k y hy
        rwa [Nat.add_assoc, Nat.add_comm 1 k] at h
    · intro h
      refine ⟨h 0 x rfl, fun k y hy => ?_⟩
      have h := h (k + 1) y hy
      rwa [Nat.add_comm k 1, ← Nat.add_assoc] at h

/-- In the body of a function without defects every instruction carries its own position. -/
lemma toNat_id_of_bodyDefect? {m : Module R} (h : m.bodyDefect? f = none) {k : ℕ}
    {i : Instruction R} (hi : f.insts[k]? = some i) : i.id.val.toNat = k := by
  rw [Module.bodyDefect?, Option.or_eq_none_iff, firstDefect_eq_none_iff] at h
  have hinst := h.2 k i (by rwa [Array.getElem?_toList])
  rw [Nat.zero_add, Option.or_eq_none_iff, Option.map_eq_none_iff,
    Function.instructionDefect?] at hinst
  by_contra hne
  rw [if_neg hne] at hinst
  cases hinst.1

lemma instsInPlace_of_bodyDefect? {m : Module R} (h : m.bodyDefect? f = none) :
    f.InstsInPlace := by
  intro id i hi
  have hval := toNat_id_of_bodyDefect? h hi
  cases id
  cases hid : i.id
  rw [hid] at hval
  exact congrArg InstId.mk (UInt32.toNat_inj.1 hval)

/-- The blocks list only instructions that belong to them. -/
lemma block_eq_of_bodyDefect? {m : Module R} (h : m.bodyDefect? f = none) {b : BlockId}
    {i : Instruction R} (hi : i ∈ f.blockInsts b) : i.block = b := by
  rw [Module.bodyDefect?, Option.or_eq_none_iff, Option.map_eq_none_iff,
    firstDefect_eq_none_iff] at h
  rw [Function.blockInsts] at hi
  split at hi
  · next block hblock =>
    obtain ⟨id, hid, hinst⟩ := List.mem_filterMap.1 hi
    have hdefect := h.1 _ block (by rwa [Array.getElem?_toList])
    rw [Nat.zero_add, Function.blockDefect?] at hdefect
    split at hdefect
    · next hval =>
      have hentry := List.findSome?_eq_none_iff.1 hdefect id hid
      rw [Function.entryDefect?, hinst] at hentry
      dsimp only at hentry
      split at hentry
      · next heq =>
        rw [heq]
        exact congrArg BlockId.mk (UInt32.toNat_inj.1 hval)
      · cases hentry
    · cases hdefect
  · cases hi

lemma Function.exists_inst?_of_mem_blockInsts {b : BlockId} {i : Instruction R}
    (hi : i ∈ f.blockInsts b) : ∃ id, f.inst? id = some i := by
  rw [blockInsts] at hi
  split at hi
  · obtain ⟨id, -, hid⟩ := List.mem_filterMap.1 hi
    exact ⟨id, hid⟩
  · cases hi

lemma defect?_eq_none {m : Module R} (h : m.validate = .ok ()) : m.defect? = none := by
  rw [Module.validate] at h
  split at h
  · cases h
  · next hd => exact hd

/-- The functions of a valid module have no defect at their positions. -/
lemma functionDefect?_eq_none {m : Module R} (h : m.validate = .ok ()) {k : ℕ}
    (hf : m.functions[k]? = some f) : m.functionDefect? k f = none := by
  have hnone := defect?_eq_none h
  rw [Module.defect?, Option.or_eq_none_iff, firstDefect_eq_none_iff] at hnone
  have hfun := hnone.1 k f (by rwa [Array.getElem?_toList])
  rwa [Nat.zero_add] at hfun

/-- The global variables of a valid module are at their positions. -/
lemma global?_id_of_validate {m : Module R} (h : m.validate = .ok ()) {g : Global R}
    (hg : g ∈ m.globals) : m.global? g.id = some g := by
  have hnone := defect?_eq_none h
  rw [Module.defect?, Option.or_eq_none_iff, firstDefect_eq_none_iff,
    firstDefect_eq_none_iff] at hnone
  obtain ⟨k, hk⟩ := Array.mem_iff_getElem?.1 hg
  have hglobal := hnone.2 k g (by rwa [Array.getElem?_toList])
  rw [Nat.zero_add, Module.globalDefect?] at hglobal
  split at hglobal
  · next hval => rw [Module.global?, hval, hk]
  · cases hglobal

/-- Their bodies have no defect. -/
lemma bodyDefect?_eq_none {m : Module R} (h : m.validate = .ok ()) {k : ℕ}
    (hf : m.functions[k]? = some f) : m.bodyDefect? f = none := by
  have hfun := functionDefect?_eq_none h hf
  rw [Module.functionDefect?] at hfun
  split at hfun
  · exact hfun
  · cases hfun

/-- In the functions of a valid module every instruction carries its own position. -/
lemma instsInPlace_of_validate {m : Module R} (h : m.validate = .ok ()) {id : FunctionId}
    (hf : m.function? id = some f) : f.InstsInPlace :=
  instsInPlace_of_bodyDefect? (bodyDefect?_eq_none h hf)

/-- The instructions of a valid module are at their positions. -/
lemma inst?_id_of_validate {m : Module R} (h : m.validate = .ok ()) (hf : f ∈ m.functions)
    {i : Instruction R} (hi : i ∈ f.insts) : f.inst? i.id = some i := by
  obtain ⟨k, hk⟩ := Array.mem_iff_getElem?.1 hf
  obtain ⟨l, hl⟩ := Array.mem_iff_getElem?.1 hi
  rw [Function.inst?, toNat_id_of_bodyDefect? (bodyDefect?_eq_none h hk) hl, hl]

/-- The functions of a valid module are at their positions. -/
lemma function?_id_of_validate {m : Module R} (h : m.validate = .ok ()) (hf : f ∈ m.functions) :
    m.function? f.id = some f := by
  obtain ⟨k, hk⟩ := Array.mem_iff_getElem?.1 hf
  have hfun := functionDefect?_eq_none h hk
  rw [Module.functionDefect?] at hfun
  split at hfun
  · next hval => rw [Module.function?, hval, hk]
  · cases hfun

/-- The functions of a module are told apart by the positions that they carry. -/
def Module.DistinctIds (m : Module R) : Prop :=
  ∀ f ∈ m.functions, ∀ g ∈ m.functions, f.id = g.id → f = g

/-- The functions of a valid module carry distinct positions. -/
lemma distinctIds_of_validate {m : Module R} (h : m.validate = .ok ()) : m.DistinctIds := by
  intro f hf g hg hid
  have hget := function?_id_of_validate h hf
  rw [hid, function?_id_of_validate h hg] at hget
  exact (Option.some.inj hget).symm

end Roundoff
