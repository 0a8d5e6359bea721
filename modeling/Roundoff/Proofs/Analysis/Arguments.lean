/-
# What a callee knows of its arguments

A formal parameter starts with what is recorded for the actual one, and with its annotation where
nothing is recorded.  For a pointer this is the record of the pointer itself.  What has been stored
through it is recorded for the stores, and is not handed on: a callee that loads from the pointer
before it writes anything is given what it would be given without the stores.
-/
import Mathlib
import Roundoff.Proofs.Analysis.Activations
import Roundoff.Proofs.Memory.Calls

namespace Roundoff

variable {R : Type} [Number R] {m : Module R} {caller callee : Function R} {args : List (Value R)}
  {v : Value R} {param : Param R} {n : ℕ}

/-! ## Formal parameters -/

/-- A list with positions, taken apart at one of them. -/
lemma zipIdx_eq_of_getElem? {α : Type} {as : List α} {a : α} (h : as[n]? = some a) :
    as.zipIdx = (as.take n).zipIdx ++ (a, n) :: (as.drop (n + 1)).zipIdx (n + 1) := by
  obtain ⟨hlt, rfl⟩ := List.getElem?_eq_some_iff.1 h
  conv_lhs => rw [← List.take_append_drop n as, List.drop_eq_getElem_cons hlt]
  rw [List.zipIdx_append, List.zipIdx_cons, List.length_take_of_le hlt.le, Nat.zero_add]

lemma ne_of_mem_zipIdx_take {α : Type} {as : List α} (h : n < as.length) {p : α × ℕ}
    (hp : p ∈ (as.take n).zipIdx) : p.2 ≠ n ∧ p.2 < as.length := by
  have hp := List.snd_lt_of_mem_zipIdx hp
  rw [List.length_take_of_le h.le] at hp
  omega

lemma ne_of_mem_zipIdx_drop {α : Type} {as : List α} {p : α × ℕ}
    (hp : p ∈ (as.drop (n + 1)).zipIdx (n + 1)) : p.2 ≠ n ∧ p.2 < as.length := by
  have hle := List.le_snd_of_mem_zipIdx hp
  have hlt := List.snd_lt_add_of_mem_zipIdx hp
  rw [List.length_drop] at hlt
  omega

lemma exists_zipIdx_eq {α : Type} {as : List α} {a : α} (h : as[n]? = some a) :
    ∃ pre post, as.zipIdx = pre ++ (a, n) :: post ∧ (∀ p ∈ pre, p.2 ≠ n ∧ p.2 < as.length) ∧
      ∀ p ∈ post, p.2 ≠ n ∧ p.2 < as.length :=
  ⟨_, _, zipIdx_eq_of_getElem? h,
    fun _ => ne_of_mem_zipIdx_take (List.getElem?_eq_some_iff.1 h).1,
    fun _ => ne_of_mem_zipIdx_drop⟩

namespace Store

variable {s source : Store R}

omit [Number R] in
/-- Formal parameters have different keys. -/
lemma eq_of_key_eq {k : ℕ} (hsize : callee.params.size ≤ UInt32.size) (hn : n < callee.params.size)
    (hk : k < callee.params.size)
    (h : Key.arg callee.id (UInt32.ofNat n) = Key.arg callee.id (UInt32.ofNat k)) : n = k := by
  have hval := congrArg UInt32.toNat (Key.arg.inj h).2
  rwa [UInt32.toNat_ofNat_of_lt' (hn.trans_le hsize),
    UInt32.toNat_ofNat_of_lt' (hk.trans_le hsize)] at hval

/-- What is recorded for the actual argument at a position, if there is one. -/
def actual? (s : Store R) (caller : Function R) (args : List (Value R)) (n : ℕ) :
    Option (Estimate R) :=
  (args[n]?.bind (Key.of? caller.id)).bind s.get?

/-- What a formal parameter starts with, made from its annotation and from what is recorded for the
actual one. -/
def startOf (annotated actual : Option (Estimate R)) : Option (Estimate R) :=
  actual.elim annotated fun e => some (mergeArgument annotated e)

lemma get?_applyArgument (source : Store R) (caller : FunctionId) (s : Store R) :
    (applyArgument source caller callee s (v, n)).get? (.arg callee.id (UInt32.ofNat n))
      = startOf (s.get? (.arg callee.id (UInt32.ofNat n)))
        ((Key.of? caller v).bind source.get?) := by
  rw [applyArgument]
  cases (Key.of? caller v).bind source.get? with
  | none => rfl
  | some e => rw [get?_set, if_pos rfl, startOf, Option.elim_some]

/-- A formal parameter is given what is recorded for the actual one. -/
lemma get?_applyArguments (s source : Store R) (caller : FunctionId)
    (hsize : callee.params.size ≤ UInt32.size) (hv : args[n]? = some v)
    (hn : n < callee.params.size) :
    (s.applyArguments source caller callee args).get? (.arg callee.id (UInt32.ofNat n))
      = startOf (s.get? (.arg callee.id (UInt32.ofNat n)))
        ((Key.of? caller v).bind source.get?) := by
  have hget : (args.take callee.params.size)[n]? = some v := by
    rw [List.getElem?_take_of_lt hn, hv]
  have hlength : (args.take callee.params.size).length ≤ callee.params.size :=
    List.length_take_le _ _
  obtain ⟨pre, post, heq, hpre, hpost⟩ := exists_zipIdx_eq hget
  -- the other arguments are given to other formal parameters
  have hother (s : Store R) (vns : List (Value R × ℕ))
      (hvns : ∀ vn ∈ vns, vn.2 ≠ n ∧ vn.2 < (args.take callee.params.size).length) :
      (vns.foldl (applyArgument source caller callee) s).get? (.arg callee.id (UInt32.ofNat n))
        = s.get? (.arg callee.id (UInt32.ofNat n)) := by
    refine (writes_foldl_applyArgument source caller callee s vns).get?_eq ?_
    rintro ⟨vn, hvn, hkey⟩
    obtain ⟨hne, hlt⟩ := hvns vn hvn
    exact hne (eq_of_key_eq hsize hn (hlt.trans_le hlength) hkey).symm
  rw [applyArguments_eq, heq, List.foldl_append, List.foldl_cons, hother _ _ hpost,
    get?_applyArgument, hother _ _ hpre]

/-- A formal parameter without an actual one keeps its annotation. -/
lemma get?_applyArguments_actual? (s source : Store R) (caller : Function R)
    (hsize : callee.params.size ≤ UInt32.size) (hn : n < callee.params.size) :
    (s.applyArguments source caller.id callee args).get? (.arg callee.id (UInt32.ofNat n))
      = startOf (s.get? (.arg callee.id (UInt32.ofNat n))) (source.actual? caller args n) := by
  rw [actual?]
  cases hv : args[n]? with
  | some v => exact get?_applyArguments s source caller.id hsize hv hn
  | none =>
    rw [applyArguments_eq, (writes_foldl_applyArgument source caller.id callee s _).get?_eq]
    · rfl
    · rintro ⟨vn, hvn, hkey⟩
      have hlt := List.snd_lt_of_mem_zipIdx hvn
      rw [Nat.add_zero, List.length_take, lt_min_iff] at hlt
      have heq : n = vn.2 := eq_of_key_eq hsize hn hlt.1 hkey
      exact absurd hlt.2 (heq ▸ (List.getElem?_eq_none_iff.1 hv).not_gt)

/-- A formal parameter for which nothing is recorded is set up from its annotation. -/
lemma ensures_seedArguments_get? (m : Module R) (hsize : callee.params.size ≤ UInt32.size)
    (hparam : callee.params[n]? = some param)
    (hs : s.get? (.arg callee.id (UInt32.ofNat n)) = none) :
    (s.seedArguments m callee).Ensures fun s' =>
      SetsUp param.info none (s'.get? (.arg callee.id (UInt32.ofNat n))) := by
  have hn : n < callee.params.size := (Array.getElem?_eq_some_iff.1 hparam).1
  have hget : callee.params.toList[n]? = some param := by rw [Array.getElem?_toList, hparam]
  obtain ⟨pre, post, heq, hpre, hpost⟩ := exists_zipIdx_eq hget
  -- setting up the other parameters does not matter
  have hother (s : Store R) (pns : List (Param R × ℕ))
      (hpns : ∀ pn ∈ pns, pn.2 ≠ n ∧ pn.2 < callee.params.toList.length) :
      (pns.foldlM (fun (s : Store R) ((p, k) : Param R × ℕ) =>
        s.seedValue m (.arg callee.id (UInt32.ofNat k)) p.ty.targetStruct? p.info) s).Ensures
          fun s' =>
          s'.get? (.arg callee.id (UInt32.ofNat n)) = s.get? (.arg callee.id (UInt32.ofNat n)) := by
    refine Fresh.ensures_foldlM (fun s' pn hpn hs' => ?_) rfl
    obtain ⟨hne, hlt⟩ := hpns pn hpn
    refine (ensures_seedValue m s' _ _ _).mono fun s'' hs'' => ?_
    rw [hs''.1.get?_eq fun hkey => hne (eq_of_key_eq hsize hn hlt hkey).symm, hs']
  rw [seedArguments, heq, List.foldlM_append]
  refine (hother s pre hpre).bind fun s₁ h₁ => ?_
  rw [List.foldlM_cons]
  refine (ensures_seedValue m s₁ _ _ _).bind fun s₂ h₂ =>
    (hother s₂ post hpost).mono fun s₃ h₃ => ?_
  rw [h₃, ← hs, ← h₁]
  exact h₂.2

/-- Each formal parameter is set up from its annotation, and then given what is recorded for the
actual one, if there is one. -/
lemma ensures_atCall_actual? (m : Module R) (s : Store R) (caller : Function R)
    (args : List (Value R)) (hsize : callee.params.size ≤ UInt32.size)
    (hparam : callee.params[n]? = some param) :
    (s.atCall m caller callee args).Ensures fun start =>
      ∃ own, SetsUp param.info none own ∧
        start.get? (.arg callee.id (UInt32.ofNat n)) = startOf own (s.actual? caller args n) := by
  have hn : n < callee.params.size := (Array.getElem?_eq_some_iff.1 hparam).1
  have herased : (s.eraseFunction callee).get? (.arg callee.id (UInt32.ofNat n)) = none := by
    rw [get?_eraseFunction, if_pos]
    simp [belongsTo, Key.owner?]
  unfold atCall
  refine (ensures_seedArguments_get? m hsize hparam herased).bind fun start hstart =>
    Fresh.ensures_pure ⟨_, hstart, ?_⟩
  exact get?_applyArguments_actual? start s caller hsize hn

/-- **A formal parameter starts with what is recorded for the actual one**, and with its annotation
where nothing is recorded. -/
theorem ensures_atCall_get? (m : Module R) (s : Store R) (hsize : callee.params.size ≤ UInt32.size)
    (hparam : callee.params[n]? = some param) (hv : args[n]? = some v) :
    (s.atCall m caller callee args).Ensures fun start =>
      ∃ own, SetsUp param.info none own ∧
        start.get? (.arg callee.id (UInt32.ofNat n))
          = startOf own ((Key.of? caller.id v).bind s.get?) := by
  have hactual : s.actual? caller args n = (Key.of? caller.id v).bind s.get? := by
    rw [actual?, hv]; rfl
  exact hactual ▸ ensures_atCall_actual? m s caller args hsize hparam

end Store

/-! ## Loads of what the caller has stored -/

namespace Body

variable {σ : Type} {b : Body R} {h : CallHandler R σ} {edges : PhiEdges} {a : Activation R}
  {world : σ} {i slot : Instruction R} {value : Value R} {ty : Ty}

/-- A store to a stack slot changes nothing that is recorded for the slot itself. -/
lemma visit_store_get?_slot (hi : i.op = .store value (.inst slot.id))
    (hslot : b.function.inst? slot.id = some slot) (halloca : slot.op = .alloca ty)
    (hne : i.id ≠ slot.id) :
    (b.visit h edges a world i).Ensures fun o =>
      o.state.store.get? (b.key slot) = a.store.get? (b.key slot) := by
  have hlocal : b.IsLocal i := by
    rw [IsLocal, hi]
    trivial
  have hformal : b.function.formalOf? (.inst slot.id) = none := by
    rw [Function.formalOf?, Function.traceFormal?, hslot, Option.map_some, halloca]
  refine (visit_frame hlocal).mono fun o ho => ho.frame.writes.get?_eq ?_
  rw [written, hi]
  rintro (hkey | ⟨k, hk, -⟩)
  · exact hne (Key.inst.inj hkey).2.symm
  · rw [hformal] at hk
    cases hk

end Body

/-- **Nothing that is stored to a stack slot reaches a callee.**  A callee that is passed the
address of a slot and loads from it before it writes anything is given what was recorded for the
slot itself, before the store, or else the annotation of its formal parameter. -/
theorem Body.sources_of_stored_slot {b : Body R} {σ : Type} {h : CallHandler R σ} {edges : PhiEdges}
    {i slot load : Instruction R} {value : Value R} {ty : Ty} {c : BlockId}
    {before after : List (Instruction R)}
    -- the caller stores to a slot
    (hi : i.op = .store value (.inst slot.id)) (hslot : b.function.inst? slot.id = some slot)
    (halloca : slot.op = .alloca ty) (hne : i.id ≠ slot.id)
    -- the slot is an argument
    (hv : args[n]? = some (.inst slot.id)) (hparam : callee.params[n]? = some param)
    (hsize : callee.params.size ≤ UInt32.size)
    -- the callee loads from it before all writes
    (hplace : callee.InstsInPlace) (honce : callee.ListedOnce)
    (hreach : ∃ cs, (FlowGraph.of callee).Path c cs)
    (hblock : callee.blockInsts c = before ++ load :: after)
    (hload : load.op = .load (.arg (UInt32.ofNat n)))
    (hfirst : ∀ cs, (FlowGraph.of callee).Path c cs →
      callee.lastWrite? m (Origin.of callee (.arg (UInt32.ofNat n)))
        (Memory.passed callee cs ++ before) = none)
    (a : Activation R) (world : σ) :
    (b.visit h edges a world i).Ensures fun o =>
      (o.state.store.atCall m b.function callee args).Ensures fun start =>
        ∃ own, SetsUp param.info none own ∧
          ∀ e, e ∈ (Memory.of m callee).sources callee start.get? load.id ↔
            Store.startOf own (a.store.get? (b.key slot)) = some e := by
  refine (visit_store_get?_slot hi hslot halloca hne).mono fun o ho => ?_
  refine (Store.ensures_atCall_get? m o.state.store hsize hparam hv).mono fun start hstart => ?_
  obtain ⟨own, hown, hformal⟩ := hstart
  refine ⟨own, hown, fun e => ?_⟩
  have hcalls : ∀ cs, (FlowGraph.of callee).Path c cs → ∀ j,
      callee.lastWrite? m (Origin.of callee (.arg (UInt32.ofNat n)))
        (Memory.passed callee cs ++ before) = some j → j.isCall = true :=
    fun cs hcs j hj => by cases (hfirst cs hcs).symm.trans hj
  rw [Memory.mem_sources_iff_of_definition?_eq_none hplace honce hreach hblock hload rfl hcalls]
  change start.get? (.arg callee.id (UInt32.ofNat n)) = some e ↔ _
  rw [hformal]
  change Store.startOf own (o.state.store.get? (b.key slot)) = some e ↔ _
  rw [ho]

end Roundoff
