/-
# Callees before callers

The functions from which the analysis starts are listed once each.  A function that leads to another
one along direct calls comes after it, unless the other one leads back to it.

The order is that of the direct calls: those that give the callee by its position in the module.  A
call through the address of a function is none of them.
-/
import Mathlib
import Roundoff.Analysis.CallOrder
import Roundoff.Proofs.Flow.Order
import Roundoff.Proofs.Program.Positions

namespace Roundoff

/-! ## First positions -/

/-- What is kept of a list without its duplicates stands in the order of the first positions. -/
lemma pairwise_eraseDups_idxOf {α : Type} [BEq α] [LawfulBEq α] (l : List α) :
    l.eraseDups.Pairwise fun a b => l.idxOf a < l.idxOf b := by
  induction l using List.reverseRecOn with
  | nil => exact .nil
  | append_singleton l a ih =>
    rw [List.eraseDups_append, List.pairwise_append]
    have hlast : ∀ b ∈ ([a].removeAll l).eraseDups, b = a ∧ a ∉ l := by
      intro b hb
      obtain ⟨hb, hnot⟩ := List.mem_filter.1 (List.mem_eraseDups.1 hb)
      obtain rfl := List.mem_singleton.1 hb
      exact ⟨rfl, by simpa using hnot⟩
    refine ⟨ih.imp_of_mem fun hb hc hlt => ?_, ?_, fun b hb c hc => ?_⟩
    · rwa [List.idxOf_append_of_mem (List.mem_eraseDups.1 hb),
        List.idxOf_append_of_mem (List.mem_eraseDups.1 hc)]
    · by_cases ha : a ∈ l <;> simp [List.removeAll, List.eraseDups_cons, ha]
    · obtain ⟨rfl, hnot⟩ := hlast c hc
      have hb := List.mem_eraseDups.1 hb
      rw [List.idxOf_append_of_mem hb, List.idxOf_append_of_notMem hnot]
      exact Nat.lt_add_right _ (List.idxOf_lt_length_of_mem hb)

namespace Module

variable {R : Type} {m : Module R} {f g id x y : FunctionId}

/-! ## Functions and their direct calls -/

/-- The function `f` contains a call or invoke that gives the function `g` by its position. -/
def CallsDirectly (m : Module R) (f g : FunctionId) : Prop :=
  ∃ caller, m.function? f = some caller ∧
    ∃ i ∈ caller.insts, ∃ args, i.op.callSite? = some (.direct g, args)

lemma mem_functionIds_iff : id ∈ m.functionIds ↔ (m.function? id).isSome := by
  rw [functionIds, List.mem_map, function?, isSome_getElem?]
  constructor
  · rintro ⟨n, hn, rfl⟩
    rw [List.mem_range] at hn
    rw [UInt32.toNat_ofNat']
    exact (Nat.mod_le _ _).trans_lt hn
  · intro hlt
    exact ⟨id.val.toNat, List.mem_range.2 hlt, by rw [UInt32.ofNat_toNat]⟩

lemma card_functionIds_le (m : Module R) : m.functionIds.toFinset.card ≤ m.functions.size := by
  refine (List.toFinset_card_le _).trans ?_
  rw [functionIds, List.length_map, List.length_range]

/-- The functions that a function is found to call are those of the module that it calls directly. -/
lemma mem_callees_iff : g ∈ m.callees f ↔ m.CallsDirectly f g ∧ g ∈ m.functionIds := by
  rw [callees, CallsDirectly, mem_functionIds_iff]
  cases hf : m.function? f with
  | none => simp
  | some caller =>
    rw [List.mem_reverse, List.mem_filter, Function.directCallees, List.mem_eraseDups,
      List.mem_filterMap]
    refine and_congr_left fun _ => ?_
    constructor
    · rintro ⟨i, hi, hcallee⟩
      split at hcallee
      · next args hsite =>
        cases hcallee
        exact ⟨caller, rfl, i, Array.mem_toList_iff.1 hi, args, hsite⟩
      · cases hcallee
    · rintro ⟨caller, heq, i, hi, args, hsite⟩
      cases heq
      exact ⟨i, Array.mem_toList_iff.2 hi, by rw [hsite]⟩

/-- The functions found to be called are functions of the module. -/
lemma mem_functionIds_of_mem_callees (h : g ∈ m.callees f) : g ∈ m.functionIds :=
  (mem_callees_iff.1 h).2

/-- The functions of a valid module carry their own positions. -/
lemma toNat_id_of_validate (hm : m.validate = .ok ()) {n : ℕ} {body : Function R}
    (hn : m.functions[n]? = some body) : body.id.val.toNat = n := by
  have hdefect := functionDefect?_eq_none hm hn
  rw [functionDefect?] at hdefect
  by_contra hne
  rw [if_neg hne] at hdefect
  cases hdefect

lemma id_eq_of_function? (hm : m.validate = .ok ()) {body : Function R}
    (hid : m.function? id = some body) : body.id = id := by
  have hval := toNat_id_of_validate hm hid
  cases id
  exact congrArg FunctionId.mk (UInt32.toNat_inj.1 hval)

/-- In a valid module no position is that of two functions. -/
lemma nodup_functionIds (hm : m.validate = .ok ()) : m.functionIds.Nodup := by
  have hval : ∀ n ∈ List.range m.functions.size, (UInt32.ofNat n).toNat = n := by
    intro n hn
    have hget := Array.getElem?_eq_getElem (List.mem_range.1 hn)
    rw [← toNat_id_of_validate hm hget, UInt32.ofNat_toNat]
  refine List.Nodup.map_on (fun n hn k hk heq => ?_) List.nodup_range
  rw [← hval n hn, ← hval k hk, FunctionId.mk.inj heq]

/-! ## Components -/

/-- One function leads to another one along direct calls. -/
abbrev Leads (m : Module R) : FunctionId → FunctionId → Prop := Search.Leads m.callees

/-- The search over the calls finds all functions and leaves their components in turn. -/
lemma exists_callSearch (m : Module R) :
    ∃ s₁, Search.FindsInTurn m.callees (.avoiding []) m.functionIds m.callSearch s₁ := by
  obtain ⟨found, hfound⟩ := (Search.findsInTurn_rules m.callees).exists_foldl
    (U := m.functionIds.toFinset)
    (fun s r hr hdepth => (Search.findsInTurn_rules m.callees).exists_visit
      (fun x _ y hy => List.mem_toFinset.2 (mem_functionIds_of_mem_callees hy)) hr hdepth)
    (.avoiding []) (fun r hr => List.mem_toFinset.2 hr)
    ((Finset.card_le_card Finset.sdiff_subset).trans m.card_functionIds_le)
  have heq : m.callSearch = found := hfound.finished_eq.trans (List.append_nil _)
  exact ⟨_, heq ▸ hfound⟩

/-- The functions that can be reached are those to which direct calls lead. -/
lemma mem_reachableFrom (hid : id ∈ m.functionIds) : x ∈ m.reachableFrom id ↔ m.Leads id x := by
  obtain ⟨found, hfound⟩ := (Search.finds_rules m.callees).exists_visit
    (U := m.functionIds.toFinset) (s := .avoiding [])
    (fun x _ y hy => List.mem_toFinset.2 (mem_functionIds_of_mem_callees hy))
    (List.mem_toFinset.2 hid)
    ((Finset.card_le_card Finset.sdiff_subset).trans m.card_functionIds_le)
  rw [reachableFrom, hfound.mem_seen, Search.avoiding, or_iff_left List.not_mem_nil,
    hfound.mem_found_iff]

/-- The component of a function has the functions that lead to it and to which it leads. -/
lemma mem_componentOf (hid : id ∈ m.functionIds) :
    x ∈ m.componentOf id ↔ x ∈ m.functionIds ∧ Search.InCircle m.callees id x := by
  rw [componentOf, List.mem_filter, Bool.and_eq_true, List.contains_iff_mem, List.contains_iff_mem,
    mem_reachableFrom hid]
  exact and_congr_right fun hx => and_congr_right fun _ => mem_reachableFrom hx

lemma mem_componentOf_self (hid : id ∈ m.functionIds) : id ∈ m.componentOf id :=
  (mem_componentOf hid).2 ⟨hid, .refl id⟩

/-- Functions of the same component have the same component. -/
lemma componentOf_eq_iff (hx : x ∈ m.functionIds) (hy : y ∈ m.functionIds) :
    m.componentOf x = m.componentOf y ↔ Search.InCircle m.callees x y := by
  constructor
  · intro heq
    have hmem := heq ▸ mem_componentOf_self hy
    exact ((mem_componentOf hx).1 hmem).2
  · intro hcircle
    rw [componentOf, componentOf]
    refine List.filter_congr fun z hz => ?_
    rw [Bool.eq_iff_iff, Bool.and_eq_true, Bool.and_eq_true, List.contains_iff_mem,
      List.contains_iff_mem, List.contains_iff_mem, List.contains_iff_mem, mem_reachableFrom hx,
      mem_reachableFrom hy, mem_reachableFrom hz, mem_reachableFrom hz]
    exact ⟨hcircle.symm.trans, hcircle.trans⟩

lemma mem_callSearch (hid : id ∈ m.functionIds) : id ∈ m.callSearch := by
  obtain ⟨s₁, hsearch⟩ := m.exists_callSearch
  exact ((hsearch.mem_seen id).1 (hsearch.roots_seen id hid)).resolve_right List.not_mem_nil

lemma mem_functionIds_of_mem_callSearch (h : id ∈ m.callSearch) : id ∈ m.functionIds := by
  obtain ⟨s₁, hsearch⟩ := m.exists_callSearch
  obtain ⟨r, hr, hpath⟩ := hsearch.reached id h
  rcases Relation.ReflTransGen.cases_tail hpath with rfl | ⟨w, -, hw⟩
  · exact hr
  · exact mem_functionIds_of_mem_callees hw

/-- Of two components, the one whose last function is left first does not lead to the other one. -/
lemma not_leads_of_idxOf_lt {c d : List FunctionId} (hc : c ∈ m.callSearch.map m.componentOf)
    (hlt : (m.callSearch.map m.componentOf).idxOf d < (m.callSearch.map m.componentOf).idxOf c)
    (hf : f ∈ c) (hg : g ∈ d) : ¬ m.Leads f g := by
  intro hpath
  obtain ⟨s₁, hsearch⟩ := m.exists_callSearch
  -- the function of the component `c` that is left last
  obtain ⟨front, back, heq, hfront⟩ := List.eq_append_cons_of_mem hc
  obtain ⟨front', rest, hsplit, hfront', hrest⟩ := List.map_eq_append_iff.1 heq
  obtain ⟨x, back', rfl, hx, -⟩ := List.map_eq_cons_iff.1 hrest
  have hids : ∀ z ∈ m.callSearch, z ∈ m.functionIds := fun z => mem_functionIds_of_mem_callSearch
  rw [hsplit] at hsearch hids
  have hxid := hids x (by simp)
  have hfirst : ∀ z ∈ front', ¬ Search.InCircle m.callees x z := by
    intro z hz hcircle
    refine hfront ?_
    rw [← hfront', ← hx, (componentOf_eq_iff hxid (hids z (by simp [hz]))).2 hcircle]
    exact List.mem_map_of_mem hz
  -- the component `d` has a function in front of it
  have hd : d ∈ front := by
    by_contra hd
    rw [heq, List.idxOf_append_of_notMem hd, List.idxOf_append_of_notMem hfront,
      List.idxOf_cons_self] at hlt
    omega
  rw [← hfront'] at hd
  obtain ⟨z, hz, rfl⟩ := List.mem_map.1 hd
  have hxf := ((mem_componentOf hxid).1 (hx ▸ hf)).2
  have hzg := ((mem_componentOf (hids z (by simp [hz]))).1 hg).2
  exact hsearch.notMem_front hfirst ((hxf.1.trans hpath).trans hzg.2) hz

/-- The components stand in the order in which their last functions are left. -/
lemma pairwise_components (m : Module R) :
    m.components.Pairwise fun c d => ∀ f ∈ c, ∀ g ∈ d, ¬ m.Leads f g := by
  rw [components, List.pairwise_reverse]
  refine (pairwise_eraseDups_idxOf _).imp_of_mem fun _ hc hlt f hf g hg => ?_
  exact not_leads_of_idxOf_lt (List.mem_eraseDups.1 hc) hlt hf hg

/-- A component is that of one of the functions. -/
lemma exists_of_mem_components {c : List FunctionId} (hc : c ∈ m.components) :
    ∃ id ∈ m.functionIds, m.componentOf id = c := by
  rw [components, List.mem_reverse, List.mem_eraseDups] at hc
  obtain ⟨id, hid, rfl⟩ := List.mem_map.1 hc
  exact ⟨id, mem_functionIds_of_mem_callSearch hid, rfl⟩

/-! ## The order of the functions -/

lemma mem_bottomUp : id ∈ m.bottomUp ↔ id ∈ m.functionIds := by
  rw [bottomUp, List.mem_flatten]
  constructor
  · rintro ⟨c, hc, hid⟩
    obtain ⟨x, hx, rfl⟩ := exists_of_mem_components hc
    exact ((mem_componentOf hx).1 hid).1
  · intro hid
    refine ⟨m.componentOf id, ?_, mem_componentOf_self hid⟩
    rw [components, List.mem_reverse, List.mem_eraseDups]
    exact List.mem_map_of_mem (mem_callSearch hid)

/-- A function that leads to one behind it is led to by it. -/
lemma pairwise_bottomUp (m : Module R) :
    m.bottomUp.Pairwise fun f g => m.Leads f g → m.Leads g f := by
  rw [bottomUp, List.pairwise_flatten]
  constructor
  · intro c hc
    obtain ⟨x, hx, rfl⟩ := exists_of_mem_components hc
    refine List.pairwise_of_forall_mem_list fun f hf g hg _ => ?_
    exact ((mem_componentOf hx).1 hg).2.2.trans ((mem_componentOf hx).1 hf).2.1
  · exact m.pairwise_components.imp fun hcd f hf g hg hpath => absurd hpath (hcd f hf g hg)

lemma nodup_bottomUp (hm : m.validate = .ok ()) : m.bottomUp.Nodup := by
  rw [bottomUp, List.nodup_flatten]
  constructor
  · intro c hc
    obtain ⟨x, -, rfl⟩ := exists_of_mem_components hc
    exact (nodup_functionIds hm).filter _
  · refine m.pairwise_components.imp fun hcd f hf hg => ?_
    exact hcd f hf f hg .refl

lemma isEntry_iff {settings : Settings} : m.isEntry settings id = true ↔
    ∃ body, m.function? id = some body ∧ body.isDeclaration = false ∧
      (settings.propagateOnlyFlagged = true → body.entryPoint = true) := by
  rw [isEntry]
  cases m.function? id with
  | none => simp
  | some body => cases body.isDeclaration <;> cases settings.propagateOnlyFlagged <;> simp

/-- The functions from which the analysis starts. -/
lemma mem_entries_iff {settings : Settings} : id ∈ m.entries settings ↔
    ∃ body, m.function? id = some body ∧ body.isDeclaration = false ∧
      (settings.propagateOnlyFlagged = true → body.entryPoint = true) := by
  rw [entries, List.mem_filter, mem_bottomUp, mem_functionIds_iff, isEntry_iff,
    and_iff_right_iff_imp]
  rintro ⟨body, hbody, -⟩
  rw [hbody, Option.isSome_some]

/-- The analysis starts from the functions of a list in turn, callees before callers. -/
structure CalleesFirst (m : Module R) (settings : Settings) (order : List FunctionId) : Prop where
  /-- No function is listed twice. -/
  nodup : order.Nodup
  /-- The list has the functions with a body that are asked for. -/
  mem_iff : ∀ id, id ∈ order ↔ ∃ body, m.function? id = some body ∧ body.isDeclaration = false ∧
    (settings.propagateOnlyFlagged = true → body.entryPoint = true)
  /-- A function that leads to another one along direct calls comes after it, unless the other one
  leads back. -/
  idxOf_lt : ∀ f ∈ order, ∀ g ∈ order, m.Leads f g → ¬ m.Leads g f → order.idxOf g < order.idxOf f

/-- **Callees come before callers**, as far as calls are direct. -/
theorem calleesFirst_entries (hm : m.validate = .ok ()) (settings : Settings) :
    m.CalleesFirst settings (m.entries settings) := by
  have hnodup : (m.entries settings).Nodup := (nodup_bottomUp hm).filter _
  refine ⟨hnodup, fun id => mem_entries_iff, fun f hf g hg hpath hback => ?_⟩
  by_contra hle
  have hne : f ≠ g := fun heq => hback (heq ▸ .refl)
  have hlt : (m.entries settings).idxOf f < (m.entries settings).idxOf g :=
    (Nat.le_of_not_lt hle).lt_of_ne fun heq => hne ((List.idxOf_inj hf).1 heq)
  have hpair := List.pairwise_iff_getElem.1
    (m.pairwise_bottomUp.sublist List.filter_sublist : (m.entries settings).Pairwise _)
    _ _ (List.idxOf_lt_length_of_mem hf) (List.idxOf_lt_length_of_mem hg) hlt
  rw [List.getElem_idxOf, List.getElem_idxOf] at hpair
  exact hback (hpair hpath)

/-- A call that is followed and gives the callee by its position has the callee listed before the
caller, unless the callee leads back to the caller. -/
theorem idxOf_lt_of_calleeBody? (hm : m.validate = .ok ()) {settings : Settings}
    {caller callee : Function R} (hcaller : caller.id ∈ m.entries settings)
    (hcallee : callee.id ∈ m.entries settings) {i : Instruction R} (hi : i ∈ caller.insts)
    (hplace : m.function? caller.id = some caller) {args : List (Value R)}
    (hsite : i.op.callSite? = some (.direct id, args))
    (hbody : m.calleeBody? (.direct id) = some callee) (hback : ¬ m.Leads callee.id caller.id) :
    (m.entries settings).idxOf callee.id < (m.entries settings).idxOf caller.id := by
  have hget : m.function? id = some callee := (Option.filter_eq_some_iff.1 hbody).1
  have hid := id_eq_of_function? hm hget
  have hcalls : m.CallsDirectly caller.id callee.id := ⟨caller, hplace, i, hi, args, hid ▸ hsite⟩
  have hmem : callee.id ∈ m.functionIds := by
    rw [mem_functionIds_iff, hid, hget, Option.isSome_some]
  exact (calleesFirst_entries hm settings).idxOf_lt _ hcaller _ hcallee
    (.single (mem_callees_iff.2 ⟨hcalls, hmem⟩)) hback

end Module

end Roundoff
