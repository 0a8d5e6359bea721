/-
# Fields that are written and read back

A function stores a formal parameter in an element of an aggregate of its own, and loads an
element of the same aggregate through another address.  Two mechanisms tell the load what it may
read.  The memory states compare the constant paths of the two addresses index by index, so they
answer with the store if the paths are the same.  The tree of the aggregate looks at fields only, so
it answers if the paths select the same fields.

If both answer they give the same estimate, which counts once as long as it is equal to itself.  So
the load takes over the range and the error of the parameter, or finds nothing.
-/
import Mathlib
import Roundoff.Proofs.Aggregate.Paths
import Roundoff.Proofs.Analysis.Beginnings
import Roundoff.Proofs.Analysis.Refusals
import Roundoff.Proofs.Memory.Sources
import Roundoff.Proofs.Transfer.Visits

namespace Roundoff

/-- The outcome of a schedule with a single visit that meets no fault. -/
lemma Body.runSchedule_visit {R σ : Type} [Number R] {b : Body R} {h : CallHandler R σ}
    {a : Activation R} {w : σ} {v : Visit} {n : Symbol} {k : ℕ}
    (hanswer : (b.visitBlock h v a w n).1.answer = .ok k) :
    (b.runSchedule h a w [.visit v] n).1
      = ⟨.ok (), (b.visitBlock h v a w n).1.state, (b.visitBlock h v a w n).1.world⟩ := by
  rw [runSchedule, Fresh.bind_apply, runItem, runVisits, Fresh.bind_apply, hanswer]
  rfl

/-- A function that makes a stack slot for an aggregate, writes a formal parameter to an element of
it, and reads an element of it, which it returns.  The elements are given by constant paths. -/
structure FieldAccess (R : Type) where
  /-- The position of the function in its module. -/
  id : FunctionId
  /-- The name of the function. -/
  name : String
  /-- The formal parameters. -/
  params : Array (Param R)
  /-- The type of the returned value. -/
  retTy : Ty
  /-- How many activations of the function may be nested, if not the default number. -/
  maxRecursion : Option UInt32
  /-- Whether the function is marked as an entry point of the analysis. -/
  entryPoint : Bool
  /-- The type of the aggregate. -/
  root : StructId
  /-- The formal parameter that is written. -/
  arg : UInt32
  /-- The type of the elements. -/
  scalar : Ty
  /-- The path to the element that is written. -/
  written : List Int64
  /-- The path to the element that is read. -/
  read : List Int64

namespace FieldAccess

variable {R : Type} {m : Module R}

/-- The stack slot. -/
def slot (A : FieldAccess R) : Instruction R :=
  ⟨⟨0⟩, ⟨0⟩, "obj", .pointer (.struct A.root), .alloca (.struct A.root), none, none⟩

/-- The address of the element at the end of a path. -/
def address (A : FieldAccess R) (id : InstId) (name : String) (path : List Int64) : Instruction R :=
  ⟨id, ⟨0⟩, name, .pointer A.scalar, .element (.inst ⟨0⟩) (.constInt 0 :: path.map .constInt), none,
    none⟩

/-- The address to which the parameter is written. -/
def dst (A : FieldAccess R) : Instruction R := A.address ⟨1⟩ "dst" A.written

/-- The store of the parameter. -/
def write (A : FieldAccess R) : Instruction R :=
  ⟨⟨2⟩, ⟨0⟩, "", .void, .store (.arg A.arg) (.inst ⟨1⟩), none, none⟩

/-- The address that is read. -/
def src (A : FieldAccess R) : Instruction R := A.address ⟨3⟩ "src" A.read

/-- The load. -/
def readBack (A : FieldAccess R) : Instruction R :=
  ⟨⟨4⟩, ⟨0⟩, "read", A.scalar, .load (.inst ⟨3⟩), none, none⟩

/-- The return of what has been read. -/
def result : Instruction R := ⟨⟨5⟩, ⟨0⟩, "", .void, .ret (some (.inst ⟨4⟩)), none, none⟩

/-- The function. -/
def function (A : FieldAccess R) : Function R where
  id := A.id
  name := A.name
  params := A.params
  retTy := A.retTy
  blocks := #[⟨⟨0⟩, "entry", [⟨0⟩, ⟨1⟩, ⟨2⟩, ⟨3⟩, ⟨4⟩, ⟨5⟩], none, none⟩]
  insts := #[A.slot, A.dst, A.write, A.src, A.readBack, result]
  maxRecursion := A.maxRecursion
  entryPoint := A.entryPoint

variable (A : FieldAccess R)

lemma blockInsts_function : A.function.blockInsts ⟨0⟩
    = [A.slot, A.dst, A.write, A.src, A.readBack, result] := rfl

lemma flowGraph_function : FlowGraph.of A.function = ⟨#[[]]⟩ := by with_unfolding_all rfl

lemma schedule_function (settings : Settings) :
    (Flow.of A.function).schedule settings A.function = [.visit ⟨⟨0⟩, .all⟩] := by
  rw [Flow.of, flowGraph_function]
  with_unfolding_all rfl

lemma instsInPlace_function : A.function.InstsInPlace :=
  Function.instsInPlace_of_map_eq_range rfl

lemma listedOnce_function : A.function.ListedOnce := by
  change ([⟨0⟩, ⟨1⟩, ⟨2⟩, ⟨3⟩, ⟨4⟩, ⟨5⟩] : List InstId).Nodup
  decide

lemma path_function : (FlowGraph.of A.function).Path ⟨0⟩ [] :=
  .entry (FlowGraph.startsAt_of Nat.zero_lt_one)

lemma eq_nil_of_path {b : BlockId} {bs : List BlockId} (h : (FlowGraph.of A.function).Path b bs) :
    bs = [] := by
  cases h with
  | entry _ => rfl
  | @step b t bs hpath ht =>
    obtain ⟨block, hblock, ht, -⟩ := FlowGraph.mem_targetsOf_of.1 ht
    obtain rfl := Array.mem_singleton.1 (Array.mem_of_getElem? hblock)
    cases ht

/-! ## Memory -/

/-- The origin of an address. -/
lemma origin_address {id : InstId} {name : String} {path : List Int64}
    (h : A.function.inst? id = some (A.address id name path)) :
    Origin.of A.function (.inst id) = ⟨.alloca ⟨0⟩, some 0 :: path.map some⟩ := by
  have hslot : A.function.inst? ⟨0⟩ = some A.slot := rfl
  change Origin.trace A.function (5 + 1 + 1) [] (.inst id) = _
  rw [Origin.trace, h]
  dsimp only [Option.map_some, address]
  rw [Origin.trace, hslot]
  simp [slot, Origin.joinGroups, Origin.index]

/-- The two addresses may be the same only if the paths are. -/
lemma mayAlias_eq (hp : m.LeadsToScalar (.struct A.root) A.written)
    (hq : m.LeadsToScalar (.struct A.root) A.read) :
    (Origin.of A.function (.inst ⟨1⟩)).mayAlias (Origin.of A.function (.inst ⟨3⟩))
      = decide (A.written = A.read) := by
  have hdst : A.function.inst? ⟨1⟩ = some (A.address ⟨1⟩ "dst" A.written) := rfl
  have hsrc : A.function.inst? ⟨3⟩ = some (A.address ⟨3⟩ "src" A.read) := rfl
  rw [A.origin_address hdst, A.origin_address hsrc, Origin.mayAlias, Origin.pathsMayMeet,
    hp.pathsMayMeet_eq hq]
  simp [MemoryRoot.isObject]

variable {records : Records R} {e : Estimate R}

/-- The last write before the load that is not proved to miss it: the store, if the paths are the
same. -/
lemma lastWrite?_eq (hp : m.LeadsToScalar (.struct A.root) A.written)
    (hq : m.LeadsToScalar (.struct A.root) A.read) :
    A.function.lastWrite? m (Origin.of A.function (.inst ⟨3⟩)) [A.slot, A.dst, A.write, A.src]
      = if A.written = A.read then some A.write else none := by
  have halias := A.mayAlias_eq hp hq
  have hmiss : A.function.misses (Origin.of A.function (.inst ⟨3⟩)) A.write
      = !decide (A.written = A.read) := by
    rw [Function.misses, write]
    dsimp only
    rw [halias]
  have hwrites (i : Instruction R) (hi : i ∈ [A.slot, A.dst, A.src]) : m.mayWrite i = false := by
    simp only [List.mem_cons, List.not_mem_nil, or_false] at hi
    rcases hi with rfl | rfl | rfl <;> rfl
  have hwrite : m.mayWrite A.write = true := rfl
  rw [Function.lastWrite?]
  simp only [List.filter_cons, hwrites A.slot (by simp), hwrites A.dst (by simp),
    hwrites A.src (by simp), hwrite, hmiss]
  by_cases h : A.written = A.read <;> simp [h]

/-- Nothing is recorded along the address of the load. -/
lemma not_firstRecord (hslot : records (.inst A.id ⟨0⟩) = none)
    (hsrc : records (.inst A.id ⟨3⟩) = none) : ¬ A.function.FirstRecord records A.readBack e := by
  have hread : A.readBack.pointer? = some (.inst ⟨3⟩) := rfl
  have haddress : A.src.pointer? = some (.inst ⟨0⟩) := rfl
  intro h
  rw [Function.firstRecord_iff hread] at h
  obtain h | ⟨-, j, hj, h⟩ := h
  · cases hsrc.symm.trans h
  · obtain rfl : A.src = j := Option.some.inj hj
    rw [Function.firstRecord_iff haddress] at h
    obtain h | ⟨-, j, hj, h⟩ := h
    · cases hslot.symm.trans h
    · obtain rfl : A.slot = j := Option.some.inj hj
      cases h with
      | here hi | behind hi => cases hi

variable [Number R]

/-- A list without duplicates in which there is nothing but `e`. -/
lemma eq_singleton_of_pairwise {es : List (Estimate R)} (hmem : ∀ e' ∈ es, e' = e) (hne : es ≠ [])
    (he : (e == e) = true) (hpairwise : es.Pairwise fun e e' => (e' == e) = false) : es = [e] := by
  cases es with
  | nil => exact absurd rfl hne
  | cons e₁ es =>
    obtain rfl := hmem e₁ List.mem_cons_self
    cases es with
    | nil => rfl
    | cons e₂ es =>
      obtain rfl := hmem e₂ (List.mem_cons_of_mem _ List.mem_cons_self)
      have h := (List.pairwise_cons.1 hpairwise).1 e₂ List.mem_cons_self
      rw [he] at h
      cases h

/-- **Over the memory states the load is given the record of the store, if the paths are the same**,
and nothing otherwise. -/
lemma sources_eq (hp : m.LeadsToScalar (.struct A.root) A.written)
    (hq : m.LeadsToScalar (.struct A.root) A.read) (hwrite : records (.inst A.id ⟨2⟩) = some e)
    (hself : A.written = A.read → (e == e) = true) (hslot : records (.inst A.id ⟨0⟩) = none)
    (hsrc : records (.inst A.id ⟨3⟩) = none) :
    (Memory.of m A.function).sources A.function records ⟨4⟩
      = if A.written = A.read then [e] else [] := by
  have hblock : A.function.blockInsts ⟨0⟩
      = [A.slot, A.dst, A.write, A.src] ++ A.readBack :: [result] := A.blockInsts_function
  obtain ⟨hsound, hcomplete, hpairwise⟩ := Memory.sources_exact m A.function records
    A.instsInPlace_function A.listedOnce_function ⟨[], A.path_function⟩ hblock rfl
  have hlast (bs : List BlockId) (hbs : (FlowGraph.of A.function).Path ⟨0⟩ bs) :
      A.function.lastWrite? m (Origin.of A.function (.inst ⟨3⟩))
          (Memory.passed A.function bs ++ [A.slot, A.dst, A.write, A.src])
        = if A.written = A.read then some A.write else none := by
    rw [A.eq_nil_of_path hbs]
    exact A.lastWrite?_eq hp hq
  split
  · next hpaths =>
    refine eq_singleton_of_pairwise (fun e' he' => ?_) (fun hnil => ?_) (hself hpaths) hpairwise
    · obtain ⟨bs, hbs, hsupplies⟩ := hsound e' he'
      rw [hlast bs hbs, if_pos hpaths] at hsupplies
      cases hsupplies with
      | store _ h => exact Option.some.inj (h.symm.trans hwrite)
      | call hcall => cases hcall
    · have hgiven := hcomplete [] e A.path_function
        (by rw [hlast [] A.path_function, if_pos hpaths]; exact .store rfl hwrite)
      change e ∈ (Memory.of m A.function).sources A.function records ⟨4⟩ ∨
        ∃ e' ∈ (Memory.of m A.function).sources A.function records ⟨4⟩, _ at hgiven
      simp [hnil] at hgiven
  · next hpaths =>
    refine List.eq_nil_iff_forall_not_mem.2 fun e' he' => ?_
    obtain ⟨bs, hbs, hsupplies⟩ := hsound e' he'
    rw [hlast bs hbs, if_neg hpaths] at hsupplies
    cases hsupplies with
    | none h => exact A.not_firstRecord hslot hsrc h

/-! ## Objects -/

variable {o : Objects R}

omit [Number R] in
/-- An address leads to the element of the slot at the end of its path. -/
lemma resolve?_address {id : InstId} {name : String} {path : List Int64}
    (h : A.function.inst? id = some (A.address id name path)) :
    o.resolve? m A.function (.inst id) = some ⟨.inst A.id ⟨0⟩, A.root, path.map .ofInt⟩ := by
  have hslot : A.function.inst? ⟨0⟩ = some A.slot := rfl
  change o.walk? m A.function (6 + 1 + 1) [] (.inst id) = _
  rw [Objects.walk?, h]
  dsimp only [Option.map_some, address]
  rw [List.drop_succ_cons, List.drop_zero, PathIndex.map_of_constInt, Objects.walk?, hslot]
  simp [slot, function]

/-- What the tree of the slot tells of the element that is read, when one has been written. -/
lemma getField?_setField (hp : m.LeadsToScalar (.struct A.root) A.written)
    (hq : m.LeadsToScalar (.struct A.root) A.read)
    (htree : o.trees.get? (.inst A.id ⟨0⟩) = none) :
    (o.setField m A.function (.inst ⟨1⟩) e).2.getField? m A.function (.inst ⟨3⟩)
      = if m.fieldsOn (.struct A.root) A.read = m.fieldsOn (.struct A.root) A.written then some e
        else none := by
  have hdst : A.function.inst? ⟨1⟩ = some (A.address ⟨1⟩ "dst" A.written) := rfl
  have hsrc : A.function.inst? ⟨3⟩ = some (A.address ⟨3⟩ "src" A.read) := rfl
  rw [Objects.getField?, A.resolve?_address hsrc, Objects.setField, A.resolve?_address hdst]
  simp [htree, Tree.get?_set_new hp e hq]

/-! ## Visits -/

section Visits

variable {σ : Type} {settings : Settings} {h : CallHandler R σ} {edges : PhiEdges}
  {a : Activation R} {w : σ}

/-- An instruction without an annotation is visited by the rule for its operation. -/
lemma visit_eq {i : Instruction R} (hi : i.info = none) (hpinned : a.pinned = ∅) :
    (Body.of m settings A.function).visit h edges a w i
      = (Body.of m settings A.function).operate h edges a w i := by
  rw [Body.visit, hpinned, Instruction.scalarInfo?, hi]
  rfl

lemma visit_slot (hpinned : a.pinned = ∅) :
    (Body.of m settings A.function).visit h edges a w A.slot = pure ⟨.ok false, a, w⟩ := by
  rw [A.visit_eq rfl hpinned]
  rfl

/-- An address has no record if the slot has none. -/
lemma visit_address (hpinned : a.pinned = ∅) (hslot : a.store.get? (.inst A.id ⟨0⟩) = none)
    (id : InstId) (name : String) (path : List Int64) :
    (Body.of m settings A.function).visit h edges a w (A.address id name path)
      = pure ⟨.ok false, a, w⟩ := by
  rw [A.visit_eq rfl hpinned, Body.operate, address]
  dsimp only
  have hrecord : (Body.of m settings A.function).record? a.store (.inst ⟨0⟩) = none := hslot
  rw [Body.element, hrecord]
  rfl

/-- What is known after the store. -/
def stored (A : FieldAccess R) (m : Module R) (s : Store R) (e : Estimate R) : Store R :=
  { s.set (.inst A.id ⟨2⟩) e with
    objects := (s.objects.setField m A.function (.inst ⟨1⟩) e).2 }

lemma visit_write (hpinned : a.pinned = ∅) (harg : a.store.get? (.arg A.id A.arg) = some e)
    (he : e.hasError = true) :
    (Body.of m settings A.function).visit h edges a w A.write
      = pure ⟨.ok true, { a with store := A.stored m a.store e }, w⟩ := by
  obtain ⟨range, error⟩ := e
  obtain ⟨error, rfl⟩ := Option.isSome_iff_exists.1 he
  have hoperand (format : Option Format) :
      (Body.of m settings A.function).operand a.store (.arg A.arg) format
        = pure ⟨range, error⟩ := by
    change OptionT.mk (pure ((a.store.get? (.arg A.id A.arg)).bind Estimate.toOperand?)) = _
    rw [harg]
    rfl
  have hstored : (Body.of m settings A.function).storedEstimate a.store (.arg A.arg) (.inst ⟨1⟩)
      = pure ⟨range, some error⟩ := by
    rw [Body.storedEstimate, hoperand]
    rfl
  have hstore : (Body.of m settings A.function).store a A.write (.arg A.arg) (.inst ⟨1⟩)
      = pure { a with store := A.stored m a.store ⟨range, some error⟩ } := by
    rw [Body.store, hstored, pure_bind]
    have hformal : (Body.of m settings A.function).function.formalOf? (.inst ⟨1⟩) = none := rfl
    rw [hformal]
    dsimp only
    rw [Store.objects_set]
    rfl
  rw [A.visit_eq rfl hpinned, Body.operate, write]
  dsimp only
  rw [← write, hstore]
  rfl

/-- What is recorded for the other values is not changed by the store. -/
lemma get?_stored (s : Store R) (k : Key) :
    (A.stored m s e).get? k = if Key.inst A.id ⟨2⟩ = k then some e else s.get? k :=
  Store.get?_set s _ _ e

/-- What the load may read after the store. -/
lemma loadSources_stored (hp : m.LeadsToScalar (.struct A.root) A.written)
    (hq : m.LeadsToScalar (.struct A.root) A.read) (he : e.hasError = true)
    (hself : A.written = A.read → (e == e) = true) {s : Store R}
    (hslot : s.get? (.inst A.id ⟨0⟩) = none) (hsrc : s.get? (.inst A.id ⟨3⟩) = none)
    (htree : s.objects.trees.get? (.inst A.id ⟨0⟩) = none) :
    (Body.of m settings A.function).loadSources (A.stored m s e) ⟨4⟩ (.inst ⟨3⟩)
      = if m.fieldsOn (.struct A.root) A.read = m.fieldsOn (.struct A.root) A.written then [e]
        else [] := by
  have hmemory : (Body.of m settings A.function).memory.sources
      (Body.of m settings A.function).function (A.stored m s e).get? ⟨4⟩
      = if A.written = A.read then [e] else [] :=
    A.sources_eq hp hq (by rw [get?_stored]; simp) hself (by rw [get?_stored]; simpa)
      (by rw [get?_stored]; simpa)
  have hfield : (A.stored m s e).objects.getField? (Body.of m settings A.function).module
      (Body.of m settings A.function).function (.inst ⟨3⟩)
      = if m.fieldsOn (.struct A.root) A.read = m.fieldsOn (.struct A.root) A.written then some e
        else none :=
    A.getField?_setField hp hq htree
  have hfilter : (some e).filter Estimate.hasError = some e := by simp [he]
  rw [Body.loadSources, hmemory, hfield]
  by_cases hpaths : A.written = A.read
  · simp [hpaths, he, hself hpaths, hfilter]
  · by_cases hfields : m.fieldsOn (.struct A.root) A.read = m.fieldsOn (.struct A.root) A.written
    · simp [hpaths, hfields, hfilter]
    · simp [hpaths, hfields]

/-- What is known after the load. -/
def loaded (A : FieldAccess R) (m : Module R) (s : Store R) (e : Estimate R) : Store R :=
  if m.fieldsOn (.struct A.root) A.read = m.fieldsOn (.struct A.root) A.written then
    (A.stored m s e).set (.inst A.id ⟨4⟩) e
  else A.stored m s e

lemma visit_readBack (hp : m.LeadsToScalar (.struct A.root) A.written)
    (hq : m.LeadsToScalar (.struct A.root) A.read) (he : e.hasError = true)
    (hself : A.written = A.read → (e == e) = true) (hpinned : a.pinned = ∅)
    (hslot : a.store.get? (.inst A.id ⟨0⟩) = none) (hsrc : a.store.get? (.inst A.id ⟨3⟩) = none)
    (hread : a.store.get? (.inst A.id ⟨4⟩) = none)
    (htree : a.store.objects.trees.get? (.inst A.id ⟨0⟩) = none) :
    (Body.of m settings A.function).visit h edges { a with store := A.stored m a.store e } w
        A.readBack
      = pure ⟨.ok (decide (m.fieldsOn (.struct A.root) A.read
          = m.fieldsOn (.struct A.root) A.written)),
          { a with store := A.loaded m a.store e }, w⟩ := by
  have hrange : (Body.of m settings A.function).resultRange? (A.stored m a.store e) A.readBack
      = none := by
    change ((A.stored m a.store e).get? (.inst A.id ⟨4⟩)).map Estimate.range = none
    rw [get?_stored]
    simp [hread]
  have hload : (Body.of m settings A.function).load { a with store := A.stored m a.store e }
      A.readBack (.inst ⟨3⟩) = OptionT.mk (pure
        (if m.fieldsOn (.struct A.root) A.read = m.fieldsOn (.struct A.root) A.written then
          some { a with store := A.loaded m a.store e } else none)) := by
    have hid : A.readBack.id = ⟨4⟩ := rfl
    rw [Body.load, hid]
    dsimp only
    rw [hrange, A.loadSources_stored hp hq he hself hslot hsrc htree, loaded]
    split
    · rw [Body.loadedEstimate, Option.filter_none, Option.getD_none, ite_self]
      rfl
    · rfl
  have hpinned' : ({ a with store := A.stored m a.store e } : Activation R).pinned = ∅ := hpinned
  rw [A.visit_eq rfl hpinned', Body.operate, readBack]
  dsimp only
  rw [← readBack, hload]
  split
  · next hfields =>
    rw [decide_eq_true hfields]
    rfl
  · next hfields =>
    rw [decide_eq_false hfields, loaded, if_neg hfields]
    rfl

/-- The run through the block meets no fault. -/
lemma answer_visitAll_function (hpinned : a.pinned = ∅) (count : ℕ) :
    ((Body.of m settings A.function).visitAll h edges count a w
        [A.slot, A.dst, A.write, A.src, A.readBack, result]).Ensures fun o =>
      ∃ n, o.answer = .ok n := by
  rw [Body.visitAll, A.visit_slot hpinned, pure_bind]
  refine (Body.visitAll_frame (fun i hi => ?_) _).mono fun o ho => ho.answer_eq
  simp only [List.mem_cons, List.not_mem_nil, or_false] at hi
  rcases hi with rfl | rfl | rfl | rfl | rfl <;> trivial

/-- It keeps what has been recorded for the load. -/
lemma visitAll_function (hp : m.LeadsToScalar (.struct A.root) A.written)
    (hq : m.LeadsToScalar (.struct A.root) A.read) (harg : a.store.get? (.arg A.id A.arg) = some e)
    (he : e.hasError = true) (hself : A.written = A.read → (e == e) = true) (hpinned : a.pinned = ∅)
    (hstore : ∀ id, a.store.get? (.inst A.id id) = none)
    (htree : a.store.objects.trees.get? (.inst A.id ⟨0⟩) = none) (count : ℕ) :
    ((Body.of m settings A.function).visitAll h edges count a w
        [A.slot, A.dst, A.write, A.src, A.readBack, result]).Ensures fun o =>
      o.state.store.get? (.inst A.id ⟨4⟩) = (A.loaded m a.store e).get? (.inst A.id ⟨4⟩) := by
  have hwritten : ({ a with store := A.stored m a.store e } : Activation R).store.get?
      (.inst A.id ⟨0⟩) = none := by
    rw [get?_stored]
    simp [hstore]
  rw [Body.visitAll, A.visit_slot hpinned, pure_bind]
  dsimp only
  rw [Body.visitAll, dst, A.visit_address hpinned (hstore _), pure_bind]
  dsimp only
  rw [Body.visitAll, A.visit_write hpinned harg he, pure_bind]
  dsimp only
  rw [Body.visitAll, src, A.visit_address (by exact hpinned) hwritten, pure_bind]
  dsimp only
  rw [Body.visitAll, A.visit_readBack hp hq he hself hpinned (hstore _) (hstore _) (hstore _) htree,
    pure_bind]
  dsimp only
  -- the return writes to its own key and to that of the function
  refine (Body.visitAll_frame (fun i hi => ?_) _).mono fun o ho => ho.frame.writes.get?_eq ?_
  · obtain rfl := List.mem_singleton.1 hi
    trivial
  · rintro ⟨i, hi, hk⟩
    obtain rfl := List.mem_singleton.1 hi
    obtain hk | hk := hk <;> cases hk

end Visits

/-! ## Activations -/

/-- What the load is left with when an estimate has been written. -/
structure ReadsBack (A : FieldAccess R) (m : Module R) (e : Estimate R)
    (record : Option (Estimate R)) : Prop where
  /-- The element that was written has the estimate, if that is equal to itself. -/
  same : A.read = A.written → (e == e) = true → record = some e
  /-- Nothing is known of the elements of other fields. -/
  otherField : m.fieldsOn (.struct A.root) A.read ≠ m.fieldsOn (.struct A.root) A.written →
    record = none
  /-- The tree does not tell array elements apart. -/
  otherElement : A.read ≠ A.written →
    m.fieldsOn (.struct A.root) A.read = m.fieldsOn (.struct A.root) A.written → record = some e

/-- After the load is recorded what the tree tells. -/
lemma get?_loaded {s : Store R} (hread : s.get? (.inst A.id ⟨4⟩) = none) :
    (A.loaded m s e).get? (.inst A.id ⟨4⟩)
      = if m.fieldsOn (.struct A.root) A.read = m.fieldsOn (.struct A.root) A.written then some e
        else none := by
  rw [loaded]
  split
  · rw [Store.get?_set, if_pos rfl]
  · rw [get?_stored]
    simp [hread]

variable {settings : Settings} {x : Start R} {xs : List (Start R)}

/-- The outcome of an activation of the function is that of the run through its block. -/
lemma outcome_eq (hm : m.validate = .ok ()) (hx : (Plan.of m settings).IsStack x xs)
    (hfunction : x.function = A.function) :
    ((Plan.of m settings).outcome (Plan.of m settings).calls x).1.answer = .ok () ∧
      ((Plan.of m settings).outcome (Plan.of m settings).calls x).1.state
        = ((Body.of m settings A.function).visitAll (Plan.of m settings).calls .all 0 x.state
            ((Plan.of m settings).prepared A.function x.findings).2
            [A.slot, A.dst, A.write, A.src, A.readBack, result] x.supply).1.state := by
  obtain ⟨hmem, hschedule⟩ := hx.schedule_eq hm
  have hbody : (Plan.of m settings).body x.function = Body.of m settings x.function :=
    Plan.body_eq_of_validate hm hmem
  have hanswer : ∃ k, ((Body.of m settings A.function).visitBlock (Plan.of m settings).calls
      ⟨⟨0⟩, .all⟩ x.state ((Plan.of m settings).prepared A.function x.findings).2
      x.supply).1.answer = .ok k :=
    (A.answer_visitAll_function hx.pinned_eq 0 x.supply).2
  obtain ⟨k, hanswer⟩ := hanswer
  rw [Plan.outcome, Plan.run_eq, hschedule, hbody, hfunction, schedule_function,
    Body.runSchedule_visit hanswer]
  exact ⟨rfl, rfl⟩

/-- **A parameter that is written to an element of an aggregate is read back from that element**,
and from the elements that differ from it in array indices only, but not from other fields. -/
theorem readsBack_outcome (hm : m.validate = .ok ()) (hx : (Plan.of m settings).IsStack x xs)
    (hfunction : x.function = A.function) (hp : m.LeadsToScalar (.struct A.root) A.written)
    (hq : m.LeadsToScalar (.struct A.root) A.read)
    (harg : x.state.store.get? (.arg A.id A.arg) = some e) (he : e.hasError = true) :
    ((Plan.of m settings).outcome (Plan.of m settings).calls x).1.answer = .ok () ∧
      A.ReadsBack m e (((Plan.of m settings).outcome (Plan.of m settings).calls
        x).1.state.store.get? (.inst A.id ⟨4⟩)) := by
  obtain ⟨hanswer, hstate⟩ := A.outcome_eq hm hx hfunction
  -- when the activation begins nothing is known of the instructions
  have hid : x.function.id = A.id := by rw [hfunction]; rfl
  have hstore (id : InstId) : x.state.store.get? (.inst A.id id) = none :=
    hx.get?_eq_none rfl (by rintro ⟨_, ⟨⟩⟩) (by simp [Store.belongsTo, Key.owner?, hid])
  have htree : x.state.store.objects.trees.get? (.inst A.id ⟨0⟩) = none :=
    hid ▸ hx.get?_trees_eq_none ⟨0⟩
  have hrecord (hself : A.written = A.read → (e == e) = true) :
      ((Plan.of m settings).outcome (Plan.of m settings).calls x).1.state.store.get?
          (.inst A.id ⟨4⟩)
        = if m.fieldsOn (.struct A.root) A.read = m.fieldsOn (.struct A.root) A.written then some e
          else none := by
    rw [hstate, (A.visitAll_function hp hq harg he hself hx.pinned_eq hstore htree 0 x.supply).2,
      A.get?_loaded (hstore _)]
  refine ⟨hanswer, fun hpaths hself => ?_, fun hfields => ?_, fun hpaths hfields => ?_⟩
  · rw [hrecord fun _ => hself, if_pos (by rw [hpaths])]
  · rw [hrecord fun hpaths => absurd (by rw [hpaths]) hfields, if_neg hfields]
  · rw [hrecord fun h => absurd h.symm hpaths, if_pos hfields]

/-! ### An aggregate with arrays of aggregates -/

namespace Grid

/-- The annotation of the parameter. -/
noncomputable def info : ScalarInfo ℝ := ⟨⟨32, 8, true⟩, some (0, 1), some 1⟩

/-- A cell has a number and three more in an array, and a grid has two cells in an array and a
number.  A number of the last cell is written. -/
noncomputable def access (read : List Int64) : FieldAccess ℝ where
  id := ⟨0⟩
  name := "access"
  params := #[⟨"x", .float 64, some (.scalar info)⟩]
  retTy := .float 64
  maxRecursion := none
  entryPoint := false
  root := ⟨1⟩
  arg := 0
  scalar := .float 64
  written := [0, 1, 1, 2]
  read := read

/-- The module of the function. -/
noncomputable def program (read : List Int64) : Module ℝ :=
  ⟨"m", #[(access read).function], #[],
    #[⟨"cell", [.float 64, .array (.float 64) 3]⟩,
      ⟨"grid", [.array (.struct ⟨0⟩) 2, .float 64]⟩]⟩

/-- The activation from which the analysis starts. -/
noncomputable def first (read : List Int64) : Start ℝ :=
  (Plan.of (program read) {}).beginEntry (Session.start (program read) 0).1 (access read).function 0

/-- What is recorded for the load. -/
noncomputable def recorded (read : List Int64) : Option (Estimate ℝ) :=
  ((Plan.of (program read) {}).outcome (Plan.of (program read) {}).calls
    (first read)).1.state.store.get? (.inst ⟨0⟩ ⟨4⟩)

lemma isStack_first (read : List Int64) : (Plan.of (program read) {}).IsStack (first read) [] := by
  have hf : (Plan.of (program read) {}).module.function? ⟨0⟩ = some (access read).function := rfl
  exact .entry (.start 0) hf rfl

lemma get?_first (read : List Int64) :
    (first read).state.store.get? (.arg ⟨0⟩ 0) = some (Store.annotated info 0).1 := rfl

lemma validate_program (read : List Int64) : (program read).validate = .ok () := rfl

/-- A number of a cell. -/
lemma leadsToScalar_array {read : List Int64} {c d : Int64} (hc : 0 ≤ c) (hc' : c.toInt < 2)
    (hd : 0 ≤ d) (hd' : d.toInt < 3) :
    (program read).LeadsToScalar (.struct ⟨1⟩) [0, c, 1, d] :=
  .field (by decide) rfl (.element hc hc' (.field (by decide) rfl
    (.element hd hd' (.scalar trivial))))

/-- The first number of a cell. -/
lemma leadsToScalar_number {read : List Int64} {c : Int64} (hc : 0 ≤ c) (hc' : c.toInt < 2) :
    (program read).LeadsToScalar (.struct ⟨1⟩) [0, c, 0] :=
  .field (by decide) rfl (.element hc hc' (.field (by decide) rfl (.scalar trivial)))

/-- The number is read back, and so are the others in arrays, but not the first one of the cell. -/
theorem recorded_eq :
    recorded [0, 1, 1, 2] = some (Store.annotated info 0).1 ∧
      recorded [0, 1, 0] = none ∧
      recorded [0, 0, 1, 1] = some (Store.annotated info 0).1 := by
  have hwritten (read : List Int64) : (program read).LeadsToScalar (.struct ⟨1⟩) [0, 1, 1, 2] :=
    leadsToScalar_array (by decide) (by decide) (by decide) (by decide)
  have hreadsBack (read : List Int64) (hread : (program read).LeadsToScalar (.struct ⟨1⟩) read) :
      (access read).ReadsBack (program read) (Store.annotated info 0).1 (recorded read) :=
    ((access read).readsBack_outcome (validate_program read) (isStack_first read) rfl
      (hwritten read) hread (get?_first read) rfl).2
  refine ⟨(hreadsBack _ (hwritten _)).same rfl BEq.rfl,
    (hreadsBack _ (leadsToScalar_number (by decide) (by decide))).otherField ?_,
    (hreadsBack _ (leadsToScalar_array (by decide) (by decide) (by decide)
      (by decide))).otherElement ?_ ?_⟩
  · change ([0, 0] : List Int64) ≠ [0, 1]
    decide
  · decide
  · rfl

end Grid

end FieldAccess

end Roundoff
