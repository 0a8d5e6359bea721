/-
# What activations begin with

During a call the formal parameters of the callee that point to structs are bound to the paths of
the actual ones.  An actual parameter is resolved where those before it are bound already, and a
formal one whose actual one leads nowhere keeps the binding it had.

If the caller is another function than the callee, the bindings of the callee do not matter for the
actual parameters, and all formal ones are bound at once.  If a function calls itself, they are not:
two formal parameters that are handed on in each other's place end up bound to one path.

Between the analyses of functions only what is known of global variables is recorded, and only
global variables have trees.  The activation of a function from which the analysis starts begins
with that, and the activation for a call begins without what the caller knows of the callee.  So
apart from the formal parameters nothing is recorded for the function of an activation when it
begins, and no slot of it has a tree.
-/
import Mathlib
import Roundoff.Aggregate.Objects
import Roundoff.Proofs.Aggregate.Leaves
import Roundoff.Proofs.Analysis.Arguments
import Roundoff.Proofs.Analysis.Stack
import Roundoff.Proofs.Store.Edits

namespace Roundoff

section Bindings

variable {R : Type} {m : Module R} {f caller callee : Function R} {o o' : Objects R}
  {actuals : List (Value R)} {param : Param R} {actual : Value R} {n : ℕ}

@[simp] lemma FieldPath.append_nil (p : FieldPath) : p.append [] = p := by
  rw [append, List.append_nil]

namespace Objects

/-! ## Paths of actual parameters -/

/-- Walking back from a pointer of a function reads the bindings of its own formal parameters only. -/
lemma walk?_congr
    (h : ∀ index, o.bindings.get? (.arg f.id index) = o'.bindings.get? (.arg f.id index))
    (bound : ℕ) (below : List PathIndex) (pointer : Value R) :
    o.walk? m f bound below pointer = o'.walk? m f bound below pointer := by
  induction bound generalizing below pointer with
  | zero => rfl
  | succ bound ih =>
    cases pointer with
    | inst id =>
      rw [walk?, walk?]
      split <;> first | exact ih _ _ | rfl
    | arg index => rw [walk?, walk?, formalPath?, formalPath?, h index]
    | _ => rfl

lemma resolve?_congr
    (h : ∀ index, o.bindings.get? (.arg f.id index) = o'.bindings.get? (.arg f.id index))
    (pointer : Value R) : o.resolve? m f pointer = o'.resolve? m f pointer :=
  walk?_congr h _ _ pointer

/-- The path to which a call binds a formal parameter if the actual one is resolved in `o`: none if
the parameter does not point to a struct, or if the actual one leads nowhere. -/
def actualPath? (o : Objects R) (m : Module R) (caller : Function R) (param : Param R)
    (actual : Value R) : Option FieldPath :=
  if param.ty.targetStruct?.isSome then o.resolve? m caller actual else none

lemma actualPath?_congr
    (h : ∀ index, o.bindings.get? (.arg caller.id index)
      = o'.bindings.get? (.arg caller.id index)) :
    o.actualPath? m caller param actual = o'.actualPath? m caller param actual := by
  rw [actualPath?, actualPath?, resolve?_congr h]

/-! ## One binding after the other -/

/-- A parameter of a call is bound to the path of the actual one, and stays as it was if there is
none.  All other bindings stay. -/
lemma get?_bindArgument (k : Key) :
    (bindArgument m caller callee o (n, param, actual)).bindings.get? k
      = if k = .arg callee.id (UInt32.ofNat n) then
          (o.actualPath? m caller param actual).or (o.bindings.get? k)
        else o.bindings.get? k := by
  rw [bindArgument, actualPath?]
  cases htarget : param.ty.targetStruct? with
  | none => simp
  | some ty =>
    cases hpath : o.resolve? m caller actual with
    | none => simp
    | some path =>
      by_cases hk : k = .arg callee.id (UInt32.ofNat n)
      · simp [hk, Table.get?_insert]
      · simp [hk, Table.get?_insert, Ne.symm hk]

/-- Bindings of parameters that are not among those of a call stay. -/
lemma get?_foldl_bindArgument {k : Key} {ps : List (ℕ × Param R × Value R)}
    (h : ∀ p ∈ ps, k ≠ .arg callee.id (UInt32.ofNat p.1)) :
    (ps.foldl (bindArgument m caller callee) o).bindings.get? k = o.bindings.get? k := by
  induction ps generalizing o with
  | nil => rfl
  | cons p ps ih =>
    rw [List.foldl_cons, ih fun q hq => h q (List.mem_cons_of_mem _ hq), get?_bindArgument,
      if_neg (h p (List.mem_cons_self ..))]

lemma bindArguments_eq (o : Objects R) (m : Module R) (caller callee : Function R)
    (actuals : List (Value R)) :
    o.bindArguments m caller callee actuals
      = ((callee.params.toList.zip actuals).zipIdx.map fun p => (p.2, p.1)).foldl
          (bindArgument m caller callee) o := rfl

lemma zip_take {α β : Type} (as : List α) (bs : List β) (n : ℕ) :
    as.zip (bs.take n) = (as.zip bs).take n := by
  induction as generalizing bs n with
  | nil => simp
  | cons a as ih => cases bs <;> cases n <;> simp [ih]

/-- What is bound does not depend on the trees. -/
lemma bindings_bindArguments_congr (h : o.bindings = o'.bindings) :
    (o.bindArguments m caller callee actuals).bindings
      = (o'.bindArguments m caller callee actuals).bindings := by
  rw [bindArguments_eq, bindArguments_eq]
  generalize (callee.params.toList.zip actuals).zipIdx.map _ = ps
  induction ps generalizing o o' with
  | nil => exact h
  | cons p ps ih =>
    have hresolve : o.resolve? m caller p.2.2 = o'.resolve? m caller p.2.2 :=
      resolve?_congr (fun index => by rw [h]) _
    rw [List.foldl_cons, List.foldl_cons]
    refine ih ?_
    rw [bindArgument, bindArgument, hresolve]
    split
    · exact h
    · cases o'.resolve? m caller p.2.2 <;> simp [h]

/-- A call binds formal parameters of the callee only. -/
lemma get?_bindArguments_of_ne {k : Key} (h : ∀ index, k ≠ .arg callee.id index) :
    (o.bindArguments m caller callee actuals).bindings.get? k = o.bindings.get? k :=
  get?_foldl_bindArgument fun _ _ => h _

/-- **A formal parameter is bound to the path of the actual one in the data in which the parameters
before it are bound**, and keeps the binding that it had if the actual one leads nowhere there. -/
theorem get?_bindArguments (hsize : callee.params.size ≤ UInt32.size)
    (hparam : callee.params[n]? = some param) (hactual : actuals[n]? = some actual) :
    (o.bindArguments m caller callee actuals).bindings.get? (.arg callee.id (UInt32.ofNat n))
      = ((o.bindArguments m caller callee (actuals.take n)).actualPath? m caller param actual).or
          (o.bindings.get? (.arg callee.id (UInt32.ofNat n))) := by
  have hn : n < callee.params.size := (Array.getElem?_eq_some_iff.1 hparam).1
  have hget : (callee.params.toList.zip actuals)[n]? = some (param, actual) :=
    List.getElem?_zip_eq_some.2 ⟨by rwa [Array.getElem?_toList], hactual⟩
  have hlength : (callee.params.toList.zip actuals).length ≤ callee.params.size := by
    rw [List.length_zip, Array.length_toList]
    exact Nat.min_le_left _ _
  -- the parameters before and after this one have other keys
  have hother (ps : List ((Param R × Value R) × ℕ))
      (hps : ∀ p ∈ ps, p.2 ≠ n ∧ p.2 < (callee.params.toList.zip actuals).length)
      (p : ℕ × Param R × Value R) (hp : p ∈ ps.map fun p => (p.2, p.1)) :
      Key.arg callee.id (UInt32.ofNat n) ≠ .arg callee.id (UInt32.ofNat p.1) := by
    obtain ⟨q, hq, rfl⟩ := List.mem_map.1 hp
    intro hkey
    exact (hps q hq).1 (Store.eq_of_key_eq hsize hn ((hps q hq).2.trans_le hlength) hkey).symm
  rw [bindArguments_eq, zipIdx_eq_of_getElem? hget, List.map_append, List.map_cons,
    List.foldl_append, List.foldl_cons,
    get?_foldl_bindArgument (hother _ fun _ => ne_of_mem_zipIdx_drop), get?_bindArgument,
    if_pos rfl, get?_foldl_bindArgument (hother _ fun _ =>
      ne_of_mem_zipIdx_take (List.getElem?_eq_some_iff.1 hget).1), bindArguments_eq, zip_take]

/-- **If the caller is not the callee, all formal parameters are bound at once**: each to the path
of the actual one in the data as they were before the call. -/
theorem get?_bindArguments_of_id_ne (hid : caller.id ≠ callee.id)
    (hsize : callee.params.size ≤ UInt32.size) (hparam : callee.params[n]? = some param)
    (hactual : actuals[n]? = some actual) :
    (o.bindArguments m caller callee actuals).bindings.get? (.arg callee.id (UInt32.ofNat n))
      = (o.actualPath? m caller param actual).or
          (o.bindings.get? (.arg callee.id (UInt32.ofNat n))) := by
  rw [get?_bindArguments hsize hparam hactual]
  congr 1
  refine actualPath?_congr fun index => get?_bindArguments_of_ne fun index' h => hid ?_
  exact (Key.arg.inj h).1

/-! ## A function that calls itself -/

/-- A formal parameter leads to its path. -/
lemma resolve?_arg {index : UInt32} : o.resolve? m f (.arg index) = o.formalPath? f index := by
  rw [resolve?, walk?]
  simp

lemma formalPath?_of_get? {index : UInt32} {path : FieldPath}
    (h : o.bindings.get? (.arg f.id index) = some path) : o.formalPath? f index = some path := by
  rw [formalPath?, h]

/-- **Two formal parameters that a function hands on to itself in each other's place end up bound to
one path**, the one that the second parameter had, whatever the path of the first one was. -/
theorem get?_bindArguments_swap {p q : Param R} (hparams : f.params = #[p, q])
    (hp : p.ty.targetStruct?.isSome) (hq : q.ty.targetStruct?.isSome) {path : FieldPath}
    (hpath : o.formalPath? f 1 = some path) :
    (o.bindArguments m f f [.arg 1, .arg 0]).bindings.get? (.arg f.id 0) = some path ∧
      (o.bindArguments m f f [.arg 1, .arg 0]).bindings.get? (.arg f.id 1) = some path := by
  have heq : o.bindArguments m f f [.arg 1, .arg 0]
      = bindArgument m f f (bindArgument m f f o (0, p, .arg 1)) (1, q, .arg 0) := by
    rw [bindArguments_eq, hparams]
    rfl
  have hfirst : (bindArgument m f f o (0, p, .arg 1)).bindings.get? (.arg f.id 0) = some path := by
    rw [get?_bindArgument, actualPath?, if_pos hp, resolve?_arg, hpath]
    simp
  constructor
  · rw [heq, get?_bindArgument, if_neg (by simp), hfirst]
  · -- the second parameter is resolved where the first one is bound already
    rw [heq, get?_bindArgument, actualPath?, if_pos hq, resolve?_arg, formalPath?_of_get? hfirst]
    simp

end Objects

/-! ## Calls -/

namespace Store

variable [Number R] {s : Store R} {args : List (Value R)}

/-- Setting up an annotated value changes at most the tree of that value. -/
lemma ensures_seedValue_objects (m : Module R) (s : Store R) (k : Key) (ty : Option StructId)
    (info : Option (ValueInfo R)) :
    (s.seedValue m k ty info).Ensures fun s' => s.KeepsObjects {k} s' := by
  unfold seedValue
  split
  · exact Fresh.ensures_pure (.of_eq rfl)
  · next info =>
    have h : (annotated info).Ensures fun _ => True :=
      info.ensures_error?.andThen fun _ => Fresh.ensures_pure trivial
    exact h.andThen fun e => Fresh.ensures_pure (.of_eq (objects_set s k e))
  · split
    · exact Fresh.ensures_pure (.of_eq rfl)
    · next infos _ ty =>
      refine (s.objects.ensures_seed_insert m k ty infos).bind fun o ho => Fresh.ensures_pure ?_
      obtain ⟨tree, rfl⟩ := ho
      exact .of_insert k tree

/-- Setting up the formal parameters of a function changes at most their trees. -/
lemma ensures_seedArguments_objects (m : Module R) (s : Store R) (f : Function R) :
    (s.seedArguments m f).Ensures fun s' => s.KeepsObjects (formals f) s' := by
  rw [seedArguments]
  refine Fresh.ensures_foldlM (fun s' pn _ hs' => ?_) (.of_eq rfl)
  refine (ensures_seedValue_objects m s' _ _ _).mono fun s'' hs'' => hs'.trans (hs''.mono ?_)
  exact Set.singleton_subset_iff.2 ⟨_, rfl⟩

/-- What is recorded for the arguments of a call does not concern the objects. -/
lemma objects_applyArguments (s source : Store R) (caller : FunctionId) (callee : Function R)
    (args : List (Value R)) : (s.applyArguments source caller callee args).objects = s.objects := by
  rw [applyArguments_eq]
  generalize (args.take callee.params.size).zipIdx = vns
  induction vns generalizing s with
  | nil => rfl
  | cons vn vns ih =>
    rw [List.foldl_cons, ih, applyArgument]
    split
    · rfl
    · exact objects_set ..

/-- **The activation for a call starts with the bindings that the arguments make in those of the
caller**, and its slots have no trees. -/
theorem ensures_atCall_objects (m : Module R) (s : Store R) :
    (s.atCall m caller callee args).Ensures fun start =>
      start.objects.bindings = (s.objects.bindArguments m caller callee args).bindings ∧
        ∀ id, start.objects.trees.get? (.inst callee.id id) = none := by
  unfold atCall
  refine (ensures_seedArguments_objects m _ callee).bind fun start hstart => Fresh.ensures_pure ?_
  have hobjects := objects_applyArguments start s caller.id callee args
  refine ⟨Objects.bindings_bindArguments_congr ?_, fun id => ?_⟩
  · rw [hobjects, hstart.bindings_eq]
    rfl
  · rw [Objects.trees_bindArguments, hobjects, hstart.get?_eq _ (by rintro ⟨n, ⟨⟩⟩)]
    exact (Table.get?_filterKeys _ _ _).trans (if_neg (by simp [Key.owner?]))

end Store

end Bindings

section Beginnings

variable {R : Type} [Number R]

/-! ## What is recorded when an activation begins -/

namespace Store

/-- Setting up global variables sets estimates for them only. -/
lemma ensures_seedGlobals_writes (m : Module R) (s : Store R) :
    (s.seedGlobals m).Ensures fun s' => s.Writes {k | k.isGlobal = true} s' := by
  rw [seedGlobals]
  refine Fresh.ensures_foldlM (fun s' g _ hs' => ?_) (.refl _ s)
  exact (ensures_seedValue m s' _ _ _).mono fun s'' hs'' =>
    hs'.trans (hs''.1.mono (Set.singleton_subset_iff.2 rfl))

/-- Setting up global variables changes their trees only. -/
lemma ensures_seedGlobals_objects (m : Module R) (s : Store R) :
    (s.seedGlobals m).Ensures fun s' => s.KeepsObjects {k | k.isGlobal = true} s' := by
  rw [seedGlobals]
  refine Fresh.ensures_foldlM (fun s' g _ hs' => ?_) (.of_eq rfl)
  exact (ensures_seedValue_objects m s' _ _ _).mono fun s'' hs'' =>
    hs'.trans (hs''.mono (Set.singleton_subset_iff.2 rfl))

omit [Number R] in
/-- Taking over what is known of global variables changes their trees only. -/
lemma get?_trees_mergeGlobals (s other : Store R) {k : Key} (hk : k.isGlobal = false) :
    (s.mergeGlobals other).objects.trees.get? k = s.objects.trees.get? k := by
  refine Table.get?_update_of_notMem fun q hq hkey => ?_
  have hglobal : q.1.isGlobal = true := (List.mem_filter.1 hq).2
  rw [hkey, hk] at hglobal
  cases hglobal

end Store

namespace Plan

variable {p : Plan R} {s : Session R} {n : Symbol} {x : Start R} {xs : List (Start R)} {k : Key}

/-- Between the analyses of functions only what is known of global variables is recorded. -/
lemma Between.get?_eq_none (hs : p.Between s n) (hk : k.isGlobal = false) :
    s.globals.get? k = none ∧ s.globals.objects.trees.get? k = none := by
  have hkey : k ∉ {k : Key | k.isGlobal = true} := by simp [hk]
  induction hs with
  | start n =>
    have hseed := Store.ensures_seedGlobals_writes p.module (.forModule p.module) n
    have hobjects := Store.ensures_seedGlobals_objects p.module (.forModule p.module) n
    exact ⟨hseed.2.get?_eq hkey, hobjects.2.get?_eq k hkey⟩
  | @next s n hs id ih =>
    rw [analyse]
    cases p.module.function? id with
    | none => exact ih
    | some g =>
      dsimp only
      split
      · exact ih
      · rw [analyseFunction_eq]
        dsimp only
        split
        · exact ih
        · exact ⟨((s.globals.writes_mergeGlobals _).get?_eq hkey).trans ih.1,
            (Store.get?_trees_mergeGlobals _ _ hk).trans ih.2⟩

/-- An activation begins with nothing recorded for its function and the instructions of it. -/
lemma IsStack.get?_eq_none (hx : p.IsStack x xs) (hk : k.isGlobal = false)
    (hformal : k ∉ Store.formals x.function) (hown : Store.belongsTo x.function.id k = true) :
    x.state.store.get? k = none := by
  cases hx with
  | @entry s n id f hs hf hbody =>
    have hseed := Store.ensures_seedArguments p.module s.globals f n
    exact (hseed.2.get?_eq hformal).trans (hs.get?_eq_none hk).1
  | @call x xs c hx hc hfollowed =>
    have hstart : Fresh.EnsuresFrom c.supply
        (c.store.atCall p.module c.caller c.callee c.args) fun start =>
          (c.store.eraseFunction c.callee).Writes (Store.formals c.callee) start :=
      Store.ensures_atCall p.module c.store c.supply
    refine (hstart.2.get?_eq hformal).trans ?_
    rw [Store.get?_eraseFunction]
    exact if_pos hown

/-- No slot of its function has a tree. -/
lemma IsStack.get?_trees_eq_none (hx : p.IsStack x xs) (id : InstId) :
    x.state.store.objects.trees.get? (.inst x.function.id id) = none := by
  cases hx with
  | @entry s n id' f hs hf hbody =>
    have hseed := Store.ensures_seedArguments_objects p.module s.globals f n
    exact (hseed.2.get?_eq _ (by rintro ⟨_, ⟨⟩⟩)).trans (hs.get?_eq_none rfl).2
  | @call x xs c hx hc hfollowed =>
    have hstart : Fresh.EnsuresFrom c.supply
        (c.store.atCall p.module c.caller c.callee c.args) fun start =>
          start.objects.bindings
              = (c.store.objects.bindArguments p.module c.caller c.callee c.args).bindings ∧
            ∀ id, start.objects.trees.get? (.inst c.callee.id id) = none :=
      Store.ensures_atCall_objects p.module c.store c.supply
    exact hstart.2.2 id

end Plan

end Beginnings

end Roundoff
