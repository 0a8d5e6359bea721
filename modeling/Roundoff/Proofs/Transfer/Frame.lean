/-
# What a visit leaves alone

An instruction that calls no function with a body and reserves no stack slot is *local*: its visit
meets no fault, settles nothing, and sets estimates only for the keys that the instruction
writes.  These are its own key, for a store the formal parameter that it writes through, and for a
return the result of the function.

There is one lemma for each rule, and the main results are `visit_frame` and `visitAll_frame`.
-/
import Mathlib
import Roundoff.Proofs.Store.Edits
import Roundoff.Proofs.Transfer.Computation
import Roundoff.Transfer.Step

namespace Roundoff

variable {R α β σ : Type}

/-! ## States -/

/-- Nothing has been settled, and estimates have been set for the given keys only. -/
structure Activation.Frame (a a' : Activation R) (ks : Set Key) : Prop where
  /-- The settled instructions. -/
  pinned_eq : a'.pinned = a.pinned
  /-- The estimates. -/
  writes : a.store.Writes ks a'.store

namespace Activation.Frame

variable {a a' a'' : Activation R} {ks ks' : Set Key}

lemma refl (a : Activation R) (ks : Set Key) : a.Frame a ks := ⟨rfl, .refl ks a.store⟩

lemma trans (h : a.Frame a' ks) (h' : a'.Frame a'' ks) : a.Frame a'' ks where
  pinned_eq := h'.pinned_eq.trans h.pinned_eq
  writes := h.writes.trans h'.writes

lemma mono (h : a.Frame a' ks) (hks : ks ⊆ ks') : a.Frame a' ks' :=
  ⟨h.pinned_eq, h.writes.mono hks⟩

end Activation.Frame

/-- Estimates have been set for the given keys, and that is all. -/
structure Activation.Estimates (a a' : Activation R) (ks : Set Key) : Prop extends
    a.Frame a' ks where
  /-- There are no new verdicts. -/
  verdicts_eq : a'.verdicts = a.verdicts

/-- The operands that an operation compares. -/
def Operation.compared? : Operation R → Option (Value R × Value R)
  | .icmp _ lhs rhs | .fcmp _ lhs rhs => some (lhs, rhs)
  | _ => none

namespace Body

/-- The keys for which the visit of an instruction may set estimates. -/
def written (b : Body R) (i : Instruction R) : Set Key :=
  match i.op with
  | .store _ ptr => {k | k = b.key i ∨ ∃ n, b.function.formalOf? ptr = some n ∧
      k = .arg b.function.id n}
  | .ret _ => {b.key i, .function b.function.id}
  | _ => {b.key i}

/-- An instruction that calls no function with a body and reserves no stack slot. -/
def IsLocal (b : Body R) (i : Instruction R) : Prop :=
  match i.op with
  | .alloca _ => False
  | .call callee args | .invoke callee args _ _ => (b.routine? callee).isSome ∧ args ≠ []
  | _ => True

lemma key_mem_written (b : Body R) (i : Instruction R) : b.key i ∈ b.written i := by
  unfold written
  split
  · exact Or.inl rfl
  · exact Set.mem_insert _ _
  · exact Set.mem_singleton _

/-- A visit meets no fault, and sets estimates for the given keys only. -/
structure IsFramed (a : Activation R) (ks : Set Key) (o : Outcome R σ α) : Prop where
  /-- There is no fault. -/
  answer_eq : ∃ x, o.answer = .ok x
  /-- Only estimates of the keys have been set. -/
  frame : a.Frame o.state ks

/-- A visit meets no fault and gives no verdict, and sets estimates for the given keys only. -/
structure IsEstimated (a : Activation R) (ks : Set Key) (o : Outcome R σ α) : Prop extends
    IsFramed a ks o where
  /-- There are no new verdicts. -/
  verdicts_eq : o.state.verdicts = a.verdicts

variable {a : Activation R} {world : σ} {ks : Set Key} {rule : Attempt (Activation R)}

lemma attempt_frame (hrule : rule.Ensures fun a' => a.Frame a' ks) :
    (attempt a world rule).Ensures (IsFramed a ks) := by
  refine Fresh.Ensures.bind hrule fun o ho => ?_
  cases o with
  | none => exact Fresh.ensures_pure ⟨⟨_, rfl⟩, .refl a ks⟩
  | some a' => exact Fresh.ensures_pure ⟨⟨_, rfl⟩, ho a' rfl⟩

lemma attempt_estimates (hrule : rule.Ensures fun a' => a.Estimates a' ks) :
    (attempt a world rule).Ensures (IsEstimated a ks) := by
  refine Fresh.Ensures.bind hrule fun o ho => ?_
  cases o with
  | none => exact Fresh.ensures_pure ⟨⟨⟨_, rfl⟩, .refl a ks⟩, rfl⟩
  | some a' => exact Fresh.ensures_pure ⟨⟨⟨_, rfl⟩, (ho a' rfl).toFrame⟩, (ho a' rfl).verdicts_eq⟩

end Body

variable [Number R]

/-! ## Errors -/

lemma Affine.ensures_addNoise (f : Affine R) (m : R) : (f.addNoise m).Ensures fun _ => True := by
  intro n
  rw [addNoise]
  split
  · exact ⟨Nat.le_succ n, trivial⟩
  · exact ⟨le_rfl, trivial⟩

lemma Affine.ensures_withError (c m : R) : (withError c m).Ensures fun _ => True :=
  ensures_addNoise _ m

lemma Affine.ensures_mul (f g : Affine R) : (f.mul g).Ensures fun _ => True :=
  ensures_addNoise _ _

lemma Range.ensures_toAffine (r : Range R) : r.toAffine.Ensures fun _ => True :=
  Affine.ensures_withError _ _

lemma ensures_mulError (r₁ r₂ : Range R) (e₁ e₂ : Affine R) :
    (mulError r₁ e₁ r₂ e₂).Ensures fun _ => True :=
  r₁.ensures_toAffine.andThen fun a₁ => r₂.ensures_toAffine.andThen fun a₂ =>
    (a₁.ensures_mul e₂).andThen fun _ => (a₂.ensures_mul e₁).andThen fun _ =>
      (e₁.ensures_mul e₂).andThen fun _ => Fresh.ensures_pure trivial

lemma Elementary.ensures_errorOf (f : Elementary) (r : Range R) (e : Affine R) :
    (f.errorOf r e).Ensures fun _ => True := by
  unfold errorOf
  dsimp only
  split
  · exact Fresh.ensures_pure trivial
  · exact (Affine.ensures_addNoise _ _).andThen fun _ => Fresh.ensures_pure trivial

lemma ensures_divError (r₁ r₂ : Range R) (e₁ e₂ : Affine R) :
    (divError r₁ e₁ r₂ e₂).Ensures fun _ => True := by
  unfold divError
  split
  · next inverse _ =>
    refine (Attempt.ensures_mk (Elementary.ensures_errorOf _ _ _)).andThen fun inverseError => ?_
    exact (Attempt.ensures_lift r₁.ensures_toAffine).andThen fun a =>
      (Attempt.ensures_lift inverse.ensures_toAffine).andThen fun a' =>
        (Attempt.ensures_lift (a.ensures_mul inverseError)).andThen fun _ =>
          (Attempt.ensures_lift (a'.ensures_mul e₁)).andThen fun _ =>
            (Attempt.ensures_lift (e₁.ensures_mul inverseError)).andThen fun _ =>
              Attempt.ensures_pure trivial
  · exact Attempt.ensures_failure

lemma ensures_addRounding (e : Affine R) (rounding : R) :
    (addRounding e rounding).Ensures fun _ => True :=
  (Affine.ensures_withError 0 rounding).andThen fun _ => Fresh.ensures_pure trivial

/-! ## Annotations -/

lemma ScalarInfo.ensures_error? (info : ScalarInfo R) : info.error?.Ensures fun _ => True := by
  rw [ScalarInfo.error?]
  cases info.initialError with
  | none => exact Fresh.ensures_pure trivial
  | some m => exact (Affine.ensures_withError 0 m).andThen fun _ => Fresh.ensures_pure trivial

mutual

lemma Tree.ensures_seedField (m : Module R) (ty : StructId) (parent : NodeId) (field : ℕ)
    (t : Tree R) : ∀ info : ValueInfo R,
      (Tree.seedField m ty parent field t info).Ensures fun _ => True
  | .scalar info => by
    rw [Tree.seedField]
    split
    · exact Fresh.ensures_pure trivial
    · exact (info.ensures_error?.andThen fun _ => Fresh.ensures_pure (P := fun _ => True)
        trivial).andThen fun _ => Fresh.ensures_pure trivial
  | .struct infos => by
    rw [Tree.seedField]
    split
    · split
      · exact Tree.ensures_seedFields m _ _ 0 _ infos
      · exact Fresh.ensures_pure trivial
    · exact Fresh.ensures_pure trivial

lemma Tree.ensures_seedFields (m : Module R) (ty : StructId) (parent : NodeId) (field : ℕ)
    (t : Tree R) : ∀ infos : List (Option (ValueInfo R)),
      (Tree.seedFields m ty parent field t infos).Ensures fun _ => True
  | [] => by
    rw [Tree.seedFields]
    exact Fresh.ensures_pure trivial
  | none :: infos => by
    rw [Tree.seedFields]
    exact Tree.ensures_seedFields m ty parent _ t infos
  | some info :: infos => by
    rw [Tree.seedFields]
    exact (Tree.ensures_seedField m ty parent field t info).andThen fun t' =>
      Tree.ensures_seedFields m ty parent _ t' infos

end

/-- Setting up an aggregate replaces its tree. -/
lemma Objects.ensures_seed_insert (o : Objects R) (m : Module R) (root : Key) (ty : StructId)
    (infos : List (Option (ValueInfo R))) :
    (o.seed m root ty infos).Ensures fun o' =>
      ∃ tree, o' = { o with trees := o.trees.insert root tree } :=
  (Tree.ensures_seedFields m ty 0 0 (Tree.new m ty) infos).andThen fun tree =>
    Fresh.ensures_pure ⟨tree, rfl⟩

lemma Objects.ensures_seed (o : Objects R) (m : Module R) (root : Key) (ty : StructId)
    (infos : List (Option (ValueInfo R))) : (o.seed m root ty infos).Ensures fun _ => True :=
  (o.ensures_seed_insert m root ty infos).mono fun _ _ => trivial

namespace Body

variable {b : Body R} {a : Activation R} {i : Instruction R} {h : CallHandler R σ}
  {edges : PhiEdges} {world : σ} {rule : Attempt (Activation R)}

lemma write_estimates (a : Activation R) (i : Instruction R) (g : Affine R) :
    a.Estimates (b.write a i g) {b.key i} where
  pinned_eq := rfl
  writes := a.store.writes_setError _ g
  verdicts_eq := rfl

lemma writeEstimate_estimates (a : Activation R) (i : Instruction R) (e : Estimate R) :
    a.Estimates (b.writeEstimate a i e) {b.key i} where
  pinned_eq := rfl
  writes := a.store.writes_set _ e
  verdicts_eq := rfl

/-- An estimate has been set for the result of an instruction, and that is all. -/
def SetsResult (b : Body R) (i : Instruction R) (a a' : Activation R) : Prop :=
  ∃ e, a' = b.writeEstimate a i e

/-- To set the error of the result is to set an estimate. -/
lemma write_setsResult (a : Activation R) (i : Instruction R) (g : Affine R) :
    b.SetsResult i a (b.write a i g) :=
  ⟨{ (a.store.get? (b.key i)).getD Estimate.unknown with error := some g }, rfl⟩

lemma writeEstimate_setsResult (a : Activation R) (i : Instruction R) (e : Estimate R) :
    b.SetsResult i a (b.writeEstimate a i e) := ⟨e, rfl⟩

lemma SetsResult.estimates {a' : Activation R} (h : b.SetsResult i a a') :
    a.Estimates a' {b.key i} := by
  obtain ⟨e, rfl⟩ := h
  exact writeEstimate_estimates a i e

/-! ## Rules -/

lemma ensures_operand (s : Store R) (v : Value R) (format : Option Format) :
    (b.operand s v format).Ensures fun _ => True := by
  cases v with
  | constInt raw =>
    cases format with
    | none => exact Attempt.ensures_failure
    | some f =>
      exact (Attempt.ensures_lift (Affine.ensures_withError 0 _)).andThen fun _ =>
        Attempt.ensures_pure trivial
  | _ => exact Fresh.ensures_pure fun _ _ => trivial

lemma ensures_operandsWithData (s : Store R) (format : Option Format) (vs : List (Value R)) :
    (b.operandsWithData s format vs).Ensures fun _ => True := by
  induction vs with
  | nil => exact Fresh.ensures_pure trivial
  | cons v vs ih =>
    exact Fresh.Ensures.bind (ensures_operand s v format) fun o _ => ih.andThen fun _ =>
      Fresh.ensures_pure trivial

lemma ensures_binaryError (s : Store R) (op : BinaryOp) (lhs rhs : Value R)
    (result : Option (Range R)) : (b.binaryError s op lhs rhs result).Ensures fun _ => True := by
  refine (ensures_operand s lhs _).andThen fun x => ?_
  have hsecond := ensures_operand (b := b) s rhs (result.map Range.format)
  cases op with
  | add | fadd | sub | fsub => exact hsecond.andThen fun y => Attempt.ensures_pure trivial
  | mul | fmul =>
    exact hsecond.andThen fun y => Attempt.ensures_lift (ensures_mulError _ _ _ _)
  | fdiv => exact hsecond.andThen fun y => ensures_divError _ _ _ _
  | sdiv | udiv =>
    exact hsecond.andThen fun y => (ensures_divError _ _ _ _).andThen fun e =>
      Attempt.ensures_lift (ensures_addRounding e _)
  | shl => exact Attempt.ensures_pure trivial
  | lshr | ashr =>
    cases result with
    | none => exact Attempt.ensures_failure
    | some range => exact Attempt.ensures_lift (ensures_addRounding _ _)
  | srem | urem | frem | and | or | xor => exact Attempt.ensures_failure

lemma binary_setsResult (op : BinaryOp) (lhs rhs : Value R) :
    (b.binary a i op lhs rhs).Ensures (b.SetsResult i a) :=
  (ensures_binaryError _ _ _ _ _).andThen fun _ => Attempt.ensures_pure (write_setsResult a i _)

lemma cast_setsResult (op : CastOp) (v : Value R) :
    (b.cast a i op v).Ensures (b.SetsResult i a) := by
  unfold cast
  refine (ensures_operand _ _ _).andThen fun x => ?_
  cases b.resultRange? a.store i with
  | some r =>
    dsimp only
    split
    · exact (Attempt.ensures_lift (ensures_addRounding _ _)).andThen fun _ =>
        Attempt.ensures_pure (write_setsResult a i _)
    · exact (Attempt.ensures_pure trivial).andThen fun _ =>
        Attempt.ensures_pure (write_setsResult a i _)
  | none =>
    dsimp only
    split
    · exact (Attempt.ensures_lift (ensures_addRounding _ _)).andThen fun _ =>
        Attempt.ensures_pure (writeEstimate_setsResult a i _)
    · exact (Attempt.ensures_pure trivial).andThen fun _ =>
        Attempt.ensures_pure (writeEstimate_setsResult a i _)

lemma comparison_frame (lhs rhs : Value R) :
    (b.comparison a i lhs rhs).Ensures fun a' => a.Frame a' {b.key i} :=
  (Attempt.ensures_both (ensures_operand _ _ _) (ensures_operand _ _ _)).andThen fun _ =>
    Attempt.ensures_pure ⟨rfl, .same rfl⟩

lemma select_setsResult (ifTrue ifFalse : Value R) :
    (b.select a i ifTrue ifFalse).Ensures (b.SetsResult i a) :=
  (Attempt.ensures_both (ensures_operand _ _ _) (ensures_operand _ _ _)).andThen fun _ =>
    (Attempt.ensures_lift (Affine.ensures_withError 0 _)).andThen fun _ =>
      Attempt.ensures_pure (write_setsResult a i _)

lemma phi_setsResult (incoming : List (Value R × BlockId)) :
    (b.phi a i edges incoming).Ensures (b.SetsResult i a) := by
  unfold phi
  refine (Attempt.ensures_lift (ensures_operandsWithData _ _ _)).andThen fun os => ?_
  dsimp only
  split
  · exact (Attempt.ensures_lift (Affine.ensures_withError 0 _)).andThen fun _ =>
      Attempt.ensures_pure (writeEstimate_setsResult a i _)
  · exact Attempt.ensures_failure

lemma ensures_loadedEstimate (own : Option (Range R)) (es : List (Estimate R)) :
    (loadedEstimate own es).Ensures fun _ => True := by
  have hown (range : Range R) (x : R) : Attempt.Ensures (do
      let error ← Affine.withError 0 x
      return (⟨range, some error⟩ : Estimate R)) fun _ => True :=
    (Attempt.ensures_lift (Affine.ensures_withError 0 _)).andThen fun _ =>
      Attempt.ensures_pure trivial
  match es, own with
  | [_], _ => exact Attempt.ensures_pure trivial
  | [], none | _ :: _ :: _, none => exact Attempt.ensures_failure
  | [], some range => exact hown range range.roundingError
  | _ :: _ :: _, some range => exact hown range _

lemma load_setsResult (ptr : Value R) : (b.load a i ptr).Ensures (b.SetsResult i a) :=
  (ensures_loadedEstimate _ _).andThen fun _ =>
    Attempt.ensures_pure (writeEstimate_setsResult a i _)

lemma element_setsResult (base : Value R) : (b.element a i base).Ensures (b.SetsResult i a) := by
  unfold element
  cases b.record? a.store base with
  | none => exact Attempt.ensures_failure
  | some e => exact Attempt.ensures_pure (writeEstimate_setsResult a i e)

lemma libraryCall_estimates (f : Elementary) (arg : Value R) :
    (b.libraryCall a i f arg).Ensures fun a' => a.Estimates a' {b.key i} := by
  unfold libraryCall
  refine (ensures_operand _ _ _).andThen fun x =>
    (Attempt.ensures_mk (f.ensures_errorOf _ _)).andThen fun linear =>
      (Attempt.ensures_lift (ensures_addRounding _ _)).andThen fun error => ?_
  split
  · exact Attempt.ensures_pure (writeEstimate_estimates a i _)
  · exact Attempt.ensures_pure (write_estimates a i _)

/-- A store sets an estimate for itself, and for the formal parameter that it writes through. -/
lemma writes_stored (s : Store R) (k : Key) (e : Estimate R) (f : FunctionId)
    (formal : Option UInt32) :
    s.Writes {l | l = k ∨ ∃ n, formal = some n ∧ l = .arg f n}
      (match formal with
      | some n => ((s.set k e).raise (.arg f n) e).2
      | none => s.set k e) := by
  have hset (p : Key → Prop) : s.Writes {l | l = k ∨ p l} (s.set k e) :=
    (s.writes_set k e).mono fun _ hl => Or.inl hl
  cases formal with
  | none => exact hset _
  | some n =>
    refine (hset _).trans (((s.set k e).writes_raise (.arg f n) e).mono ?_)
    exact Set.singleton_subset_iff.2 (Or.inr ⟨n, rfl, rfl⟩)

lemma store_estimates (value ptr : Value R) :
    (b.store a i value ptr).Ensures fun a' => a.Estimates a' {k | k = b.key i ∨
      ∃ n, b.function.formalOf? ptr = some n ∧ k = .arg b.function.id n} := by
  have hstored : (b.storedEstimate a.store value ptr).Ensures fun _ => True :=
    Attempt.ensures_orElse
      ((ensures_operand a.store value _).andThen fun _ => Attempt.ensures_pure trivial)
      (Fresh.ensures_pure fun _ _ => trivial)
  refine hstored.andThen fun e => Attempt.ensures_pure ⟨⟨rfl, ?_⟩, rfl⟩
  exact (writes_stored a.store (b.key i) e b.function.id (b.function.formalOf? ptr)).trans
    (.same rfl)

/-- **What a return leaves behind**: the error of the operand is recorded for the instruction, and
over a new symbol for the function if it is larger than the worst one so far. -/
lemma attains_ret {value : Option (Value R)} {n : Symbol} {P : Operand R → Symbol → Prop}
    {Q : Activation R → Symbol → Prop}
    (hread : ∀ v, value = some v → Attempt.Attains n (b.operand a.store v none) P)
    (hwrite : ∀ o n', n ≤ n' → P o n' → Q (b.write a i o.error) n')
    (hraise : ∀ o n', n ≤ n' → P o n' →
      (∀ old, a.store.error? (.function b.function.id) = some old → old.noiseBound < o.absError) →
        Fresh.Attains n' o.error.flatten fun error =>
          Q { b.write a i o.error with
            store :=
              (b.write a i o.error).store.set (.function b.function.id) ⟨o.range, some error⟩ }) :
    Attempt.Attains n (b.ret a i value) Q := by
  cases value with
  | none => exact Attempt.attains_failure
  | some v =>
    refine (hread v rfl).bind fun o n' hn ho => ?_
    have hbranch (larger : Bool) (hlarger : larger = true → ∀ old,
        a.store.error? (.function b.function.id) = some old → old.noiseBound < o.absError) :
        Attempt.Attains n' (if larger then do
            let error ← o.error.flatten
            return { b.write a i o.error with
              store :=
                (b.write a i o.error).store.set (.function b.function.id) ⟨o.range, some error⟩ }
          else return b.write a i o.error) Q := by
      cases larger with
      | false => exact Attempt.attains_pure (hwrite o n' hn ho)
      | true =>
        exact (Attempt.attains_lift (hraise o n' hn ho (hlarger rfl))).bind fun _ _ _ h =>
          Attempt.attains_pure h
    refine hbranch _ fun hlarger old hold => ?_
    have hold' : (b.write a i o.error).store.error? (.function b.function.id) = some old := by
      rw [write, Store.error?_setError, if_neg (by rintro ⟨⟩)]
      exact hold
    rw [hold'] at hlarger
    exact of_decide_eq_true hlarger

lemma ret_estimates (value : Option (Value R)) :
    (b.ret a i value).Ensures fun a' => a.Estimates a' {b.key i, .function b.function.id} := by
  intro n
  have hwrite (o : Operand R) : a.Frame (b.write a i o.error) _ :=
    (write_estimates (b := b) a i o.error).mono
      (Set.singleton_subset_iff.2 (Set.mem_insert _ {Key.function b.function.id}))
  refine (attains_ret (fun v _ => ((ensures_operand _ v _).from n).attains)
    (fun o _ _ _ => ⟨hwrite o, rfl⟩) fun o n' _ _ _ => ?_).ensuresFrom
  refine ((Affine.ensures_withError _ _).from n').attains.mono fun error _ _ _ => ?_
  have hsummary : Key.function b.function.id
      ∈ ({b.key i, .function b.function.id} : Set Key) := Or.inr rfl
  refine ⟨(hwrite o).trans ⟨rfl, ?_⟩, rfl⟩
  exact ((b.write a i o.error).store.writes_set _ ⟨o.range, some error⟩).mono
    (Set.singleton_subset_iff.2 hsummary)

/-- The slot of an annotated aggregate gets its tree, and nothing else happens. -/
lemma attains_alloca_of_seed {ty : Ty} {n : Symbol} {Q : Activation R → Symbol → Prop}
    (hseed : ∀ id infos, ty = .struct id → i.info = some (.struct infos) →
      Fresh.Attains n (a.store.objects.seed b.module (b.key i) id infos) fun objects =>
        Q { a with store := { a.store with objects := objects } }) :
    ExceptT.Attains n (b.alloca a i ty) fun o n' => ∀ a', o = some a' → Q a' n' := by
  unfold alloca
  split
  · next id infos hinfo =>
    exact (ExceptT.attains_lift (hseed id infos rfl hinfo)).bind fun objects n' _ h =>
      ExceptT.attains_pure fun a' ha' => by
        cases ha'
        exact h
  · exact ExceptT.attains_throw
  · exact ExceptT.attains_pure nofun

/-- A stack slot sets no estimate. -/
lemma alloca_estimates (ty : Ty) (n : Symbol) :
    ExceptT.EnsuresFrom n (b.alloca a i ty) fun o => ∀ a', o = some a' → a.Estimates a' ∅ :=
  (attains_alloca_of_seed (Q := fun a' _ => a.Estimates a' ∅) fun _ _ _ _ =>
    ((Objects.ensures_seed _ _ _ _ _).from n).attains.mono fun _ _ _ _ =>
      ⟨⟨rfl, .same rfl⟩, rfl⟩).ensuresFrom

/-- The answer to a call is taken over, and then an estimate may be set for the call. -/
lemma functionCall_eq (h : CallHandler R σ) (callee : Function R) (args : List (Value R))
    (n : Symbol) :
    ∃ found s, (h.analyse world b.function callee args a.store n).1.1.Writes {b.key i} s ∧
      b.functionCall h a world i callee args n
        = ((found, { a with store := s }, (h.analyse world b.function callee args a.store n).1.2),
          (h.analyse world b.function callee args a.store n).2) := by
  rw [functionCall, Fresh.bind_apply]
  generalize h.analyse world b.function callee args a.store n = r
  obtain ⟨⟨s, w⟩, n'⟩ := r
  dsimp only
  cases returnedError? h w s callee.id with
  | none => exact ⟨_, _, .refl _ _, rfl⟩
  | some e =>
    obtain ⟨error, range⟩ := e
    refine ⟨_, _, Store.Writes.trans ?_ (Store.writes_setError _ _ error), rfl⟩
    split
    · exact Store.writes_setRange _ _ _
    · exact .refl _ _

/-! ## Visits -/

lemma attempt_setsResult (hrule : rule.Ensures (b.SetsResult i a)) :
    (attempt a world rule).Ensures (IsEstimated a {b.key i}) :=
  attempt_estimates (hrule.mono fun _ h => h.estimates)

lemma call_estimates {callee : Callee R} {args : List (Value R)}
    (hroutine : (b.routine? callee).isSome) (hargs : args ≠ []) :
    (b.call h a world i callee args).Ensures (IsEstimated a {b.key i}) := by
  obtain ⟨f, hf⟩ := Option.isSome_iff_exists.1 hroutine
  cases args with
  | nil => exact absurd rfl hargs
  | cons arg args =>
    rw [call, hf]
    exact attempt_estimates (libraryCall_estimates f arg)

/-- Only comparisons give verdicts. -/
lemma operate_estimates (hi : b.IsLocal i) (hop : i.op.compared? = none) :
    (b.operate h edges a world i).Ensures (IsEstimated a (b.written i)) := by
  unfold IsLocal at hi
  rw [operate, written]
  cases hkind : i.op with
  | icmp _ lhs rhs | fcmp _ lhs rhs =>
    rw [hkind] at hop
    cases hop
  | binary op lhs rhs => exact attempt_setsResult (binary_setsResult op lhs rhs)
  | cast op v => exact attempt_setsResult (cast_setsResult op v)
  | select _ t f => exact attempt_setsResult (select_setsResult t f)
  | phi incoming => exact attempt_setsResult (phi_setsResult incoming)
  | load ptr => exact attempt_setsResult (load_setsResult ptr)
  | store value ptr => exact attempt_estimates (store_estimates value ptr)
  | element base _ => exact attempt_setsResult (element_setsResult base)
  | ret value => exact attempt_estimates (ret_estimates value)
  | br | condBr | unreachable => exact Fresh.ensures_pure ⟨⟨⟨_, rfl⟩, .refl a _⟩, rfl⟩
  | alloca ty =>
    rw [hkind] at hi
    exact hi.elim
  | call callee args | invoke callee args _ _ =>
    rw [hkind] at hi
    exact call_estimates hi.1 hi.2

lemma operate_frame (hi : b.IsLocal i) :
    (b.operate h edges a world i).Ensures (IsFramed a (b.written i)) := by
  cases hop : i.op with
  | icmp _ lhs rhs | fcmp _ lhs rhs =>
    rw [operate, written, hop]
    exact attempt_frame (comparison_frame lhs rhs)
  | _ => exact (operate_estimates hi (by rw [hop]; rfl)).mono fun _ h => h.toIsFramed

lemma ensures_seed (s : Store R) (k : Key) (info : ScalarInfo R) :
    (s.seed k info).Ensures fun s' => s.Writes {k} s' := by
  have hannotated : (Store.annotated info).Ensures fun _ => True :=
    info.ensures_error?.andThen fun _ => Fresh.ensures_pure trivial
  exact hannotated.andThen fun e => Fresh.ensures_pure (s.writes_set k e)

/-- **A visit of a local instruction changes only what the instruction writes.** -/
lemma visit_frame (hi : b.IsLocal i) :
    (b.visit h edges a world i).Ensures (IsFramed a (b.written i)) := by
  rw [visit]
  split
  · exact Fresh.ensures_pure ⟨⟨_, rfl⟩, .refl a _⟩
  · split
    · exact operate_frame hi
    · next info _ =>
      split
      · refine (ensures_seed a.store (b.key i) info).bind fun s hs =>
          Fresh.ensures_pure ⟨⟨_, rfl⟩, rfl,
            hs.mono (Set.singleton_subset_iff.2 (b.key_mem_written i))⟩
      · let a₀ := { a with store := a.store.setRange (b.key i) info.rangeOrZero }
        have hrange : a.Frame a₀ (b.written i) := ⟨rfl, (a.store.writes_setRange _ _).mono
          (Set.singleton_subset_iff.2 (b.key_mem_written i))⟩
        exact (operate_frame (a := a₀) hi).mono fun o ho => ⟨ho.answer_eq, hrange.trans ho.frame⟩

/-- **A visit of local instructions changes only what they write.** -/
lemma visitAll_frame {is : List (Instruction R)} (his : ∀ i ∈ is, b.IsLocal i) (count : ℕ) :
    (b.visitAll h edges count a world is).Ensures
      (IsFramed a {k | ∃ i ∈ is, k ∈ b.written i}) := by
  induction is generalizing a world count with
  | nil => exact Fresh.ensures_pure ⟨⟨_, rfl⟩, .refl a _⟩
  | cons i is ih =>
    rw [visitAll]
    refine (visit_frame (his i List.mem_cons_self)).bind fun o ho => ?_
    obtain ⟨found, hfound⟩ := ho.answer_eq
    rw [hfound]
    refine (ih (fun j hj => his j (List.mem_cons_of_mem _ hj)) _).mono fun o' ho' => ?_
    refine ⟨ho'.answer_eq, (ho.frame.mono ?_).trans (ho'.frame.mono ?_)⟩
    · exact fun k hk => ⟨i, List.mem_cons_self, hk⟩
    · rintro k ⟨j, hj, hk⟩
      exact ⟨j, List.mem_cons_of_mem _ hj, hk⟩

end Body

end Roundoff
