/-
# Objects that are passed by pointer

A callee that is passed a pointer into an aggregate reads and writes the tree of an object of its
caller: its formal parameter is bound to the path of the actual one, and when it has come to its end
the caller takes over the tree of that object.

One object is addressed through the pointers of two functions then, and several arguments may lead
into it.  This causes no confusion, since a path names its object: whatever is computed from a
formal parameter leads to the same element as what is computed in the same way from the actual one,
and the caller takes over whole trees.  So after the call the caller finds for such a pointer what
the callee found for its own one, and for all other objects what it found before.
-/
import Mathlib
import Roundoff.Proofs.Analysis.Resolution

namespace Roundoff

variable {R : Type} {m : Module R} {f caller callee : Function R} {o o' other : Objects R}
  {v base actual : Value R} {steps : List PathIndex} {args : List (Value R)} {k : Key}
  {path : FieldPath} {n : ℕ}

namespace Objects

/-! ## Elements below a pointer -/

/-- The estimate of the element at the end of a path. -/
def fieldAt? (o : Objects R) (m : Module R) (path : FieldPath) : Option (Estimate R) :=
  (o.trees.get? path.root).bind fun tree => tree.get? m path.indices

/-- The estimate of the element to which the given steps lead from the one that a pointer points
to. -/
def fieldBelow? (o : Objects R) (m : Module R) (f : Function R) (pointer : Value R)
    (steps : List PathIndex) : Option (Estimate R) :=
  (o.resolve? m f pointer).bind fun path => o.fieldAt? m (path.append steps)

/-- What is computed from a pointer reads an element below it. -/
lemma getField?_of_derivesFrom (h : f.DerivesFrom base v steps) :
    o.getField? m f v = o.fieldBelow? m f base steps := by
  rw [fieldBelow?, getField?, resolve?_of_derivesFrom h]
  cases o.resolve? m f base <;> rfl

/-! ## What a call hands over -/

/-- The argument is a pointer into the object. -/
def handsOver (o : Objects R) (m : Module R) (caller : Function R) (k : Key) (v : Value R) : Bool :=
  (m.typeOf? caller v).any Ty.isPointer && (o.resolve? m caller v).any fun path => path.root = k

lemma handsOver_congr (h : o'.bindings = o.bindings) :
    o'.handsOver m caller k v = o.handsOver m caller k v := by
  have hresolve : o'.resolve? m caller v = o.resolve? m caller v :=
    resolve?_congr (fun index => by rw [h]) v
  rw [handsOver, handsOver, hresolve]

lemma bindings_takeBackArgument :
    (takeBackArgument other m caller o v).bindings = o.bindings := by
  rw [takeBackArgument]
  split
  · split
    · rfl
    · split <;> rfl
  · rfl

lemma bindings_takeBack : (o.takeBack other m caller args).bindings = o.bindings := by
  rw [takeBack]
  induction args generalizing o with
  | nil => rfl
  | cons v args ih => rw [List.foldl_cons, ih, bindings_takeBackArgument]

/-- The tree of the object that an argument points into is taken over, if there is one. -/
lemma get?_takeBackArgument (k : Key) :
    (takeBackArgument other m caller o v).trees.get? k
      = if o.handsOver m caller k v then (other.trees.get? k).or (o.trees.get? k)
        else o.trees.get? k := by
  rw [takeBackArgument, handsOver]
  cases (m.typeOf? caller v).any Ty.isPointer with
  | false => rfl
  | true =>
    cases o.resolve? m caller v with
    | none => rfl
    | some path =>
      by_cases hk : path.root = k
      · subst hk
        cases htree : other.trees.get? path.root <;> simp [htree]
      · cases htree : other.trees.get? path.root <;> simp [htree, hk]

/-- The trees of the objects that the arguments point into are taken over. -/
lemma get?_takeBack (o other : Objects R) (m : Module R) (caller : Function R)
    (args : List (Value R)) (k : Key) :
    (o.takeBack other m caller args).trees.get? k
      = if args.any (o.handsOver m caller k) then (other.trees.get? k).or (o.trees.get? k)
        else o.trees.get? k := by
  rw [takeBack]
  induction args generalizing o with
  | nil => rfl
  | cons v args ih =>
    have hrest : args.any ((takeBackArgument other m caller o v).handsOver m caller k)
        = args.any (o.handsOver m caller k) :=
      congrArg args.any (funext fun _ => handsOver_congr bindings_takeBackArgument)
    rw [List.foldl_cons, ih, hrest, get?_takeBackArgument, List.any_cons]
    cases o.handsOver m caller k v with
    | false => rfl
    | true => cases other.trees.get? k <;> simp

variable [Number R]

/-! ## Writes of a callee -/

/-- Set estimates through pointers of a function, one after the other. -/
def setFields (o : Objects R) (m : Module R) (f : Function R)
    (writes : List (Value R × Estimate R)) :
    Objects R :=
  writes.foldl (fun o w => (o.setField m f w.1 w.2).2) o

lemma bindings_setField (e : Estimate R) : (o.setField m f v e).2.bindings = o.bindings := by
  rw [setField]
  split <;> rfl

lemma bindings_setFields {writes : List (Value R × Estimate R)} :
    (o.setFields m f writes).bindings = o.bindings := by
  rw [setFields]
  induction writes generalizing o with
  | nil => rfl
  | cons w writes ih => rw [List.foldl_cons, ih, bindings_setField]

/-- No tree is lost. -/
lemma isSome_get?_setField (e : Estimate R) (h : (o.trees.get? k).isSome) :
    ((o.setField m f v e).2.trees.get? k).isSome := by
  rw [setField]
  split
  · exact h
  · rw [Table.get?_insert]
    split
    · rfl
    · exact h

lemma isSome_get?_setFields {writes : List (Value R × Estimate R)} (h : (o.trees.get? k).isSome) :
    ((o.setFields m f writes).trees.get? k).isSome := by
  rw [setFields]
  induction writes generalizing o with
  | nil => exact h
  | cons w writes ih => exact ih (isSome_get?_setField w.2 h)

/-! ## There and back -/

/-- What the callee knows when it has been passed the arguments and has made its writes. -/
def inCallee (o : Objects R) (m : Module R) (caller callee : Function R) (args : List (Value R))
    (writes : List (Value R × Estimate R)) : Objects R :=
  (o.bindArguments m caller callee args).setFields m callee writes

/-- What the caller knows when it has taken over what the callee has written. -/
def afterWrites (o : Objects R) (m : Module R) (caller callee : Function R) (args : List (Value R))
    (writes : List (Value R × Estimate R)) : Objects R :=
  o.takeBack ((o.inCallee m caller callee args writes).clearBindings callee) m caller args

/-- An argument of a call is passed by pointer: the formal parameter points to a struct, and the
actual one is a pointer to the element at the end of the path. -/
structure PassesPointer (o : Objects R) (m : Module R) (caller callee : Function R)
    (args : List (Value R)) (n : ℕ) (actual : Value R) (path : FieldPath) : Prop where
  /-- The formal parameter points to a struct. -/
  target : ∃ param, callee.params[n]? = some param ∧ param.ty.targetStruct?.isSome
  /-- The actual one is an argument of the call. -/
  actual_eq : args[n]? = some actual
  /-- It is a pointer. -/
  isPointer : (m.typeOf? caller actual).any Ty.isPointer = true
  /-- It leads to the element. -/
  path_eq : o.resolve? m caller actual = some path

variable {writes : List (Value R × Estimate R)}

/-- In the callee the formal parameter leads to the element. -/
lemma PassesPointer.resolve?_inCallee (h : o.PassesPointer m caller callee args n actual path)
    (hid : caller.id ≠ callee.id) (hsize : callee.params.size ≤ UInt32.size)
    (writes : List (Value R × Estimate R)) :
    (o.inCallee m caller callee args writes).resolve? m callee (.arg (UInt32.ofNat n))
      = some path := by
  obtain ⟨param, hparam, htarget⟩ := h.target
  rw [resolve?_arg, inCallee]
  refine formalPath?_of_get? ?_
  rw [bindings_setFields, get?_bindArguments_of_id_ne hid hsize hparam h.actual_eq, actualPath?,
    if_pos htarget, h.path_eq, Option.some_or]

lemma resolve?_afterWrites :
    (o.afterWrites m caller callee args writes).resolve? m caller v = o.resolve? m caller v :=
  resolve?_congr (fun index => by rw [afterWrites, bindings_takeBack]) v

/-- The caller takes over the tree of the object. -/
lemma PassesPointer.get?_afterWrites (h : o.PassesPointer m caller callee args n actual path) :
    (o.afterWrites m caller callee args writes).trees.get? path.root
      = (o.inCallee m caller callee args writes).trees.get? path.root := by
  have hover : args.any (o.handsOver m caller path.root) = true := by
    refine List.any_eq_true.2 ⟨actual, List.mem_of_getElem? h.actual_eq, ?_⟩
    rw [handsOver, h.isPointer, h.path_eq]
    simp
  rw [afterWrites, get?_takeBack, if_pos hover]
  change ((o.inCallee m caller callee args writes).trees.get? path.root).or _ = _
  -- where the callee has no tree of the object, the caller had none before
  cases htree : (o.inCallee m caller callee args writes).trees.get? path.root with
  | some tree => rfl
  | none =>
    rw [Option.none_or, ← Option.not_isSome_iff_eq_none]
    intro hbefore
    have hsome : ((o.inCallee m caller callee args writes).trees.get? path.root).isSome :=
      isSome_get?_setFields (by rwa [trees_bindArguments])
    rw [htree] at hsome
    cases hsome

/-- **What a callee writes to the objects that it is passed is found by its caller.**  After any
writes of the callee, each argument that is passed by pointer leads the caller to the element to
which the formal parameter leads the callee.  For this element and all elements below it the caller
finds what the callee has found, so also through any pointers that both have computed by the same
steps.  The trees of objects into which no argument points stay as they were.

The caller must be another function than the callee, whose parameters must not be more than there
are numbers for them.  Whether the callee is under way already, with other arguments, makes no
difference. -/
theorem fields_afterWrites (o : Objects R) (m : Module R) (caller callee : Function R)
    (args : List (Value R)) (writes : List (Value R × Estimate R)) (hid : caller.id ≠ callee.id)
    (hsize : callee.params.size ≤ UInt32.size) :
    (∀ n actual path, o.PassesPointer m caller callee args n actual path →
      (o.inCallee m caller callee args writes).resolve? m callee (.arg (UInt32.ofNat n))
          = some path ∧
        (o.afterWrites m caller callee args writes).resolve? m caller actual = some path ∧
        (∀ steps, (o.afterWrites m caller callee args writes).fieldBelow? m caller actual steps
          = (o.inCallee m caller callee args writes).fieldBelow? m callee (.arg (UInt32.ofNat n))
              steps) ∧
        ∀ v w steps, caller.DerivesFrom actual v steps →
          callee.DerivesFrom (.arg (UInt32.ofNat n)) w steps →
          (o.afterWrites m caller callee args writes).getField? m caller v
            = (o.inCallee m caller callee args writes).getField? m callee w) ∧
    ∀ root, (∀ actual ∈ args, ∀ path, o.resolve? m caller actual = some path → path.root ≠ root) →
      (o.afterWrites m caller callee args writes).trees.get? root = o.trees.get? root := by
  refine ⟨fun n actual path h => ?_, fun root hroot => ?_⟩
  · have hinside := h.resolve?_inCallee hid hsize writes
    have hback : (o.afterWrites m caller callee args writes).resolve? m caller actual = some path :=
      resolve?_afterWrites.trans h.path_eq
    have hfields (steps : List PathIndex) :
        (o.afterWrites m caller callee args writes).fieldBelow? m caller actual steps
          = (o.inCallee m caller callee args writes).fieldBelow? m callee (.arg (UInt32.ofNat n))
              steps := by
      rw [fieldBelow?, fieldBelow?, hinside, hback, Option.bind_some, Option.bind_some, fieldAt?,
        fieldAt?]
      exact congrArg (Option.bind · _) h.get?_afterWrites
    refine ⟨hinside, hback, hfields, fun v w steps hv hw => ?_⟩
    rw [getField?_of_derivesFrom hv, getField?_of_derivesFrom hw, hfields]
  · have hover : ¬ args.any (o.handsOver m caller root) = true := by
      intro hany
      obtain ⟨actual, hmem, hhands⟩ := List.any_eq_true.1 hany
      obtain ⟨path, hpath, hkey⟩ := (Option.any_eq_true _ _).1 (Bool.and_eq_true_iff.1 hhands).2
      exact hroot actual hmem path hpath (of_decide_eq_true hkey)
    rw [afterWrites, get?_takeBack, if_neg hover]

/-! ### An object and a part of it -/

namespace SharedPart

/-- A struct type with an aggregate of two fields. -/
def module : Module ℝ :=
  ⟨"m", #[], #[], #[⟨"Interval", [.float 64, .float 64]⟩, ⟨"Sample", [.struct ⟨0⟩, .float 64]⟩]⟩

/-- An instruction of the functions below. -/
def instruction (id : InstId) (ty : Ty) (op : Operation ℝ) : Instruction ℝ :=
  ⟨id, ⟨0⟩, "", ty, op, none, none⟩

/-- A function with two slots for samples.  It passes the first one and the interval in it. -/
def measure : Function ℝ where
  id := ⟨0⟩
  name := "measure"
  params := #[]
  retTy := .void
  blocks := #[⟨⟨0⟩, "entry", [⟨0⟩, ⟨1⟩, ⟨2⟩, ⟨3⟩], none, none⟩]
  insts := #[instruction ⟨0⟩ (.pointer (.struct ⟨1⟩)) (.alloca (.struct ⟨1⟩)),
    instruction ⟨1⟩ (.pointer (.struct ⟨1⟩)) (.alloca (.struct ⟨1⟩)),
    instruction ⟨2⟩ (.pointer (.struct ⟨0⟩)) (.element (.inst ⟨0⟩) [.constInt 0, .constInt 0]),
    instruction ⟨3⟩ (.pointer (.float 64))
      (.element (.inst ⟨0⟩) [.constInt 0, .constInt 0, .constInt 1])]
  maxRecursion := none
  entryPoint := true

/-- The function that is called. -/
def widen : Function ℝ where
  id := ⟨1⟩
  name := "widen"
  params := #[⟨"sample", .pointer (.struct ⟨1⟩), none⟩, ⟨"interval", .pointer (.struct ⟨0⟩), none⟩]
  retTy := .void
  blocks := #[⟨⟨0⟩, "entry", [⟨0⟩, ⟨1⟩], none, none⟩]
  insts := #[instruction ⟨0⟩ (.pointer (.float 64)) (.element (.arg 1) [.constInt 0, .constInt 1]),
    instruction ⟨1⟩ (.pointer (.float 64))
      (.element (.arg 0) [.constInt 0, .constInt 0, .constInt 1])]
  maxRecursion := none
  entryPoint := false

/-- The first slot and the interval in it are passed. -/
def actuals : List (Value ℝ) := [.inst ⟨0⟩, .inst ⟨2⟩]

/-- An error of one. -/
noncomputable def estimate : Estimate ℝ := ⟨Range.unknown, some (Affine.const 1)⟩

/-- The callee writes through the pointer to the interval. -/
noncomputable def written : List (Value ℝ × Estimate ℝ) := [(.inst ⟨0⟩, estimate)]

/-- Nothing is known before. -/
def objects : Objects ℝ := .empty

lemma passesPointer_sample :
    objects.PassesPointer module measure widen actuals 0 (.inst ⟨0⟩) ⟨.inst ⟨0⟩ ⟨0⟩, ⟨1⟩, []⟩ where
  target := ⟨_, rfl, rfl⟩
  actual_eq := rfl
  isPointer := rfl
  path_eq := rfl

/-- What the callee writes through the pointer to the interval, the caller finds through the pointer
to the sample.  Nothing is known of the other sample after the call. -/
theorem getField?_afterWrites :
    measure.id ≠ widen.id ∧ widen.params.size ≤ UInt32.size ∧
      (objects.afterWrites module measure widen actuals written).getField? module measure
        (.inst ⟨3⟩) = some estimate ∧
      (objects.afterWrites module measure widen actuals written).trees.get? (.inst ⟨0⟩ ⟨1⟩)
        = none := by
  obtain ⟨hpassed, hother⟩ :=
    fields_afterWrites objects module measure widen actuals written (by decide) (by decide)
  obtain ⟨-, -, -, hfields⟩ := hpassed 0 _ _ passesPointer_sample
  refine ⟨by decide, by decide, ?_, ?_⟩
  · rw [hfields (.inst ⟨3⟩) (.inst ⟨1⟩) _ (.element rfl rfl .refl) (.element rfl rfl .refl)]
    rfl
  · rw [hother]
    · rfl
    · intro actual hactual path hpath
      fin_cases hactual <;> cases hpath <;> decide

end SharedPart

end Objects

end Roundoff
