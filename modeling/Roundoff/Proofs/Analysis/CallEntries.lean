/-
# The entries with which an activation starts

An activation starts from a copy of what its caller knows.  All that belongs to the callee is
forgotten in the copy, the annotations of the formal parameters are written down, and each of them
is given what is recorded for the actual one.

The actual ones are read from the data of the caller and not from the copy.  If the callee is its
own caller, then the copy knows nothing of them any more or something else, as they are keys of the
callee themselves.  Nothing of this shows: each formal parameter starts with what the caller knows
of the actual one, in a recursive call as in any other one.
-/
import Mathlib
import Roundoff.Proofs.Analysis.Arguments

namespace Roundoff

variable {R : Type} [Number R] {callee : Function R} {n : ℕ} {info : Option (ValueInfo R)}
  {own : Option (Estimate R)}

namespace Store

/-- A formal parameter has an entry if it is annotated or if there is one for the actual one.  Its
range and its error are those of the actual one as far as these are known, and the annotated ones
otherwise. -/
structure StartsWith (declared : Option (ScalarInfo R)) (actual entry : Option (Estimate R)) :
    Prop where
  /-- An annotation or an entry for the actual parameter is needed, and each of them suffices. -/
  isSome_iff : entry.isSome ↔ declared.isSome ∨ actual.isSome
  /-- A known range of the actual parameter is taken. -/
  range_of_known : ∀ e a, entry = some e → actual = some a → a.range.isUnknown = false →
    e.range = a.range
  /-- Without one it is the annotated range. -/
  range_of_declared : ∀ e info, entry = some e → declared = some info →
    (∀ a, actual = some a → a.range.isUnknown = true) → e.range = info.rangeOrZero
  /-- Where there is no annotation, the range of the actual parameter is taken as it is. -/
  range_of_none : ∀ e a, entry = some e → declared = none → actual = some a → e.range = a.range
  /-- The error is the one of the actual parameter, or else the annotated one. -/
  error_eq : ∃ symbol, ∀ e, entry = some e → e.error = (actual.bind Estimate.error).or
    (declared.bind fun info => info.initialError.map fun x => (Affine.withError 0 x symbol).1)

/-- The entries with which an activation starts are those of its caller, apart from the ones that
belong to the callee.  Of these there are only the ones of its formal parameters. -/
structure StartsFrom (s : Store R) (caller callee : Function R) (args : List (Value R))
    (start : Store R) : Prop where
  /-- There are no entries for instructions of the callee. -/
  inst_eq : ∀ id, start.get? (.inst callee.id id) = none
  /-- There is no entry for what it returns. -/
  function_eq : start.get? (.function callee.id) = none
  /-- Its formal parameters start with what is recorded for the actual ones. -/
  param : ∀ n param, callee.params[n]? = some param →
    StartsWith (param.info.bind ValueInfo.scalar?) (s.actual? caller args n)
      (start.get? (.arg callee.id (UInt32.ofNat n)))
  /-- There are no entries for parameters that it does not have. -/
  arg_eq : ∀ index, callee.param? index = none → start.get? (.arg callee.id index) = none
  /-- All else is as the caller has it. -/
  other : ∀ k, belongsTo callee.id k = false → start.get? k = s.get? k

/-! ## Formal parameters -/

lemma annotated_eq (info : ScalarInfo R) (symbol : Symbol) : (annotated info symbol).1
    = ⟨info.rangeOrZero, info.initialError.map fun x => (Affine.withError 0 x symbol).1⟩ := by
  rw [annotated, Fresh.bind_apply, ScalarInfo.error?]
  cases info.initialError <;> rfl

lemma startsWith_startOf_none (actual : Option (Estimate R)) :
    StartsWith none actual (startOf none actual) := by
  have hstart : startOf none actual = actual := by cases actual <;> rfl
  rw [hstart]
  refine ⟨by simp, ?_, ?_, ?_, 0, ?_⟩
  · rintro e a rfl ⟨⟩ -
    rfl
  · rintro e info - ⟨⟩
  · rintro e a rfl - ⟨⟩
    rfl
  · rintro e rfl
    simp

lemma startsWith_startOf_annotated (info : ScalarInfo R) (symbol : Symbol)
    (actual : Option (Estimate R)) :
    StartsWith (some info) actual (startOf (some (annotated info symbol).1) actual) := by
  rw [annotated_eq]
  cases actual with
  | none =>
    refine ⟨by simp [startOf], ?_, ?_, ?_, symbol, ?_⟩
    · rintro e a - ⟨⟩
    · rintro e _ ⟨⟩ ⟨⟩ -
      rfl
    · rintro e a - ⟨⟩
    · rintro e ⟨⟩
      rfl
  | some a =>
    refine ⟨by simp [startOf], ?_, ?_, ?_, symbol, ?_⟩
    · rintro e _ ⟨⟩ ⟨⟩ hknown
      exact if_neg (by simp [hknown])
    · rintro e _ ⟨⟩ ⟨⟩ hunknown
      exact if_pos (hunknown a rfl)
    · rintro e _ - ⟨⟩
    · rintro e ⟨⟩
      rfl

/-- The annotation is written down first, and then the entry of the actual parameter is merged into
it. -/
lemma startsWith_of_setsUp (h : SetsUp info none own) (actual : Option (Estimate R)) :
    StartsWith (info.bind ValueInfo.scalar?) actual (startOf own actual) := by
  generalize hold : (none : Option (Estimate R)) = old at h
  cases h with
  | scalar info symbol => exact startsWith_startOf_annotated info symbol actual
  | struct | none =>
    subst hold
    exact startsWith_startOf_none actual

lemma ensures_atCall_startsWith (m : Module R) (s : Store R) (caller : Function R)
    (args : List (Value R)) {param : Param R} (hsize : callee.params.size ≤ UInt32.size)
    (hparam : callee.params[n]? = some param) :
    (s.atCall m caller callee args).Ensures fun start =>
      StartsWith (param.info.bind ValueInfo.scalar?) (s.actual? caller args n)
        (start.get? (.arg callee.id (UInt32.ofNat n))) := by
  refine (ensures_atCall_actual? m s caller args hsize hparam).mono fun start hstart => ?_
  obtain ⟨own, hown, hget⟩ := hstart
  rw [hget]
  exact startsWith_of_setsUp hown _

/-! ## All entries -/

/-- Apart from the formal parameters there is what the caller has and the callee does not own. -/
lemma ensures_atCall_get?_of_notMem (m : Module R) (s : Store R) (caller callee : Function R)
    (args : List (Value R)) :
    (s.atCall m caller callee args).Ensures fun start => ∀ k, k ∉ paramKeys callee →
      start.get? k = if belongsTo callee.id k then none else s.get? k :=
  (ensures_atCall_paramKeys m s).mono fun start hstart k hk => by
    rw [hstart.get?_eq hk, get?_eraseFunction]

omit [Number R] in
lemma arg_notMem_paramKeys {index : UInt32} (hsize : callee.params.size ≤ UInt32.size)
    (h : callee.param? index = none) : Key.arg callee.id index ∉ paramKeys callee := by
  rintro ⟨n, hn, hkey⟩
  have hindex : index = UInt32.ofNat n := (Key.arg.inj hkey).2
  rw [Function.param?, hindex, UInt32.toNat_ofNat_of_lt' (hn.trans_le hsize),
    Array.getElem?_eq_none_iff] at h
  exact h.not_gt hn

/-- **The entries with which an activation starts.**  Nothing that belongs to the callee is left
from earlier activations: neither entries for its instructions, nor for what it has returned, nor
for parameters beyond the ones that it has.  Each of its formal parameters starts with what its
caller has recorded for the actual one and with its annotation, also if the caller is the callee.
All other entries are those of the caller.

There must not be more parameters than numbers for them. -/
theorem ensures_atCall_startsFrom (m : Module R) (s : Store R) (caller callee : Function R)
    (args : List (Value R)) (hsize : callee.params.size ≤ UInt32.size) :
    (s.atCall m caller callee args).Ensures fun start => s.StartsFrom caller callee args start := by
  intro symbol
  obtain ⟨hle, hget⟩ := ensures_atCall_get?_of_notMem m s caller callee args symbol
  have howned (k : Key) (hk : k ∉ paramKeys callee) (howner : belongsTo callee.id k = true) :
      (s.atCall m caller callee args symbol).1.get? k = none := by rw [hget k hk, if_pos howner]
  refine ⟨hle, ?_⟩
  exact {
    inst_eq := fun id => howned (.inst callee.id id) (by rintro ⟨n, -, ⟨⟩⟩)
      (by simp [belongsTo, Key.owner?])
    function_eq := howned (.function callee.id) (by rintro ⟨n, -, ⟨⟩⟩) (by simp [belongsTo])
    param := fun n param hparam =>
      (ensures_atCall_startsWith m s caller args hsize hparam symbol).2
    arg_eq := fun index hindex => howned (.arg callee.id index)
      (arg_notMem_paramKeys hsize hindex) (by simp [belongsTo, Key.owner?])
    other := fun k hk => by
      rw [hget k, hk, if_neg Bool.false_ne_true]
      rintro ⟨n, -, rfl⟩
      simp [belongsTo, Key.owner?] at hk }

/-! ### A function that calls itself with its parameters exchanged -/

namespace Exchanged

/-- An annotated range and an annotated error of one. -/
def scalarInfo : ScalarInfo ℝ := ⟨⟨32, 8, true⟩, some (-1, 0), some 1⟩

/-- A function of two numbers that calls itself. -/
noncomputable def function : Function ℝ where
  id := ⟨0⟩
  name := "descend"
  params := #[⟨"x", .float 64, some (.scalar scalarInfo)⟩, ⟨"y", .float 64, none⟩]
  retTy := .float 64
  blocks := #[⟨⟨0⟩, "entry", [⟨0⟩, ⟨1⟩], none, none⟩]
  insts := #[⟨⟨0⟩, ⟨0⟩, "", .float 64, .call (.direct ⟨0⟩) [.arg 1, .arg 0], none, none⟩,
    ⟨⟨1⟩, ⟨0⟩, "", .void, .ret (some (.inst ⟨0⟩)), none, none⟩]
  maxRecursion := none
  entryPoint := true

/-- What the caller knows of its first parameter. -/
noncomputable def first : Estimate ℝ := ⟨⟨0, 1, ⟨32, 8, true⟩⟩, some (Affine.const 1)⟩

/-- What the caller knows of its second parameter, which has no error. -/
noncomputable def second : Estimate ℝ := ⟨⟨1, 1, ⟨32, 8, true⟩⟩, none⟩

/-- What the caller knows. -/
noncomputable def store : Store ℝ :=
  ⟨Table.ofList [(.inst ⟨0⟩ ⟨0⟩, first), (.arg ⟨0⟩ 0, first), (.arg ⟨0⟩ 1, second)], ∅,
    Targets.empty, Objects.empty⟩

/-- Each parameter starts with what the caller knows of the other one.  The first one takes its
error from the annotation. -/
theorem startsFrom_exchanged :
    function.params.size ≤ UInt32.size ∧
      (store.atCall (.empty "m") function function [.arg 1, .arg 0]).Ensures fun start =>
        (∃ symbol, start.get? (.arg ⟨0⟩ 0)
          = some ⟨second.range, some (Affine.withError 0 1 symbol).1⟩) ∧
        start.get? (.arg ⟨0⟩ 1) = some first ∧ start.get? (.inst ⟨0⟩ ⟨0⟩) = none := by
  refine ⟨by decide, (ensures_atCall_startsFrom (.empty "m") store function function
    [.arg 1, .arg 0] (by decide)).mono fun start hstart => ⟨?_, ?_, hstart.inst_eq ⟨0⟩⟩⟩
  · have hx := hstart.param 0 _ rfl
    obtain ⟨e, he⟩ := Option.isSome_iff_exists.1 (hx.isSome_iff.2 (.inl rfl))
    obtain ⟨symbol, herror⟩ := hx.error_eq
    have hrange : e.range = second.range := hx.range_of_known e second he rfl rfl
    have herror : e.error = some (Affine.withError 0 1 symbol).1 := herror e he
    exact ⟨symbol, he.trans (by rw [← hrange, ← herror])⟩
  · have hy := hstart.param 1 _ rfl
    obtain ⟨e, he⟩ := Option.isSome_iff_exists.1 (hy.isSome_iff.2 (.inr rfl))
    obtain ⟨symbol, herror⟩ := hy.error_eq
    have hrange : e.range = first.range := hy.range_of_known e first he rfl rfl
    have herror : e.error = first.error := herror e he
    have hfirst : e = ⟨first.range, first.error⟩ := by rw [← hrange, ← herror]
    exact he.trans (congrArg some hfirst)

end Exchanged

/-! ### A parameter that the callee does not have -/

namespace SpareArgument

/-- A function of one number. -/
def function : Function ℝ where
  id := ⟨0⟩
  name := "descend"
  params := #[⟨"x", .float 64, none⟩]
  retTy := .void
  blocks := #[⟨⟨0⟩, "entry", [⟨0⟩], none, none⟩]
  insts := #[⟨⟨0⟩, ⟨0⟩, "", .void, .ret none, none, none⟩]
  maxRecursion := none
  entryPoint := true

/-- An error of one. -/
noncomputable def estimate : Estimate ℝ := ⟨Range.unknown, some (Affine.const 1)⟩

/-- There is an entry for a second parameter. -/
noncomputable def store : Store ℝ :=
  ⟨Table.ofList [(.arg ⟨0⟩ 0, estimate), (.arg ⟨0⟩ 1, estimate)], ∅, Targets.empty, Objects.empty⟩

/-- The entry for the second parameter is the one of no instruction, result or formal parameter of
the callee, and still it does not stay as it is.  Nor is a second parameter given the entry of the
second actual one. -/
theorem not_ensures_atCall_get?_spare :
    ¬ (store.atCall (.empty "m") function function [.arg 0, .arg 1]).Ensures (fun start =>
        ∀ k, (∀ id, k ≠ .inst function.id id) → k ≠ .function function.id →
          (∀ n param, function.params[n]? = some param → k ≠ .arg function.id (UInt32.ofNat n)) →
          start.get? k = store.get? k) ∧
      ¬ (store.atCall (.empty "m") function function [.arg 0, .arg 1]).Ensures (fun start =>
        ((store.actual? function [.arg 0, .arg 1] 1).isSome →
          (start.get? (.arg function.id 1)).isSome)) := by
  have hspare : Key.arg function.id 1 ∉ paramKeys function :=
    arg_notMem_paramKeys (by decide) rfl
  have hnone : (store.atCall (.empty "m") function function [.arg 0, .arg 1] 0).1.get?
      (.arg function.id 1) = none :=
    (ensures_atCall_get?_of_notMem (.empty "m") store function function [.arg 0, .arg 1] 0).2 _
      hspare
  refine ⟨fun h => ?_, fun h => ?_⟩
  · have hkept := (h 0).2 (.arg function.id 1) nofun nofun fun n param hparam heq =>
      hspare ⟨n, (Array.getElem?_eq_some_iff.1 hparam).1, heq⟩
    cases hnone.symm.trans hkept
  · have hgiven := (h 0).2 rfl
    rw [hnone] at hgiven
    cases hgiven

end SpareArgument

end Store

end Roundoff
