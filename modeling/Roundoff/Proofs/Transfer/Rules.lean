/-
# Stores that describe an execution

What a store records describes an execution if the exact values lie in the recorded ranges and there
is one choice of the noise under which every recorded error is the deviation of its value.  The
rules for arithmetic, conversions and returns keep this invariant: they extend the noise by values
for the symbols that they take, and since these are fresh, what has been recorded before stays true.
-/
import Mathlib
import Roundoff.Proofs.Store
import Roundoff.Proofs.Transfer.Arithmetic
import Roundoff.Proofs.Transfer.Execution

namespace Roundoff

variable {f : Function ℝ} {is : List (Instruction ℝ)} {e : Execution f is} {w w' : Supply}
  {s : Store ℝ} {k : Key} {g : Affine ℝ} {d : ℝ}

/-- Whether a key names a formal parameter or the result of an annotated instruction. -/
def Key.IsScalar (f : FunctionId) (is : List (Instruction ℝ)) : Key → Prop
  | .inst h id => h = f ∧ ∀ i ∈ is, i.id = id → i.scalarInfo?.isSome
  | .arg h _ => h = f
  | .global _ | .function _ => False

/-- What a store records describes an execution: exact values lie in the recorded ranges, and with
the noise of the supply every recorded error is the deviation that it stands for. -/
structure Store.Describes (s : Store ℝ) (e : Execution f is) (w : Supply) : Prop where
  /-- The exact values lie in the recorded ranges. -/
  range : ∀ k r, s.get? k = some r → k.IsScalar f.id is → e.ideal k ∈ r.range
  /-- The recorded errors are the deviations. -/
  error : ∀ k g, s.error? k = some g → ∃ d, e.Deviation k d ∧ g.IsError w d

namespace Store.Describes

lemma mono (hs : s.Describes e w) (hw : w ≤ w') : s.Describes e w' where
  range := hs.range
  error k g hg := by
    obtain ⟨d, hd, h⟩ := hs.error k g hg
    exact ⟨d, hd, h.mono hw⟩

/-- The error recorded for a scalar is its deviation. -/
lemma isError (hs : s.Describes e w) (hk : k.IsScalar f.id is) (hg : s.error? k = some g) :
    g.IsError w (e.computed k - e.ideal k) := by
  obtain ⟨d, hd, h⟩ := hs.error k g hg
  cases hd with
  | arg index => exact h
  | inst id => exact h
  | returned i hi v hv => exact hk.elim

/-! ## Writing -/

/-- Recording a range for an exact value that lies in it. -/
lemma setRange (hs : s.Describes e w) {r : Range ℝ} (hr : e.ideal k ∈ r) :
    (s.setRange k r).Describes e w where
  range l x hx hl := by
    rw [Store.get?_setRange] at hx
    split at hx
    · next h =>
      cases hx
      rwa [← h]
    · exact hs.range l x hx hl
  error l g hg := by
    rw [Store.error?, Store.get?_setRange] at hg
    split at hg
    · next h =>
      subst h
      refine hs.error k g ?_
      rw [Store.error?]
      cases hget : s.get? k with
      | none =>
        rw [hget] at hg
        cases hg
      | some x =>
        rw [hget] at hg
        exact hg
    · exact hs.error l g hg

/-- Recording the error of a value with a known range. -/
lemma setError (hs : s.Describes e w) (hk : k.IsScalar f.id is → (s.get? k).isSome)
    (hd : e.Deviation k d) (hg : g.IsError w d) : (s.setError k g).Describes e w where
  range l x hx hl := by
    rw [Store.get?_setError] at hx
    split at hx
    · next h =>
      subst h
      obtain ⟨y, hy⟩ := Option.isSome_iff_exists.1 (hk hl)
      rw [hy] at hx
      cases hx
      exact hs.range k y hy hl
    · exact hs.range l x hx hl
  error l h hh := by
    rw [Store.error?, Store.get?_setError] at hh
    split at hh
    · next hkl =>
      cases hh
      exact ⟨d, hkl ▸ hd, hg⟩
    · exact hs.error l h hh

/-- Recording an estimate. -/
lemma set (hs : s.Describes e w) {x : Estimate ℝ}
    (hr : k.IsScalar f.id is → e.ideal k ∈ x.range)
    (hx : ∀ g, x.error = some g → ∃ d, e.Deviation k d ∧ g.IsError w d) :
    (s.set k x).Describes e w where
  range l y hy hl := by
    rw [Store.get?_set] at hy
    split at hy
    · next h =>
      cases hy
      exact h ▸ hr (h ▸ hl)
    · exact hs.range l y hy hl
  error l g hg := by
    rw [Store.error?, Store.get?_set] at hg
    split at hg
    · next h => exact h ▸ hx g hg
    · exact hs.error l g hg

end Store.Describes

/-- The initial error of an annotation is chosen such that it is the deviation. -/
lemma ScalarInfo.error?_yields {info : ScalarInfo ℝ}
    (hd : ∀ m, info.initialError = some m → |d| ≤ |m|) :
    Fresh.Yields w info.error? fun o w' => ∀ g, o = some g → g.IsError w' d := by
  rw [error?]
  split
  · exact Fresh.yields_pure nofun
  · next m hm =>
    refine (Affine.withError_zero_yields (hd m hm)).bind fun g w' _ hg => Fresh.yields_pure ?_
    rintro _ ⟨⟩
    exact hg

lemma Store.annotated_yields {info : ScalarInfo ℝ} {x y : ℝ} (h : info.Admits x y) :
    Fresh.Yields w (Store.annotated info) fun r w' =>
      x ∈ r.range ∧ ∀ g, r.error = some g → g.IsError w' (y - x) :=
  (ScalarInfo.error?_yields h.deviation).bind fun _ _ _ ho => Fresh.yields_pure ⟨h.range, ho⟩

/-- Setting up an annotated value. -/
lemma Store.Describes.seed_yields (hs : s.Describes e w) {info : ScalarInfo ℝ}
    (hadmits : info.Admits (e.ideal k) (e.computed k))
    (hk : e.Deviation k (e.computed k - e.ideal k)) :
    Fresh.Yields w (s.seed k info) fun s' w' => s'.Describes e w' :=
  (Store.annotated_yields hadmits).bind fun _ _ hw hr =>
    Fresh.yields_pure ((hs.mono hw).set (fun _ => hr.1) fun g hg => ⟨_, hk, hr.2 g hg⟩)

/-! ## Operands -/

/-- An operand describes an exact value `x` that is off by `d`. -/
structure Operand.Describes (o : Operand ℝ) (w : Supply) (x d : ℝ) : Prop where
  /-- The exact value lies in the range. -/
  range : x ∈ o.range
  /-- The error is the deviation. -/
  error : o.error.IsError w d

namespace Body

variable {b : Body ℝ} {lhs rhs : Value ℝ}

section Binary

variable {op : BinaryOp} {f : ℝ → ℝ → ℝ} {r : Range ℝ} {x y c δ : ℝ}

/-- The error of the result of an operation on `x` and `y` that is off by `δ`. -/
lemma binaryError_yields
    (hlhs : Attempt.Yields w (b.operand s lhs (op.firstFormat lhs (some r.format))) fun o w' =>
      o.Describes w' x d)
    (hrhs : ∀ w', w ≤ w' →
      Attempt.Yields w' (b.operand s rhs (some r.format)) fun o w' => o.Describes w' y c)
    (hop : op.exact? = some f) (hδ : |δ| ≤ if op.isRounding then r.roundingError else 0) :
    Attempt.Yields w (b.binaryError s op lhs rhs (some r)) fun g w' =>
      g.IsError w' (f (x + d) (y + c) + δ - f x y) := by
  unfold binaryError
  refine hlhs.bind fun p w₁ hw₁ hp => ?_
  cases op with
  | add | fadd =>
    cases hop
    refine (hrhs w₁ hw₁).bind fun q w₂ hw₂ hq => Attempt.yields_pure ?_
    obtain rfl : δ = 0 := abs_nonpos_iff.1 hδ
    convert (hp.error.mono hw₂).add hq.error using 1
    ring
  | sub | fsub =>
    cases hop
    refine (hrhs w₁ hw₁).bind fun q w₂ hw₂ hq => Attempt.yields_pure ?_
    obtain rfl : δ = 0 := abs_nonpos_iff.1 hδ
    convert (hp.error.mono hw₂).sub hq.error using 1
    ring
  | mul | fmul =>
    cases hop
    refine (hrhs w₁ hw₁).bind fun q w₂ hw₂ hq => ?_
    obtain rfl : δ = 0 := abs_nonpos_iff.1 hδ
    rw [add_zero]
    exact Attempt.yields_lift (mulError_yields hp.range (hp.error.mono hw₂) hq.range hq.error)
  | fdiv =>
    cases hop
    refine (hrhs w₁ hw₁).bind fun q w₂ hw₂ hq => ?_
    obtain rfl : δ = 0 := abs_nonpos_iff.1 hδ
    rw [add_zero]
    exact divError_yields hp.range (hp.error.mono hw₂) hq.range hq.error
  | sdiv | udiv =>
    cases hop
    refine (hrhs w₁ hw₁).bind fun q w₂ hw₂ hq => ?_
    refine (divError_yields hp.range (hp.error.mono hw₂) hq.range hq.error).bind
      fun g w₃ hw₃ hg => ?_
    rw [add_sub_right_comm]
    exact Attempt.yields_lift (addRounding_yields hg (le_trans hδ (le_abs_self _)))
  | shl =>
    cases hop
    obtain rfl : δ = 0 := abs_nonpos_iff.1 hδ
    rw [add_zero, add_sub_cancel_left]
    exact Attempt.yields_pure hp.error
  | lshr | ashr =>
    cases hop
    rw [add_sub_right_comm, add_sub_cancel_left]
    exact Attempt.yields_lift (addRounding_yields hp.error (le_trans hδ (le_abs_self _)))
  | srem | urem | frem | and | or | xor => cases hop

end Binary

variable {is : List (Instruction ℝ)} {e : Execution b.function is} {v : Value ℝ}
  {a : Activation ℝ} {i : Instruction ℝ}

lemma record_yields (hs : s.Describes e w) (hk : k.IsScalar b.function.id is) :
    Attempt.Yields w (OptionT.mk (pure ((s.get? k).bind Estimate.toOperand?))) fun o w' =>
      o.Describes w' (e.ideal k) (e.computed k - e.ideal k) := by
  refine Attempt.yields_mk_pure fun o ho => ?_
  obtain ⟨x, hx, ho⟩ := Option.bind_eq_some_iff.1 ho
  obtain ⟨g, hg, rfl⟩ := Option.map_eq_some_iff.1 ho
  exact ⟨hs.range k x hx hk, hs.isError hk (by rw [Store.error?, hx]; exact hg)⟩

/-- An operand that has data is described by them. -/
lemma operand_yields (hs : s.Describes e w) (hv : v.IsScalar is) (format : Option Format) :
    Attempt.Yields w (b.operand s v format) fun o w' =>
      o.Describes w' (v.read b.function.id e.ideal format)
        (v.read b.function.id e.computed format - v.read b.function.id e.ideal format) := by
  cases v with
  | inst id => exact record_yields hs ⟨rfl, hv⟩
  | arg index => exact record_yields hs rfl
  | constInt raw =>
    cases format with
    | none => exact Attempt.yields_failure
    | some format =>
      refine (Attempt.yields_lift (Affine.withError_zero_yields (d := 0) ?_)).bind
        fun g w' _ hg => Attempt.yields_pure ⟨Range.mem_point _ _, ?_⟩
      · rw [abs_zero]
        exact abs_nonneg _
      · rwa [Value.read, Value.read, sub_self]
  | constFloat c =>
    refine Attempt.yields_pure ⟨Range.mem_point _ _, ?_⟩
    rw [Value.read, Value.read, sub_self]
    exact Affine.isError_zero
  | global id => exact hv.elim
  | function id => exact hv.elim
  | undef => exact hv.elim

/-! ## Rules -/

/-- Whether the annotated range of an instruction has been recorded for its result. -/
def HasRange (b : Body ℝ) (a : Activation ℝ) (i : Instruction ℝ) : Prop :=
  ∀ info, i.scalarInfo? = some info → b.resultRange? a.store i = some info.rangeOrZero

/-- Recording the deviation of a result. -/
lemma write_describes (hs : a.store.Describes e w) (hi : i ∈ is) (hrange : b.HasRange a i)
    (hg : g.IsError w (e.computed (b.key i) - e.ideal (b.key i))) :
    (b.write a i g).store.Describes e w := by
  refine hs.setError (fun hk => ?_) (.inst i.id) hg
  obtain ⟨info, hinfo⟩ := Option.isSome_iff_exists.1 (hk.2 i hi rfl)
  have hr := hrange info hinfo
  rw [resultRange?, Store.range?, Option.map_eq_some_iff] at hr
  obtain ⟨x, hx, -⟩ := hr
  rw [hx]
  rfl

lemma binary_yields {op : BinaryOp} (hs : a.store.Describes e w) (hi : i ∈ is)
    (hrange : b.HasRange a i) (hop : i.op = .binary op lhs rhs) (harith : i.IsArithmetic is) :
    Attempt.Yields w (b.binary a i op lhs rhs) fun a' w' => a'.store.Describes e w' := by
  rw [Instruction.IsArithmetic, hop] at harith
  obtain ⟨hexact, hinfo, hlhs, hrhs⟩ := harith
  obtain ⟨f, hf⟩ := Option.isSome_iff_exists.1 hexact
  obtain ⟨info, hinfo⟩ := Option.isSome_iff_exists.1 hinfo
  have hideal := e.ideal_computes i hi
  have hcomputed := e.computed_computes i hi
  simp only [Instruction.Computes, hop, Instruction.format?_eq hinfo,
    Instruction.roundingError_eq hinfo, ite_self] at hideal hcomputed
  have hexact := sub_eq_zero.1 (abs_nonpos_iff.1 (hideal f hf))
  rw [binary, hrange info hinfo]
  refine (binaryError_yields (operand_yields hs hlhs _)
    (fun w' hw => operand_yields (hs.mono hw) hrhs _) hf (hcomputed f hf)).bind
      fun g w' hw hg => Attempt.yields_pure (write_describes (hs.mono hw) hi hrange ?_)
  rwa [add_sub_cancel, add_sub_cancel, add_sub_cancel, ← hexact] at hg

lemma cast_yields {op : CastOp} (hs : a.store.Describes e w) (hi : i ∈ is)
    (hrange : b.HasRange a i) (hop : i.op = .cast op v) (harith : i.IsArithmetic is) :
    Attempt.Yields w (b.cast a i op v) fun a' w' => a'.store.Describes e w' := by
  rw [Instruction.IsArithmetic, hop] at harith
  obtain ⟨hinfo, hv⟩ := harith
  obtain ⟨info, hinfo⟩ := Option.isSome_iff_exists.1 hinfo
  have hideal := e.ideal_computes i hi
  have hcomputed := e.computed_computes i hi
  simp only [Instruction.Computes, hop, Instruction.format?_eq hinfo,
    Instruction.roundingError_eq hinfo, ite_self] at hideal hcomputed
  have hexact := sub_eq_zero.1 (abs_nonpos_iff.1 hideal)
  rw [cast, hrange info hinfo]
  refine (operand_yields hs hv (some info.rangeOrZero.format)).bind fun o w₁ hw₁ ho => ?_
  dsimp only
  split
  · next hround =>
    rw [if_pos hround] at hcomputed
    have hadd := addRounding_yields ho.error (hcomputed.trans (le_abs_self _))
    refine (Attempt.yields_lift hadd).bind fun g w₂ hw₂ hg =>
      Attempt.yields_pure (write_describes (hs.mono (hw₁.trans hw₂)) hi hrange ?_)
    rwa [add_comm, sub_add_sub_cancel, ← hexact] at hg
  · next hround =>
    rw [if_neg hround] at hcomputed
    have hsame := sub_eq_zero.1 (abs_nonpos_iff.1 hcomputed)
    refine Attempt.yields_pure (write_describes (hs.mono hw₁) hi hrange ?_)
    rw [key, hexact, hsame]
    exact ho.error

lemma ret_yields {u : Option (Value ℝ)} (hs : a.store.Describes e w) (hi : i ∈ is)
    (hrange : b.HasRange a i) (hop : i.op = .ret u) (harith : i.IsArithmetic is) :
    Attempt.Yields w (b.ret a i u) fun a' w' => a'.store.Describes e w' := by
  rw [Instruction.IsArithmetic, hop] at harith
  cases u with
  | none => exact Attempt.yields_failure
  | some v =>
    have hideal := e.ideal_computes i hi
    have hcomputed := e.computed_computes i hi
    simp only [Instruction.Computes, hop] at hideal hcomputed
    refine (operand_yields hs (harith v rfl) none).bind fun o w₁ hw₁ ho => ?_
    have herror := ho.error
    rw [← hideal, ← hcomputed] at herror
    have hwritten := write_describes (hs.mono hw₁) hi hrange herror
    refine Attempt.yields_ite ?_ (Attempt.yields_pure hwritten)
    refine (Attempt.yields_lift herror.flatten_yields).bind fun g w₂ hw₂ hg =>
      Attempt.yields_pure ?_
    have hsummary : ∀ g', some g = some g' → ∃ d, e.Deviation (.function b.function.id) d ∧
        g'.IsError w₂ d := by
      rintro _ ⟨⟩
      exact ⟨_, .returned i hi v hop, hg⟩
    exact (hwritten.mono hw₂).set (x := ⟨o.range, some g⟩) False.elim hsummary

end Body

end Roundoff
