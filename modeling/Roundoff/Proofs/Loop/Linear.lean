/-
# Linear code

The operations that the closed form of a loop reads as a sum, a difference, a multiple by a real
constant, or as their operand form a linear combination `α·x + β·y` of operands.  A block is
*linear* if it consists of such operations, of phis of the condition block, and of comparisons and
branches, and if every operand is known when it is read: it comes from outside the loop and has
data, or it has been computed before.

In the two runs of `Affine.Splits` the amounts that come from what the loop carries are combined in
the same way as the operands.
-/
import Mathlib
import Roundoff.ClosedForm.System
import Roundoff.Proofs.Affine.Pairs
import Roundoff.Proofs.Store
import Roundoff.Proofs.Transfer.Execution

namespace Roundoff

/-! ## Linear operations -/

/-- The operation forms the combination `α·x + β·y`; a single operand is combined with the constant
zero. -/
inductive Operation.Forms (o : Operation ℝ) : ℝ → Value ℝ → ℝ → Value ℝ → Prop
  | add {x y : Value ℝ} (h : o.reading = .arith .add x y) : o.Forms 1 x 1 y
  | sub {x y : Value ℝ} (h : o.reading = .arith .sub x y) : o.Forms 1 x (-1) y
  | mulLeft {c : ℝ} {y : Value ℝ} (h : o.reading = .arith .mul (.constFloat c) y) :
    o.Forms c y 0 (.constFloat 0)
  | mulRight {x : Value ℝ} {c : ℝ} (h : o.reading = .arith .mul x (.constFloat c)) :
    o.Forms c x 0 (.constFloat 0)
  | operand {x : Value ℝ} (h : o.reading = .operand x) : o.Forms 1 x 0 (.constFloat 0)

namespace Operation

variable {R : Type}

/-- Whether an operation rounds to the format of its result. -/
def isRounding : Operation R → Bool
  | .binary op _ _ => op.isRounding
  | .cast op _ => op.isRounding
  | _ => false

/-- Whether an operation is a comparison or a branch, which records no error. -/
def IsSilent : Operation R → Prop
  | .icmp .. | .fcmp .. | .br _ | .condBr .. | .unreachable => True
  | _ => False

variable {o : Operation ℝ} {x y : Value ℝ}

lemma reading_eq_add (h : o.reading = .arith .add x y) :
    ∃ op, (op = .add ∨ op = .fadd) ∧ o = .binary op x y := by
  unfold reading at h
  split at h
  · next op a b => cases op <;> simp_all
  · next op v => cases op <;> simp_all
  · cases h
  · cases h

lemma reading_eq_sub (h : o.reading = .arith .sub x y) :
    ∃ op, (op = .sub ∨ op = .fsub) ∧ o = .binary op x y := by
  unfold reading at h
  split at h
  · next op a b => cases op <;> simp_all
  · next op v => cases op <;> simp_all
  · cases h
  · cases h

lemma reading_eq_mul (h : o.reading = .arith .mul x y) :
    ∃ op, (op = .mul ∨ op = .fmul) ∧ o = .binary op x y := by
  unfold reading at h
  split at h
  · next op a b => cases op <;> simp_all
  · next op v => cases op <;> simp_all
  · cases h
  · cases h

lemma reading_eq_operand (h : o.reading = .operand x) :
    (∃ op s, (op = .shl ∨ op = .lshr ∨ op = .ashr) ∧ o = .binary op x s) ∨
      ∃ op, o = .cast op x := by
  unfold reading at h
  split at h
  · next op a b => cases op <;> simp_all
  · next op v => cases op <;> simp_all
  · cases h
  · cases h

lemma Forms.binary_or_cast {α β : ℝ} (h : o.Forms α x β y) :
    (∃ op lhs rhs, o = .binary op lhs rhs) ∨
      ∃ op, o = .cast op x ∧ α = 1 ∧ β = 0 ∧ y = .constFloat 0 := by
  cases h with
  | add h =>
    obtain ⟨op, -, rfl⟩ := reading_eq_add h
    exact Or.inl ⟨op, x, y, rfl⟩
  | sub h =>
    obtain ⟨op, -, rfl⟩ := reading_eq_sub h
    exact Or.inl ⟨op, x, y, rfl⟩
  | mulLeft h =>
    obtain ⟨op, -, rfl⟩ := reading_eq_mul h
    exact Or.inl ⟨op, _, _, rfl⟩
  | mulRight h =>
    obtain ⟨op, -, rfl⟩ := reading_eq_mul h
    exact Or.inl ⟨op, _, _, rfl⟩
  | operand h =>
    rcases reading_eq_operand h with ⟨op, s, -, rfl⟩ | ⟨op, rfl⟩
    · exact Or.inl ⟨op, _, _, rfl⟩
    · exact Or.inr ⟨op, rfl, rfl, rfl, rfl⟩

lemma Forms.not_silent {α β : ℝ} (h : o.Forms α x β y) : ¬ o.IsSilent := by
  rcases h.binary_or_cast with ⟨_, _, _, rfl⟩ | ⟨_, rfl, -⟩ <;> exact id

end Operation

/-- No initial error of the result is annotated. -/
def Instruction.StartsFresh (i : Instruction ℝ) : Prop :=
  ∀ info, i.scalarInfo? = some info → info.initialError = none

/-- The amount of an operand: that of its key, and zero for a constant. -/
def Value.amount (f : FunctionId) (L : Key → ℝ) (v : Value ℝ) : ℝ := ((Key.of? f v).map L).getD 0

/-- An operation forms only one combination. -/
lemma Operation.Forms.amount_eq {o : Operation ℝ} {α β α' β' : ℝ} {x y x' y' : Value ℝ}
    (h : o.Forms α x β y) (h' : o.Forms α' x' β' y') (f : FunctionId) (L : Key → ℝ) :
    α * x.amount f L + β * y.amount f L = α' * x'.amount f L + β' * y'.amount f L := by
  have hzero (c : ℝ) : (Value.constFloat c).amount f L = 0 := rfl
  cases h with
  | add h | sub h | mulLeft h | mulRight h | operand h =>
    cases h' with
    | add h' | sub h' | mulLeft h' | mulRight h' | operand h' =>
      cases h.symm.trans h' <;> simp only [hzero, mul_zero]

/-! ## Linear code -/

namespace Body

/-- Whether an operand of an instruction is known: a real constant, an integer constant if the
instruction is annotated with a format to read it in, or a value whose key is known. -/
def Reads (b : Body ℝ) (known : Set Key) (i : Instruction ℝ) : Value ℝ → Prop
  | .constFloat _ => True
  | .constInt _ => i.scalarInfo?.isSome
  | .inst id => .inst b.function.id id ∈ known
  | .arg index => .arg b.function.id index ∈ known
  | .global id => .global id ∈ known
  | .function _ | .undef => False

/-- The values that a phi reads on a visit. -/
def visible (b : Body ℝ) (i : Instruction ℝ) (edges : PhiEdges)
    (incoming : List (Value ℝ × BlockId)) : List (Value ℝ) :=
  (incoming.filter fun (_, pred) => b.reads i.block edges pred).map Prod.fst

/-- A phi of the condition block that receives the value `entry` when the loop is entered, and
`latch` from an iteration. -/
structure Carries (b : Body ℝ) (shape : LoopShape) (i : Instruction ℝ) (entry latch : Value ℝ) :
    Prop where
  /-- The instruction is one of the phis of the condition block. -/
  mem_phis : i ∈ b.function.phis shape.cond
  /-- The values that the instruction receives. -/
  incoming : ∃ incoming, i.op = .phi incoming ∧
    incomingFrom? incoming shape.preheader = some entry ∧
    incomingFrom? incoming shape.body = some latch ∧
    b.visible i .entry incoming = [entry] ∧ b.visible i .latch incoming = [latch]

namespace Carries

variable {b : Body ℝ} {shape : LoopShape} {i : Instruction ℝ} {entry entry' latch latch' : Value ℝ}

lemma not_silent (h : b.Carries shape i entry latch) : ¬ i.op.IsSilent := by
  obtain ⟨incoming, hop, -⟩ := h.incoming
  rw [hop]
  exact id

lemma not_forms (h : b.Carries shape i entry latch) {α β : ℝ} {x y : Value ℝ} :
    ¬ i.op.Forms α x β y := by
  intro hforms
  obtain ⟨incoming, hop, -⟩ := h.incoming
  rw [hop] at hforms
  rcases hforms.binary_or_cast with ⟨_, _, _, h⟩ | ⟨_, h, -⟩ <;> cases h

/-- A phi carries one value. -/
lemma unique (h : b.Carries shape i entry latch) (h' : b.Carries shape i entry' latch') :
    entry = entry' ∧ latch = latch' := by
  obtain ⟨incoming, hop, hpre, hbody, -⟩ := h.incoming
  obtain ⟨incoming', hop', hpre', hbody', -⟩ := h'.incoming
  cases hop.symm.trans hop'
  exact ⟨Option.some.inj (hpre.symm.trans hpre'), Option.some.inj (hbody.symm.trans hbody')⟩

end Carries

/-- Instructions that form linear combinations of what is known, carry values from one iteration to
the next, or compare and branch.  Phis are entered with values from outside the loop, and no result
is computed twice. -/
inductive LinearCode (b : Body ℝ) (shape : LoopShape) (outside : Set Key) :
    Set Key → List (Instruction ℝ) → Prop
  | nil {known : Set Key} : LinearCode b shape outside known []
  | silent {known : Set Key} {i : Instruction ℝ} {is : List (Instruction ℝ)}
    (hop : i.op.IsSilent) (hfresh : i.StartsFresh) (his : LinearCode b shape outside known is) :
    LinearCode b shape outside known (i :: is)
  | linear {known : Set Key} {i : Instruction ℝ} {is : List (Instruction ℝ)} {α β : ℝ}
    {x y : Value ℝ} (hforms : i.op.Forms α x β y) (hfresh : i.StartsFresh)
    (hround : i.op.isRounding → i.scalarInfo?.isSome) (hx : b.Reads known i x)
    (hy : b.Reads known i y) (hkey : b.key i ∉ known)
    (his : LinearCode b shape outside (insert (b.key i) known) is) :
    LinearCode b shape outside known (i :: is)
  | phi {known : Set Key} {i : Instruction ℝ} {is : List (Instruction ℝ)} {entry latch : Value ℝ}
    (hcarries : b.Carries shape i entry latch) (hfresh : i.StartsFresh)
    (hentry : b.Reads outside i entry) (hlatch : ∃ k ∉ known, b.keyOf? latch = some k)
    (hkey : b.key i ∉ known) (his : LinearCode b shape outside (insert (b.key i) known) is) :
    LinearCode b shape outside known (i :: is)

end Body

/-! ## States -/

/-- The state `a'` differs from `a` in the error recorded for a key; what else it differs in is no
error of a value. -/
structure Activation.Records (a a' : Activation ℝ) (k : Key) (g : Affine ℝ) : Prop where
  /-- The settled instructions. -/
  pinned_eq : a'.pinned = a.pinned
  /-- The error of the key. -/
  error_self : a'.store.error? k = some g
  /-- The errors of other keys. -/
  error_of_ne : ∀ l, l ≠ k → a'.store.error? l = a.store.error? l

/-- The states have the same errors. -/
structure Activation.Keeps (a a' : Activation ℝ) : Prop where
  /-- The settled instructions. -/
  pinned_eq : a'.pinned = a.pinned
  /-- The errors of values. -/
  error_eq : ∀ l, a'.store.error? l = a.store.error? l

/-- With the noise `ε`, the errors recorded in `s` for known keys split into the amounts `L` and
what the errors recorded in `s'` represent. -/
def Store.Splits (ε : Symbol → ℝ) (s s' : Store ℝ) (known : Set Key) (n : Symbol) (w : Supply)
    (L : Key → ℝ) : Prop :=
  ∀ k ∈ known, ∃ g z, s.error? k = some g ∧ s'.error? k = some z ∧ g.Splits ε z n w (L k)

variable {ε : Symbol → ℝ} {s s' : Store ℝ} {known : Set Key} {n n' : Symbol} {w w' : Supply}
  {L : Key → ℝ} {b : Body ℝ} {i : Instruction ℝ} {v x y : Value ℝ}

lemma Store.Splits.mono (h : s.Splits ε s' known n w L) (hn : n ≤ n') (hw : w ≤ w') :
    s.Splits ε s' known n' w' L := by
  intro k hk
  obtain ⟨g, z, hg, hz, hsplits⟩ := h k hk
  exact ⟨g, z, hg, hz, hsplits.mono hn hw⟩

namespace Body

lemma write_records (a : Activation ℝ) (i : Instruction ℝ) (g : Affine ℝ) :
    a.Records (b.write a i g) (b.key i) g where
  pinned_eq := rfl
  error_self := by rw [write, Store.error?_setError, if_pos rfl]
  error_of_ne l hl := by rw [write, Store.error?_setError, if_neg hl.symm]

lemma writeEstimate_records (a : Activation ℝ) (i : Instruction ℝ) (r : Range ℝ) (g : Affine ℝ) :
    a.Records (b.writeEstimate a i ⟨r, some g⟩) (b.key i) g where
  pinned_eq := rfl
  error_self := by rw [writeEstimate, Store.error?_set, if_pos rfl]
  error_of_ne l hl := by rw [writeEstimate, Store.error?_set, if_neg hl.symm]

/-! ## Operands -/

/-- A known operand splits into its amount and the rest. -/
lemma operand_pairs (hε : ∀ t, |ε t| ≤ 1) (hs : s.Splits ε s' known n w L)
    (hv : b.Reads known i v) {format format' : Option Format}
    (hformat : i.scalarInfo?.isSome → format = format' ∧ format.isSome) :
    Attempt.Pairs n w (b.operand s v format) (b.operand s' v format') fun o o' n' w' =>
      o.error.Splits ε o'.error n' w' (v.amount b.function.id L) := by
  have hrecord {k : Key} (hk : k ∈ known) :
      Attempt.Pairs n w (OptionT.mk (pure ((s.get? k).bind Estimate.toOperand?)))
        (OptionT.mk (pure ((s'.get? k).bind Estimate.toOperand?)))
        fun o o' n' w' => o.error.Splits ε o'.error n' w' (L k) := by
    obtain ⟨g, z, hg, hz, hsplits⟩ := hs k hk
    obtain ⟨e, he, hg⟩ := Option.bind_eq_some_iff.1 hg
    obtain ⟨e', he', hz⟩ := Option.bind_eq_some_iff.1 hz
    have ho : (s.get? k).bind Estimate.toOperand? = some ⟨e.range, g⟩ := by
      rw [he, Option.bind_some, Estimate.toOperand?, hg, Option.map_some]
    have ho' : (s'.get? k).bind Estimate.toOperand? = some ⟨e'.range, z⟩ := by
      rw [he', Option.bind_some, Estimate.toOperand?, hz, Option.map_some]
    rw [ho, ho']
    exact Fresh.pairs_pure ⟨_, _, rfl, rfl, hsplits⟩
  cases v with
  | inst id => exact hrecord hv
  | arg index => exact hrecord hv
  | global id => exact hrecord hv
  | constFloat c => exact Attempt.pairs_pure Affine.splits_zero
  | constInt raw =>
    obtain ⟨rfl, hsome⟩ := hformat hv
    obtain ⟨f, rfl⟩ := Option.isSome_iff_exists.1 hsome
    refine (Attempt.pairs_lift (Affine.withError_pairs (ℓ := 0) hε fun d hd => ?_)).bind
      fun g z n' w' _ _ hsplits => Attempt.pairs_pure hsplits
    rwa [sub_zero]
  | function id => exact hv.elim
  | undef => exact hv.elim

end Body

end Roundoff
