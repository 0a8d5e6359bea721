/-
# How large the errors of products are

The error of a product of `x` and `y` is `x·e + y·d + d·e`, where `d` and `e` are the errors of `x`
and `y`.  The first amount is an error over the symbols of `e`, the second one over those of `d`,
and each of them takes a new symbol; the third amount is a new symbol.  The bound of their sum is at
most the sum of their bounds, and it is the sum if the errors of the operands have no symbol in
common.

A value of which no range is known is recorded with a range that says that it is zero.  Phis and
loads skip such a range, but the rule for products computes with it.  If the range says that `x` is
zero, then the first amount is missing from what is recorded: the record is the bound of
`(y + e)·d`, no more and no less.  For every real `x` this bounds the error of the product if `y` is
exact, and otherwise no number does.
-/
import Mathlib
import Roundoff.Proofs.Affine.Size
import Roundoff.Proofs.Transfer.Steps
import Roundoff.Proofs.Transfer.Visits
import Roundoff.Transfer.Arithmetic

namespace Roundoff

section Amounts

variable {n n' : Symbol} {r₁ r₂ : Range ℝ} {e e₁ e₂ f g : Affine ℝ} {b b' : ℝ}

/-! ## The amounts -/

namespace Affine

/-- An error over the symbols of `e` and new ones from `n` to `n'`, of the bound `b`. -/
structure IsAmount (g e : Affine ℝ) (n n' : Symbol) (b : ℝ) : Prop where
  /-- Symbols are only taken. -/
  le : n ≤ n'
  /-- It is an error. -/
  isOrdered : g.IsOrdered n'
  /-- The symbols are old or new. -/
  symbols : ∀ t ∈ g.terms, t.1 ∈ e.terms.map Prod.fst ∨ n ≤ t.1
  /-- The bound. -/
  noiseBound_eq : g.noiseBound = b

/-- The product of the form that spans a range with an error. -/
lemma isAmount_toAffine_mul (r : Range ℝ) (m : Symbol) (he : e.IsOrdered n) :
    ((r.toAffine m).1.mul e n).1.IsAmount e n ((r.toAffine m).1.mul e n).2
      (r.maxAbs * e.noiseBound) where
  le := (IsOrdered.mul _ he).1
  isOrdered := (IsOrdered.mul _ he).2
  symbols t ht := (symbol_of_mem_mul _ he.central_eq ht).imp_right ge_of_eq
  noiseBound_eq := by
    rw [noiseBound_mul _ he.central_eq, Range.abs_central_add_noiseBound_toAffine]

/-- The product of two errors has new symbols only. -/
lemma isAmount_mul (he₁ : e₁.IsOrdered n) (he₂ : e₂.IsOrdered n) :
    (e₁.mul e₂ n).1.IsAmount zero n (e₁.mul e₂ n).2 (e₁.noiseBound * e₂.noiseBound) where
  le := (IsOrdered.mul _ he₂).1
  isOrdered := (IsOrdered.mul _ he₂).2
  symbols t ht := by
    rw [mul_eq_withError he₁.central_eq he₂.central_eq] at ht
    exact (symbol_of_mem_addNoise ht).imp (fun h => absurd h List.not_mem_nil) ge_of_eq
  noiseBound_eq := by
    rw [noiseBound_mul _ he₂.central_eq, he₁.central_eq, abs_zero, zero_add]

/-- Amounts that are made one after the other have a symbol in common only if the errors do over
which they are. -/
lemma IsAmount.symbol_ne (hf : f.IsAmount e₁ n n' b) {n'' : Symbol}
    (hg : g.IsAmount e₂ n' n'' b') (he₂ : e₂.terms.IsBelow n)
    (hdisjoint : ∀ t ∈ e₁.terms, ∀ u ∈ e₂.terms, t.1 ≠ u.1) :
    ∀ t ∈ f.terms, ∀ u ∈ g.terms, t.1 ≠ u.1 := by
  intro t ht u hu
  have htn := hf.isOrdered.isBelow t ht
  rcases hg.symbols u hu with hold | hnew
  · obtain ⟨u', hu', heq⟩ := List.mem_map.1 hold
    rcases hf.symbols t ht with hold' | hnew'
    · obtain ⟨t', ht', heq'⟩ := List.mem_map.1 hold'
      rw [← heq, ← heq']
      exact hdisjoint t' ht' u' hu'
    · rw [← heq]
      exact ((he₂ u' hu').trans_le hnew').ne'
  · exact (htn.trans_le hnew).ne

/-- New symbols only are none of those of earlier terms. -/
lemma IsAmount.symbol_ne_of_isBelow {ts : Terms ℝ} (hg : g.IsAmount zero n n' b)
    (hts : ts.IsBelow n) : ∀ t ∈ ts, ∀ u ∈ g.terms, t.1 ≠ u.1 := fun t ht u hu =>
  ((hts t ht).trans_le ((hg.symbols u hu).resolve_left List.not_mem_nil)).ne

end Affine

/-- The error of a product is the sum of three amounts that are made one after the other. -/
lemma mulError_eq_add (r₁ r₂ : Range ℝ) (he₁ : e₁.IsOrdered n) (he₂ : e₂.IsOrdered n) :
    ∃ (left right both : Affine ℝ) (n₁ n₂ n₃ n₄ : Symbol),
      left.IsAmount e₂ n₁ n₂ (r₁.maxAbs * e₂.noiseBound) ∧
      right.IsAmount e₁ n₂ n₃ (r₂.maxAbs * e₁.noiseBound) ∧
      both.IsAmount Affine.zero n₃ n₄ (e₁.noiseBound * e₂.noiseBound) ∧
      n ≤ n₁ ∧ (mulError r₁ e₁ r₂ e₂ n).1 = (left.add right).add both := by
  let a₁ := r₁.toAffine n
  let a₂ := r₂.toAffine a₁.2
  have le₁ : n ≤ a₂.2 := (r₁.le_toAffine n).trans (r₂.le_toAffine a₁.2)
  let left := a₁.1.mul e₂ a₂.2
  have hleft := Affine.isAmount_toAffine_mul r₁ n (he₂.mono le₁)
  let right := a₂.1.mul e₁ left.2
  have hright := Affine.isAmount_toAffine_mul r₂ a₁.2 (he₁.mono (le₁.trans hleft.le))
  have le₂ := le₁.trans (hleft.le.trans hright.le)
  exact ⟨left.1, right.1, (e₁.mul e₂ right.2).1, a₂.2, left.2, right.2, (e₁.mul e₂ right.2).2,
    hleft, hright, Affine.isAmount_mul (he₁.mono le₂) (he₂.mono le₂), le₁, rfl⟩

/-! ## Their sum -/

/-- **How large the error of a product is.** -/
theorem noiseBound_mulError (r₁ r₂ : Range ℝ) (he₁ : e₁.IsOrdered n) (he₂ : e₂.IsOrdered n) :
    |r₁.maxAbs * e₂.noiseBound - r₂.maxAbs * e₁.noiseBound| + e₁.noiseBound * e₂.noiseBound
        ≤ (mulError r₁ e₁ r₂ e₂ n).1.noiseBound ∧
      (mulError r₁ e₁ r₂ e₂ n).1.noiseBound
        ≤ r₁.maxAbs * e₂.noiseBound + r₂.maxAbs * e₁.noiseBound
          + e₁.noiseBound * e₂.noiseBound := by
  obtain ⟨left, right, both, n₁, n₂, n₃, n₄, hleft, hright, hboth, -, hrun⟩ :=
    mulError_eq_add r₁ r₂ he₁ he₂
  have hleft' := hleft.isOrdered.mono hright.le
  have hfirst := hleft'.add hright.isOrdered
  rw [hrun, Affine.noiseBound_add_of_disjoint (hboth.symbol_ne_of_isBelow hfirst.isBelow),
    hboth.noiseBound_eq, ← hleft.noiseBound_eq, ← hright.noiseBound_eq]
  exact ⟨add_le_add_left (Affine.noiseBound_sub_le_add hleft' hright.isOrdered) _,
    add_le_add_left (Affine.noiseBound_add_le left right) _⟩

/-- Errors without a common symbol are as large as possible at the same time, and so are the amounts
of first order. -/
theorem noiseBound_mulError_of_disjoint (r₁ r₂ : Range ℝ) (he₁ : e₁.IsOrdered n)
    (he₂ : e₂.IsOrdered n) (hdisjoint : ∀ t ∈ e₁.terms, ∀ u ∈ e₂.terms, t.1 ≠ u.1) :
    (mulError r₁ e₁ r₂ e₂ n).1.noiseBound
      = r₁.maxAbs * e₂.noiseBound + r₂.maxAbs * e₁.noiseBound
        + e₁.noiseBound * e₂.noiseBound := by
  obtain ⟨left, right, both, n₁, n₂, n₃, n₄, hleft, hright, hboth, hn, hrun⟩ :=
    mulError_eq_add r₁ r₂ he₁ he₂
  have hleft' := hleft.isOrdered.mono hright.le
  have hfirst := hleft'.add hright.isOrdered
  have hamounts := hleft.symbol_ne hright (he₁.isBelow.mono hn) fun t ht u hu =>
    (hdisjoint u hu t ht).symm
  rw [hrun, Affine.noiseBound_add_of_disjoint (hboth.symbol_ne_of_isBelow hfirst.isBelow),
    Affine.noiseBound_add_of_disjoint hamounts, hleft.noiseBound_eq, hright.noiseBound_eq,
    hboth.noiseBound_eq]

lemma central_mulError (r₁ r₂ : Range ℝ) (he₁ : e₁.IsOrdered n) (he₂ : e₂.IsOrdered n) :
    (mulError r₁ e₁ r₂ e₂ n).1.central = 0 := by
  obtain ⟨left, right, both, n₁, n₂, n₃, n₄, hleft, hright, hboth, -, hrun⟩ :=
    mulError_eq_add r₁ r₂ he₁ he₂
  have hsum := ((hleft.isOrdered.mono hright.le).add hright.isOrdered).mono hboth.le
  rw [hrun]
  exact (hsum.add hboth.isOrdered).central_eq

/-- **The size of products.**  The error of a product has no central value.  Its bound is at most
the sum of what the magnitudes of the operands make of the errors of each other and of the product
of the errors, with equality if the errors have no symbol in common.  In particular an exact factor
scales the bound of the other one by its magnitude. -/
theorem noiseBound_mulError_bounds (r₁ r₂ : Range ℝ) (he₁ : e₁.IsOrdered n)
    (he₂ : e₂.IsOrdered n) :
    (mulError r₁ e₁ r₂ e₂ n).1.central = 0 ∧
      (mulError r₁ e₁ r₂ e₂ n).1.noiseBound
        ≤ r₁.maxAbs * e₂.noiseBound + r₂.maxAbs * e₁.noiseBound
          + e₁.noiseBound * e₂.noiseBound ∧
      ((∀ t ∈ e₁.terms, ∀ u ∈ e₂.terms, t.1 ≠ u.1) →
        (mulError r₁ e₁ r₂ e₂ n).1.noiseBound
          = r₁.maxAbs * e₂.noiseBound + r₂.maxAbs * e₁.noiseBound
            + e₁.noiseBound * e₂.noiseBound) ∧
      ∀ (format : Format) (y : ℝ),
        (mulError r₁ e₁ (Range.point format y) Affine.zero n).1.noiseBound
            = |y| * e₁.noiseBound ∧
          (mulError (Range.point format y) Affine.zero r₂ e₂ n).1.noiseBound
            = |y| * e₂.noiseBound := by
  have hzero : (Affine.zero : Affine ℝ).noiseBound = 0 := Affine.noiseBound_eq _
  refine ⟨central_mulError r₁ r₂ he₁ he₂, (noiseBound_mulError r₁ r₂ he₁ he₂).2,
    noiseBound_mulError_of_disjoint r₁ r₂ he₁ he₂, fun format y => ⟨?_, ?_⟩⟩
  · rw [noiseBound_mulError_of_disjoint _ _ he₁ Affine.isOrdered_zero
      (fun _ _ _ hu => absurd hu List.not_mem_nil), Range.maxAbs_point, hzero]
    ring
  · rw [noiseBound_mulError_of_disjoint _ _ Affine.isOrdered_zero he₂
      (fun _ ht => absurd ht List.not_mem_nil), Range.maxAbs_point, hzero]
    ring

/-- Factors between -3 and 1 and between 1 and 2, which are off by 1/2 and 1/4 independently, have a
product that is off by 15/8. -/
theorem noiseBound_mulError_independent :
    (mulError (⟨-3, 1, Format.none⟩ : Range ℝ) ⟨0, [(0, 1 / 2)]⟩ ⟨1, 2, Format.none⟩
      ⟨0, [(1, 1 / 4)]⟩ 2).1.noiseBound = 15 / 8 := by
  have he₁ : (⟨0, [(0, 1 / 2)]⟩ : Affine ℝ).IsOrdered 2 :=
    ⟨List.pairwise_singleton _ _, Terms.isBelow_cons.2 ⟨Nat.two_pos, Terms.isBelow_nil⟩, rfl⟩
  have he₂ : (⟨0, [(1, 1 / 4)]⟩ : Affine ℝ).IsOrdered 2 :=
    ⟨List.pairwise_singleton _ _, Terms.isBelow_cons.2 ⟨Nat.one_lt_two, Terms.isBelow_nil⟩, rfl⟩
  obtain ⟨-, -, hequal, -⟩ := noiseBound_mulError_bounds (⟨-3, 1, Format.none⟩ : Range ℝ)
    ⟨1, 2, Format.none⟩ he₁ he₂
  rw [hequal (by simp)]
  norm_num [Affine.noiseBound_eq, Range.maxAbs]

end Amounts

section Rangeless

variable {n n₁ n₂ : Symbol}

/-! ## Errors of products -/

section Errors

variable {r r₁ r₂ : Range ℝ} {e₁ e₂ : Affine ℝ} {bound N M : ℝ}

/-- The number bounds the error of every product of a real number that is off by at most `N`, and a
number in the range that is off by at most `M`. -/
def BoundsProducts (bound N : ℝ) (r : Range ℝ) (M : ℝ) : Prop :=
  ∀ x y d e, |d| ≤ N → y ∈ r → |e| ≤ M → |(x + d) * (y + e) - x * y| ≤ bound

/-- If the known factor is not exact, then the error grows with the other factor beyond every bound.
-/
lemma not_boundsProducts (hr : r.lo ≤ r.hi) (hN : 0 ≤ N) (hM : 0 < M) (bound : ℝ) :
    ¬ BoundsProducts bound N r M := by
  intro h
  have hlarge := h ((|bound| + 1) / M) r.lo 0 M (by rwa [abs_zero]) ⟨le_rfl, hr⟩
    (abs_of_pos hM).le
  have herror : ((|bound| + 1) / M + 0) * (r.lo + M) - (|bound| + 1) / M * r.lo = |bound| + 1 := by
    field_simp
    ring
  rw [herror, abs_of_nonneg (by positivity)] at hlarge
  linarith [le_abs_self bound]

/-- The amounts that remain if one factor is taken for zero bound the error of the product if the
other factor is exact, and only then. -/
lemma boundsProducts_iff (hr : r.lo ≤ r.hi) (hN : 0 ≤ N) (hM : 0 ≤ M) :
    BoundsProducts (N * (r.maxAbs + M)) N r M ↔ M = 0 := by
  constructor
  · intro h
    by_contra hne
    exact not_boundsProducts hr hN (lt_of_le_of_ne hM (Ne.symm hne)) _ h
  · rintro rfl x y d e hd hy he
    obtain rfl : e = 0 := abs_nonpos_iff.1 he
    have herror : (x + d) * (y + 0) - x * y = d * y := by ring
    rw [herror, abs_mul, add_zero]
    exact mul_le_mul hd (Range.abs_le_maxAbs hy) (abs_nonneg _) hN

/-- If the range of the first factor says that it is zero, then only the other amounts are recorded.
-/
theorem noiseBound_mulError_left (r₂ : Range ℝ) (he₁ : e₁.IsOrdered n) (he₂ : e₂.IsOrdered n)
    (hzero : r₁.maxAbs = 0) :
    (mulError r₁ e₁ r₂ e₂ n).1.noiseBound = e₁.noiseBound * (r₂.maxAbs + e₂.noiseBound) := by
  obtain ⟨hlower, hupper⟩ := noiseBound_mulError r₁ r₂ he₁ he₂
  have hamount := mul_nonneg r₂.maxAbs_nonneg e₁.noiseBound_nonneg
  rw [hzero, zero_mul, zero_sub, abs_neg, abs_of_nonneg hamount] at hlower
  rw [hzero, zero_mul, zero_add] at hupper
  rw [le_antisymm hupper hlower]
  ring

/-- The same for the second factor. -/
theorem noiseBound_mulError_right (r₁ : Range ℝ) (he₁ : e₁.IsOrdered n) (he₂ : e₂.IsOrdered n)
    (hzero : r₂.maxAbs = 0) :
    (mulError r₁ e₁ r₂ e₂ n).1.noiseBound = e₂.noiseBound * (r₁.maxAbs + e₁.noiseBound) := by
  obtain ⟨hlower, hupper⟩ := noiseBound_mulError r₁ r₂ he₁ he₂
  have hamount := mul_nonneg r₁.maxAbs_nonneg e₂.noiseBound_nonneg
  rw [hzero, zero_mul, sub_zero, abs_of_nonneg hamount] at hlower
  rw [hzero, zero_mul, add_zero] at hupper
  rw [le_antisymm hupper hlower]
  ring

end Errors

/-! ## Visits of products -/

/-- Whether a binary operation multiplies. -/
def BinaryOp.IsProduct (op : BinaryOp) : Prop := op = .mul ∨ op = .fmul

namespace Body

variable {σ : Type} {b : Body ℝ} {h : CallHandler ℝ σ} {edges : PhiEdges} {a : Activation ℝ} {w : σ}
  {i : Instruction ℝ} {s : Store ℝ} {op : BinaryOp} {lhs rhs : Value ℝ} {x y : Operand ℝ}

/-- There are data for both operands of a binary operation, which are read from the symbol `n` on
and take the symbols up to `n'`. -/
def ReadsOperands (b : Body ℝ) (s : Store ℝ) (i : Instruction ℝ) (lhs rhs : Value ℝ) (n : Symbol)
    (x y : Operand ℝ) (n' : Symbol) : Prop :=
  let format := (b.resultRange? s i).map Range.format
  ∃ n₁, (b.operand s lhs format).run n = (some x, n₁) ∧
    (b.operand s rhs format).run n₁ = (some y, n')

lemma binaryError_product (hproduct : op.IsProduct)
    (hreads : b.ReadsOperands s i lhs rhs n x y n₂) :
    (b.binaryError s op lhs rhs (b.resultRange? s i)).run n
      = (some (mulError x.range x.error y.range y.error n₂).1,
        (mulError x.range x.error y.range y.error n₂).2) := by
  obtain ⟨n₁, hx, hy⟩ := hreads
  have hformat (format : Option Format) : op.firstFormat lhs format = format := by
    rcases hproduct with rfl | rfl <;> rfl
  rw [binaryError, OptionT.run_bind, Option.elimM, Fresh.bind_apply, hformat, hx]
  dsimp only [Option.elim]
  rcases hproduct with rfl | rfl
  all_goals
    rw [OptionT.run_bind, Option.elimM, Fresh.bind_apply, hy]
    rfl

/-- **What the visit of a product records**, if it has data for both factors. -/
theorem visit_product (hop : i.op = .binary op lhs rhs) (hproduct : op.IsProduct)
    (hpinned : a.pinned.contains i.id = false) (hgiven : i.isGiven = false)
    (hreads : b.ReadsOperands (b.annotatedStore a.store i) i lhs rhs n x y n₂) :
    (b.visit h edges a w i n).1.answer = .ok true ∧
      (b.visit h edges a w i n).1.state.store.error? (b.key i)
        = some (mulError x.range x.error y.range y.error n₂).1 := by
  rw [visit_eq_operate hpinned hgiven, operate, hop]
  dsimp only
  rw [attempt, Fresh.bind_apply, binary, OptionT.run_bind, Option.elimM, Fresh.bind_apply,
    binaryError_product hproduct hreads]
  refine ⟨rfl, ?_⟩
  change (Store.setError _ _ _).error? _ = _
  rw [Store.error?_setError, if_pos rfl]

/-- The operands of a well-formed store are well formed. -/
lemma ReadsOperands.isWellFormed (hreads : b.ReadsOperands s i lhs rhs n x y n₂)
    (hs : s.IsWellFormed n) : x.toEstimate.IsWellFormed n₂ ∧ y.toEstimate.IsWellFormed n₂ := by
  obtain ⟨n₁, hx, hy⟩ := hreads
  obtain ⟨le₁, hleft⟩ := attains_operand (b := b) s lhs ((b.resultRange? s i).map Range.format) n
  obtain ⟨le₂, hright⟩ := attains_operand (b := b) s rhs ((b.resultRange? s i).map Range.format) n₁
  rw [hx] at le₁ hleft
  rw [hy] at le₂ hright
  exact ⟨(hleft x rfl hs).mono le₂, hright y rfl (hs.mono le₁)⟩

/-- An annotation keeps a store well formed. -/
lemma isWellFormed_annotatedStore (hs : s.IsWellFormed n) (i : Instruction ℝ) :
    (b.annotatedStore s i).IsWellFormed n := by
  rw [annotatedStore]
  split
  · exact hs.setRange _ (ScalarInfo.lo_le_hi_rangeOrZero _)
  · exact hs

/-- What is recorded for the product of `x` and `y` is the bound of what remains of its error if `x`
is zero.  For other values of `x` this is a bound if `y` is exact, and only then. -/
structure TakesForZero (b : Body ℝ) (i : Instruction ℝ) (x y : Operand ℝ) (o : Outcome ℝ σ Bool) :
    Prop where
  /-- There are data. -/
  answer_eq : o.answer = .ok true
  /-- The record. -/
  error? : ∃ g, o.state.store.error? (b.key i) = some g ∧
    g.noiseBound = x.absError * (y.range.maxAbs + y.absError) ∧
    (BoundsProducts g.noiseBound x.absError y.range y.absError ↔ y.absError = 0)

/-- What a product records where the range of the factor `x` says that it is zero. -/
lemma takesForZero_of {o : Outcome ℝ σ Bool} {g : Affine ℝ} (hanswer : o.answer = .ok true)
    (hg : o.state.store.error? (b.key i) = some g)
    (hbound : g.noiseBound = x.absError * (y.range.maxAbs + y.absError))
    (hy : y.range.lo ≤ y.range.hi) : b.TakesForZero i x y o := by
  refine ⟨hanswer, g, hg, hbound, ?_⟩
  rw [hbound]
  exact boundsProducts_iff hy x.error.noiseBound_nonneg y.error.noiseBound_nonneg

section Visits

variable (hop : i.op = .binary op lhs rhs) (hproduct : op.IsProduct)
  (hpinned : a.pinned.contains i.id = false) (hgiven : i.isGiven = false)
  (hreads : b.ReadsOperands (b.annotatedStore a.store i) i lhs rhs n x y n₂)
  (hs : a.store.IsWellFormed n)

include hop hproduct hpinned hgiven hreads hs

/-- **The visit of a product takes a first factor without a range for zero.** -/
theorem visit_product_left (hzero : x.range.maxAbs = 0) :
    b.TakesForZero i x y (b.visit h edges a w i n).1 := by
  obtain ⟨hx, hy⟩ := hreads.isWellFormed (isWellFormed_annotatedStore hs i)
  obtain ⟨hanswer, herror⟩ : (b.visit h edges a w i n).1.answer = .ok true ∧ _ :=
    visit_product hop hproduct hpinned hgiven hreads
  have hbound := noiseBound_mulError_left y.range (hx.error _ rfl).isOrdered
    (hy.error _ rfl).isOrdered hzero
  exact takesForZero_of hanswer herror hbound hy.lo_le_hi

/-- The same for the second factor. -/
theorem visit_product_right (hzero : y.range.maxAbs = 0) :
    b.TakesForZero i y x (b.visit h edges a w i n).1 := by
  obtain ⟨hx, hy⟩ := hreads.isWellFormed (isWellFormed_annotatedStore hs i)
  obtain ⟨hanswer, herror⟩ : (b.visit h edges a w i n).1.answer = .ok true ∧ _ :=
    visit_product hop hproduct hpinned hgiven hreads
  have hbound := noiseBound_mulError_right x.range (hx.error _ rfl).isOrdered
    (hy.error _ rfl).isOrdered hzero
  exact takesForZero_of hanswer herror hbound hx.lo_le_hi

end Visits

end Body

end Rangeless

end Roundoff
