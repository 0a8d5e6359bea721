/-
# Two runs side by side

The same rules are run twice: once on the errors that a loop carries, and once on errors that have
been set to zero, which shows the rounding alone.  With the noise `ε` of the first run, an error `g`
of the first run *splits* into an amount `ℓ` that comes from what the loop carries, and a rest that
is represented by the error `z` of the second run: the symbols of the second run take over the
values that the corresponding symbols of the first run have.

The rules of linear arithmetic keep this relation, and the amounts are combined like the operands.
-/
import Mathlib
import Roundoff.Proofs.Affine.Noise
import Roundoff.Proofs.Affine.Order
import Roundoff.Transfer.Arithmetic

namespace Roundoff

variable {α β γ δ : Type} {n n' : Symbol} {w w' : Supply}

/-! ## Computations -/

/-- Running `m` from the symbol `n` and `m'` from a supply, the symbols that `m'` takes can be given
values such that the results are as wanted. -/
def Fresh.Pairs (n : Symbol) (w : Supply) (m : Fresh α) (m' : Fresh β)
    (P : α → β → Symbol → Supply → Prop) : Prop :=
  n ≤ (m n).2 ∧ Fresh.Yields w m' fun b w' => P (m n).1 b (m n).2 w'

namespace Fresh

variable {P : α → β → Symbol → Supply → Prop} {Q : γ → δ → Symbol → Supply → Prop}

lemma pairs_pure {a : α} {b : β} (h : P a b n w) : Pairs n w (pure a) (pure b) P :=
  ⟨le_rfl, yields_pure h⟩

/-- Runs that need no particular noise. -/
lemma pairs_of_le {m : Fresh α} {m' : Fresh β} (hn : n ≤ (m n).2) (hw : w.next ≤ (m' w.next).2)
    (h : ∀ w', w ≤ w' → P (m n).1 (m' w.next).1 (m n).2 w') : Pairs n w m m' P := by
  let w' : Supply := ⟨(m' w.next).2, w.noise, w.abs_noise_le⟩
  have hle : w ≤ w' := ⟨hw, fun _ _ => rfl⟩
  exact ⟨hn, w', hle, rfl, h w' hle⟩

lemma Pairs.bind {m : Fresh α} {m' : Fresh β} {f : α → Fresh γ} {f' : β → Fresh δ}
    (hm : Pairs n w m m' P)
    (hf : ∀ a b n' w', n ≤ n' → w ≤ w' → P a b n' w' → Pairs n' w' (f a) (f' b) Q) :
    Pairs n w (m >>= f) (m' >>= f') Q := by
  obtain ⟨hn, w', hw, hnext, hP⟩ := hm
  obtain ⟨hn', w'', hw', hnext', hQ⟩ := hf _ _ _ _ hn hw hP
  rw [← hnext] at hnext' hQ
  exact ⟨hn.trans hn', w'', hw.trans hw', hnext', hQ⟩

lemma Pairs.mono {P' : α → β → Symbol → Supply → Prop} {m : Fresh α} {m' : Fresh β}
    (hm : Pairs n w m m' P) (h : ∀ a b n' w', n ≤ n' → w ≤ w' → P a b n' w' → P' a b n' w') :
    Pairs n w m m' P' :=
  ⟨hm.1, hm.2.mono fun _ _ hw hP => h _ _ _ _ hm.1 hw hP⟩

end Fresh

/-- The same for computations that may lack data: both of them have data, and the results are as
wanted. -/
def Attempt.Pairs (n : Symbol) (w : Supply) (m : Attempt α) (m' : Attempt β)
    (P : α → β → Symbol → Supply → Prop) : Prop :=
  Fresh.Pairs n w m.run m'.run fun o o' n' w' =>
    ∃ a b, o = some a ∧ o' = some b ∧ P a b n' w'

namespace Attempt

variable {P : α → β → Symbol → Supply → Prop} {Q : γ → δ → Symbol → Supply → Prop}

lemma pairs_pure {a : α} {b : β} (h : P a b n w) : Pairs n w (pure a) (pure b) P :=
  Fresh.pairs_pure ⟨a, b, rfl, rfl, h⟩

lemma pairs_lift {m : Fresh α} {m' : Fresh β} (hm : Fresh.Pairs n w m m' P) :
    Pairs n w (OptionT.lift m) (OptionT.lift m') P :=
  hm.bind fun a b _ _ _ _ hP => Fresh.pairs_pure ⟨a, b, rfl, rfl, hP⟩

lemma Pairs.bind {m : Attempt α} {m' : Attempt β} {f : α → Attempt γ} {f' : β → Attempt δ}
    (hm : Pairs n w m m' P)
    (hf : ∀ a b n' w', n ≤ n' → w ≤ w' → P a b n' w' → Pairs n' w' (f a) (f' b) Q) :
    Pairs n w (m >>= f) (m' >>= f') Q := by
  have hrun {α β : Type} (m : Attempt α) (f : α → Attempt β) :
      (m >>= f).run = m.run >>= fun o => o.elim (pure none) fun a => (f a).run := by
    rw [OptionT.run_bind, Option.elimM]
  rw [Pairs, hrun, hrun]
  refine Fresh.Pairs.bind hm fun o o' n' w' hn hw h => ?_
  obtain ⟨a, b, rfl, rfl, hP⟩ := h
  exact hf a b n' w' hn hw hP

end Attempt

/-! ## Split errors -/

namespace Affine

/-- With the noise `ε`, the error `g` is the sum of the amount `ℓ` and of what the error `z`
represents. -/
structure Splits (ε : Symbol → ℝ) (g z : Affine ℝ) (n : Symbol) (w : Supply) (ℓ : ℝ) : Prop where
  /-- The terms of the error are in order. -/
  isOrdered : g.IsOrdered n
  /-- The rest is represented. -/
  rest : z.IsError w (g.value ε - ℓ)

variable {ε : Symbol → ℝ} {g z g' z' : Affine ℝ} {ℓ ℓ' : ℝ}

namespace Splits

lemma mono (h : g.Splits ε z n w ℓ) (hn : n ≤ n') (hw : w ≤ w') : g.Splits ε z n' w' ℓ :=
  ⟨h.isOrdered.mono hn, h.rest.mono hw⟩

lemma add (h : g.Splits ε z n w ℓ) (h' : g'.Splits ε z' n w ℓ') :
    (g.add g').Splits ε (z.add z') n w (ℓ + ℓ') where
  isOrdered := h.isOrdered.add h'.isOrdered
  rest := by
    rw [value_add, add_sub_add_comm]
    exact h.rest.add h'.rest

lemma sub (h : g.Splits ε z n w ℓ) (h' : g'.Splits ε z' n w ℓ') :
    (g.sub g').Splits ε (z.sub z') n w (ℓ - ℓ') where
  isOrdered := h.isOrdered.sub h'.isOrdered
  rest := by
    rw [value_sub, sub_sub_sub_comm]
    exact h.rest.sub h'.rest

end Splits

/-- No error splits into nothing. -/
lemma splits_zero : (zero : Affine ℝ).Splits ε zero n w 0 := by
  refine ⟨isOrdered_zero, ?_⟩
  rw [value_zero, sub_zero]
  exact isError_zero

/-- The part of a fresh error that is not covered by the amount is represented by a fresh error. -/
lemma withError_pairs (hε : ∀ s, |ε s| ≤ 1) {m m' : ℝ}
    (hm : ∀ d, |d| ≤ |m| → |d - ℓ| ≤ |m'|) :
    Fresh.Pairs n w (withError 0 m) (withError 0 m') fun g z n' w' => g.Splits ε z n' w' ℓ := by
  obtain ⟨hn, hordered⟩ := withError_isOrdered (n := n) m
  have hbound := hordered.abs_value_le hε
  rw [noiseBound_withError] at hbound
  exact ⟨hn, (withError_zero_yields (hm _ hbound)).mono fun _ _ _ hz => ⟨hordered, hz⟩⟩

/-- A fresh error that comes from what the loop carries. -/
lemma withError_carried_pairs (hε : ∀ s, |ε s| ≤ 1) (m m' : ℝ) :
    Fresh.Pairs n w (withError 0 m) (withError 0 m') fun g z n' w' =>
      ∃ ℓ, |ℓ| ≤ |m| ∧ g.Splits ε z n' w' ℓ := by
  obtain ⟨hn, hordered⟩ := withError_isOrdered (n := n) m
  have hbound := hordered.abs_value_le hε
  rw [noiseBound_withError] at hbound
  refine ⟨hn, (withError_zero_yields (d := 0) (by simp)).mono fun z w' _ hz =>
    ⟨_, hbound, hordered, ?_⟩⟩
  rwa [sub_self]

/-- A rounding error is part of the rest. -/
lemma Splits.addRounding_pairs (hε : ∀ s, |ε s| ≤ 1) (h : g.Splits ε z n w ℓ) (m : ℝ) :
    Fresh.Pairs n w (addRounding g m) (addRounding z m) fun g' z' n' w' =>
      g'.Splits ε z' n' w' ℓ := by
  unfold addRounding
  refine (withError_pairs (ℓ := 0) hε fun d hd => by rwa [sub_zero]).bind
    fun r r' n' w' hn hw hr => Fresh.pairs_pure ?_
  rw [← add_zero ℓ]
  exact (h.mono hn hw).add hr

/-! ## Multiples -/

/-- The form `g` is `c` times the error `e`, with no other symbols. -/
structure IsMultiple (c : ℝ) (g e : Affine ℝ) : Prop where
  /-- The values are multiples. -/
  value_eq : ∀ ε, g.value ε = c * e.value ε
  /-- The central value is zero. -/
  central_eq : g.central = 0
  /-- The terms are in order. -/
  isAscending : e.terms.IsAscending → g.terms.IsAscending
  /-- There are no other symbols. -/
  isBelow : ∀ {n}, e.terms.IsBelow n → g.terms.IsBelow n

/-- A multiple of a split error splits into the multiples. -/
lemma IsMultiple.splits {c : ℝ} (hg : g'.IsMultiple c g) (hz : z'.IsMultiple c z)
    (h : g.Splits ε z n w ℓ) : g'.Splits ε z' n w (c * ℓ) where
  isOrdered := ⟨hg.isAscending h.isOrdered.isAscending, hg.isBelow h.isOrdered.isBelow,
    hg.central_eq⟩
  rest := by
    refine ⟨⟨hz.isBelow h.rest.isBelow, ?_⟩, hz.central_eq⟩
    rw [hz.value_eq, h.rest.value_eq, hg.value_eq, mul_sub]

end Affine

namespace Terms

lemma merge_nil_right {f : Option ℝ → Option ℝ → Option ℝ} (hf : ∀ a, f (some a) none = none)
    (xs : Terms ℝ) : merge f xs [] = [] := by
  induction xs with
  | nil => rfl
  | cons x xs ih =>
    obtain ⟨s, a⟩ := x
    rw [merge, mergeStep, hf, push, ih]

end Terms

namespace Affine

variable {f g e : Affine ℝ} {c : ℝ}

@[simp] lemma nonzero_zero : nonzero (0 : ℝ) = none := by simp [nonzero]

lemma addNoise_zero (f : Affine ℝ) : f.addNoise 0 = pure f := by
  rw [addNoise, Number.abs_real, abs_zero, if_neg (lt_irrefl _)]

/-- A product with an exact number needs no further symbol. -/
lemma const_mul (c : ℝ) (e : Affine ℝ) :
    (const c).mul e
      = pure ⟨c * e.central, Terms.merge (productCoefficient c e.central) [] e.terms⟩ := by
  rw [mul, noiseBound_eq (const c)]
  change addNoise _ (0 * e.noiseBound) = _
  rw [zero_mul, addNoise_zero]
  rfl

/-- A product with no error is no error. -/
lemma mul_zero_eq (f : Affine ℝ) : f.mul zero = pure zero := by
  have hterms : Terms.merge (productCoefficient f.central (zero : Affine ℝ).central) f.terms []
      = [] :=
    Terms.merge_nil_right (fun a => by simp [productCoefficient, zero, const]) _
  rw [mul, noiseBound_eq zero]
  change addNoise ⟨f.central * 0, Terms.merge _ f.terms []⟩ (f.noiseBound * 0) = _
  rw [hterms, mul_zero, mul_zero, addNoise_zero]
  rfl

lemma isMultiple_const_mul (he : e.central = 0) (c : ℝ) :
    IsMultiple c ⟨c * e.central, Terms.merge (productCoefficient c e.central) [] e.terms⟩ e where
  value_eq ε := by
    rw [value, value_merge_productCoefficient, value, Terms.value_nil]
    ring
  central_eq := by rw [he, mul_zero]
  isAscending h := Terms.IsAscending.merge List.Pairwise.nil h
  isBelow h := Terms.IsBelow.merge Terms.isBelow_nil h

lemma isMultiple_zero (e : Affine ℝ) : (zero : Affine ℝ).IsMultiple 0 e where
  value_eq ε := by rw [value_zero, zero_mul]
  central_eq := rfl
  isAscending _ := List.Pairwise.nil
  isBelow _ := Terms.isBelow_nil

lemma IsMultiple.add {a b : ℝ} (hf : f.IsMultiple a e) (hg : g.IsMultiple b e) :
    (f.add g).IsMultiple (a + b) e where
  value_eq ε := by rw [value_add, hf.value_eq, hg.value_eq, add_mul]
  central_eq := by simp [Affine.add, hf.central_eq, hg.central_eq]
  isAscending h := (hf.isAscending h).merge (hg.isAscending h)
  isBelow h := (hf.isBelow h).merge (hg.isBelow h)

end Affine

lemma Range.toAffine_point (format : Format) (c : ℝ) :
    (Range.point format c).toAffine = pure (Affine.const c) := by
  have hpoint : Range.point format c = ⟨c, c, format⟩ := if_pos le_rfl
  rw [hpoint, toAffine, midpoint, radius]
  simp only [sub_self, zero_div, add_zero]
  exact Affine.addNoise_zero _

/-- The symbols that a range takes come from the supply. -/
lemma Range.le_toAffine (r : Range ℝ) (n : Symbol) : n ≤ (r.toAffine n).2 := by
  rw [toAffine, Affine.withError, Affine.addNoise]
  split
  · exact Nat.le_succ n
  · exact le_rfl

section Multiples

variable {format : Format} {c : ℝ} {r : Range ℝ} {e : Affine ℝ}

/-- The error of a product with an exact number on the left is a multiple. -/
lemma mulError_point_left (he : e.central = 0) (n : Symbol) :
    n ≤ (mulError (Range.point format c) Affine.zero r e n).2 ∧
      (mulError (Range.point format c) Affine.zero r e n).1.IsMultiple c e := by
  have hrun : mulError (Range.point format c) Affine.zero r e = do
      let _ ← r.toAffine
      let left ← (Affine.const c).mul e
      let both ← (Affine.const 0).mul e
      return (left.add Affine.zero).add both := by
    have hzero : (Affine.zero : Affine ℝ).mul e = (Affine.const 0).mul e := rfl
    simp only [mulError, Range.toAffine_point, pure_bind, hzero, Affine.const_mul,
      Affine.mul_zero_eq]
  rw [hrun]
  simp only [Affine.const_mul, pure_bind]
  refine ⟨r.le_toAffine n, ?_⟩
  have hsum := ((Affine.isMultiple_const_mul he c).add (Affine.isMultiple_zero e)).add
    (Affine.isMultiple_const_mul he 0)
  rwa [add_zero, add_zero] at hsum

/-- The error of a product with an exact number on the right is a multiple. -/
lemma mulError_point_right (he : e.central = 0) (n : Symbol) :
    n ≤ (mulError r e (Range.point format c) Affine.zero n).2 ∧
      (mulError r e (Range.point format c) Affine.zero n).1.IsMultiple c e := by
  have hrun : mulError r e (Range.point format c) Affine.zero = do
      let _ ← r.toAffine
      let right ← (Affine.const c).mul e
      return (Affine.zero.add right).add Affine.zero := by
    simp only [mulError, Range.toAffine_point, pure_bind, Affine.const_mul, Affine.mul_zero_eq]
  rw [hrun]
  simp only [Affine.const_mul, pure_bind]
  refine ⟨r.le_toAffine n, ?_⟩
  have hsum := ((Affine.isMultiple_zero e).add (Affine.isMultiple_const_mul he c)).add
    (Affine.isMultiple_zero e)
  rwa [zero_add, add_zero] at hsum

/-- A computation of multiples of split errors. -/
lemma Affine.Splits.multiple_pairs {ε : Symbol → ℝ} {g z : Affine ℝ} {ℓ : ℝ}
    {m m' : Fresh (Affine ℝ)}
    (h : g.Splits ε z n w ℓ) (hm : n ≤ (m n).2 ∧ (m n).1.IsMultiple c g)
    (hm' : w.next ≤ (m' w.next).2 ∧ (m' w.next).1.IsMultiple c z) :
    Fresh.Pairs n w m m' fun g' z' n' w' => g'.Splits ε z' n' w' (c * ℓ) :=
  Fresh.pairs_of_le hm.1 hm'.1 fun _ hw => hm.2.splits hm'.2 (h.mono hm.1 hw)

end Multiples

end Roundoff
