/-
# The size of sums and products

The noise bound of an error is the largest magnitude that the error can have.  So the noise bound of
a sum lies between the difference and the sum of those of the two errors, and it is their sum if the
errors have no symbol in common.  The noise bound of the product of a form and an error is that of
the error times the largest magnitude of the form, which for the form that spans a range is the
largest magnitude in the range.
-/
import Mathlib
import Roundoff.Proofs.Affine.Norm
import Roundoff.Proofs.Affine.Pairs
import Roundoff.Proofs.Affine.WellFormed

namespace Roundoff

variable {n n' : Symbol}

/-! ## Merging -/

namespace Terms

variable {f : Option ℝ → Option ℝ → Option ℝ}

/-- If the coefficients of the left side do not count, then merging leaves what it leaves without a
left side. -/
lemma merge_eq_merge_nil (hleft : ∀ a, f (some a) none = none)
    (hboth : ∀ a b, f (some a) (some b) = f none (some b)) (xs ys : Terms ℝ) :
    merge f xs ys = merge f [] ys := by
  induction xs generalizing ys with
  | nil => rfl
  | cons x xs ih =>
    obtain ⟨s, a⟩ := x
    change mergeStep f s a (merge f xs) ys = _
    induction ys with
    | nil => rw [mergeStep, hleft, push, ih]
    | cons y ys ihys =>
      obtain ⟨t, b⟩ := y
      rw [mergeStep]
      split
      · rw [hleft, push, ih]
      · split
        · rw [ihys]
          rfl
        · next hst hts =>
          obtain rfl : s = t := le_antisymm (not_lt.1 hts) (not_lt.1 hst)
          rw [hboth, ih]
          rfl

end Terms

namespace Affine

variable {f g : Affine ℝ}

/-- The part of a product with an error that is linear in the noise. -/
lemma noiseBound_merge_productCoefficient (x c : ℝ) (xs ys : Terms ℝ) :
    (⟨x, Terms.merge (productCoefficient c 0) xs ys⟩ : Affine ℝ).noiseBound
      = |c| * (⟨x, ys⟩ : Affine ℝ).noiseBound := by
  rw [Terms.merge_eq_merge_nil (fun a => by simp [productCoefficient])
    (fun a b => by simp [productCoefficient]), noiseBound_eq_magnitude, noiseBound_eq_magnitude]
  exact Terms.magnitude_merge_nil (getD_productCoefficient c 0) ys

/-! ## Products -/

/-- **The noise bound of the product of a form and an error.** -/
theorem noiseBound_mul (f : Affine ℝ) (hg : g.central = 0) (n : Symbol) :
    (f.mul g n).1.noiseBound = (|f.central| + f.noiseBound) * g.noiseBound := by
  obtain ⟨c, ts⟩ := g
  obtain rfl : c = 0 := hg
  rw [mul, noiseBound_addNoise, noiseBound_merge_productCoefficient, abs_mul,
    abs_of_nonneg (noiseBound_nonneg _), abs_of_nonneg (noiseBound_nonneg _), add_mul]
  rfl

/-- A product with an error is an error over the symbols of the latter and a new one, whatever the
other factor is like. -/
lemma IsOrdered.mul (f : Affine ℝ) (hg : g.IsOrdered n) :
    n ≤ (f.mul g n).2 ∧ (f.mul g n).1.IsOrdered (f.mul g n).2 := by
  obtain ⟨c, ts⟩ := g
  obtain ⟨hascending, hbelow, rfl : c = 0⟩ := hg
  rw [Affine.mul, mul_zero, Terms.merge_eq_merge_nil (fun a => by simp [productCoefficient])
    (fun a b => by simp [productCoefficient])]
  exact IsOrdered.addNoise
    ⟨Terms.IsAscending.merge .nil hascending, Terms.IsBelow.merge Terms.isBelow_nil hbelow, rfl⟩ _

lemma symbol_of_mem_addNoise {m : ℝ} {t : Symbol × ℝ} (ht : t ∈ (f.addNoise m n).1.terms) :
    t ∈ f.terms ∨ t.1 = n := by
  rw [addNoise] at ht
  split at ht
  · rcases List.mem_append.1 ht with ht | ht
    · exact .inl ht
    · rw [List.mem_singleton.1 ht]
      exact .inr rfl
  · exact .inl ht

lemma symbol_of_mem_mul (f : Affine ℝ) (hg : g.central = 0) {t : Symbol × ℝ}
    (ht : t ∈ (f.mul g n).1.terms) : t.1 ∈ g.terms.map Prod.fst ∨ t.1 = n := by
  rw [mul, hg, Terms.merge_eq_merge_nil (fun a => by simp [productCoefficient])
    (fun a b => by simp [productCoefficient])] at ht
  refine (symbol_of_mem_addNoise ht).imp_left fun ht => ?_
  exact (Terms.mem_symbols_merge (List.mem_map_of_mem ht)).resolve_left List.not_mem_nil

/-- The product of two errors is a fresh error. -/
lemma mul_eq_withError (hf : f.central = 0) (hg : g.central = 0) :
    f.mul g = withError 0 (f.noiseBound * g.noiseBound) := by
  have hterms : Terms.merge (productCoefficient 0 0) f.terms g.terms = [] := by
    rw [Terms.merge_eq_merge_nil (fun a => by simp [productCoefficient])
      (fun a b => by simp [productCoefficient])]
    induction g.terms with
    | nil => rfl
    | cons t ts ih =>
      change Terms.push t.1 (productCoefficient 0 0 none (some t.2)) (Terms.merge _ [] ts) = []
      rw [ih, productCoefficient, mul_zero, nonzero_zero, Terms.push]
  rw [mul, hf, hg, hterms, mul_zero]
  rfl

/-! ## Sums -/

/-- What is added to an error cannot take away more than its own bound. -/
lemma noiseBound_sub_le_add (hf : f.IsOrdered n) (hg : g.IsOrdered n) :
    |f.noiseBound - g.noiseBound| ≤ (f.add g).noiseBound := by
  refine abs_sub_le_iff.2 ⟨?_, ?_⟩
  · obtain ⟨ε, hε, hvalue⟩ := hf.exists_value_eq_noiseBound
    have hsum := (abs_le.1 ((hf.add hg).abs_value_le hε)).2
    have hother := (abs_le.1 (hg.abs_value_le hε)).1
    rw [value_add, hvalue] at hsum
    linarith
  · obtain ⟨ε, hε, hvalue⟩ := hg.exists_value_eq_noiseBound
    have hsum := (abs_le.1 ((hf.add hg).abs_value_le hε)).2
    have hother := (abs_le.1 (hf.abs_value_le hε)).1
    rw [value_add, hvalue] at hsum
    linarith

end Affine

/-! ## Ranges -/

namespace Range

variable {r : Range ℝ}

lemma maxAbs_nonneg (r : Range ℝ) : 0 ≤ r.maxAbs := by
  rw [maxAbs, Number.max_real, Number.abs_real]
  exact (abs_nonneg _).trans (le_max_left _ _)

lemma abs_le_maxAbs {x : ℝ} (hx : x ∈ r) : |x| ≤ r.maxAbs := by
  rw [maxAbs, Number.max_real, Number.abs_real, Number.abs_real]
  exact abs_le_max_abs_abs hx.1 hx.2

@[simp] lemma maxAbs_unknown : (unknown : Range ℝ).maxAbs = 0 := by
  simp [maxAbs, unknown]

@[simp] lemma maxAbs_point (format : Format) (y : ℝ) : (point format y).maxAbs = |y| := by
  simp [maxAbs, point, of]

/-- A value of which no range is annotated is given a range that says that the value is zero. -/
lemma maxAbs_rangeOrZero {info : ScalarInfo ℝ} (h : info.bounds = none) :
    info.rangeOrZero.maxAbs = 0 := by
  rw [ScalarInfo.rangeOrZero, ScalarInfo.range?, h]
  exact (maxAbs_point info.format 0).trans abs_zero

/-- The largest magnitude is reached at the end on the side of the middle. -/
lemma maxAbs_eq (r : Range ℝ) : r.maxAbs = |r.midpoint| + |r.radius| := by
  have hlo : r.lo = r.midpoint - r.radius := by
    simp only [midpoint, radius]
    ring
  have hhi : r.hi = r.midpoint + r.radius := by
    simp only [midpoint, radius, Number.ofInt_real]
    push_cast
    ring
  rw [maxAbs, Number.max_real, Number.abs_real, Number.abs_real, hlo, hhi]
  refine le_antisymm (max_le (abs_sub _ _) (abs_add_le _ _)) ?_
  rcases le_total 0 r.midpoint with hm | hm <;> rcases le_total 0 r.radius with hr | hr
  · rw [← abs_add_eq_add_abs_iff _ _ |>.2 (.inl ⟨hm, hr⟩)]
    exact le_max_right _ _
  · rw [← abs_neg r.radius, ← abs_add_eq_add_abs_iff _ _ |>.2 (.inl ⟨hm, neg_nonneg.2 hr⟩)]
    exact le_max_left _ _
  · rw [← abs_neg r.radius, ← abs_add_eq_add_abs_iff _ _ |>.2 (.inr ⟨hm, neg_nonpos.2 hr⟩)]
    exact le_max_left _ _
  · rw [← abs_add_eq_add_abs_iff _ _ |>.2 (.inr ⟨hm, hr⟩)]
    exact le_max_right _ _

/-- The form that spans a range has the largest magnitude of the range. -/
lemma abs_central_add_noiseBound_toAffine (r : Range ℝ) (n : Symbol) :
    |(r.toAffine n).1.central| + (r.toAffine n).1.noiseBound = r.maxAbs := by
  have hcentral : (r.toAffine n).1.central = r.midpoint := by
    rw [toAffine, Affine.withError, Affine.addNoise]
    split <;> rfl
  rw [hcentral, toAffine, Affine.noiseBound_withError, maxAbs_eq]

end Range

end Roundoff
