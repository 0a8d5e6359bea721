/-
# The derivatives of the elementary functions

Where an elementary function counts as defined on an interval, it is differentiable there, its
derivative is of one sign, and the magnitude of the derivative lies between the least and the
greatest magnitude at the points that are looked at.  The reason for the latter is that this
magnitude depends on the argument through a quantity, the *steepness*, whose extremes are obvious:
it grows with the argument or against it, or, for the inverse sine and cosine, with the distance
from zero.

By the mean value theorem the function then changes between two points of the interval by the
derivative of least magnitude times their difference, up to what the greatest magnitude adds.
-/
import Mathlib
import Roundoff.Elementary
import Roundoff.Proofs.Number.Exact

namespace Roundoff

namespace Elementary

open Set

variable {f : Elementary} {lo hi x y z : ℝ}

/-! ## The bounds that are found -/

namespace DerivativeBounds

variable {b : DerivativeBounds ℝ} {ds es : List ℝ}

/-- The magnitudes of some derivatives lie between the bounds, and the least one is that of one of
them. -/
structure IsOver (b : DerivativeBounds ℝ) (ds : List ℝ) : Prop where
  /-- The derivative of least magnitude is one of them. -/
  atLeast_mem : b.atLeast ∈ ds
  /-- Its magnitude is the lower bound. -/
  least_eq : b.least = |b.atLeast|
  /-- The lower bound. -/
  least_le : ∀ d ∈ ds, b.least ≤ |d|
  /-- The upper bound. -/
  le_greatest : ∀ d ∈ ds, |d| ≤ b.greatest

lemma isOver_singleton (d : ℝ) : IsOver ⟨|d|, |d|, d⟩ [d] where
  atLeast_mem := List.mem_singleton_self d
  least_eq := rfl
  least_le e he := by rw [List.mem_singleton.1 he]
  le_greatest e he := by rw [List.mem_singleton.1 he]

lemma IsOver.extend (h : b.IsOver ds) (d : ℝ) : (b.extend d).IsOver (ds ++ [d]) := by
  rw [DerivativeBounds.extend, Number.abs_real, Number.max_real]
  split
  · next hlt =>
    refine ⟨List.mem_append_right _ (List.mem_singleton_self d), rfl, fun e he => ?_,
      fun e he => ?_⟩
    · rcases List.mem_append.1 he with he | he
      · exact hlt.le.trans (h.least_le e he)
      · rw [List.mem_singleton.1 he]
    · rcases List.mem_append.1 he with he | he
      · exact (h.le_greatest e he).trans (le_max_left _ _)
      · rw [List.mem_singleton.1 he]
        exact le_max_right _ _
  · next hge =>
    refine ⟨List.mem_append_left _ h.atLeast_mem, h.least_eq, fun e he => ?_, fun e he => ?_⟩
    · rcases List.mem_append.1 he with he | he
      · exact h.least_le e he
      · rw [List.mem_singleton.1 he]
        exact not_lt.1 hge
    · rcases List.mem_append.1 he with he | he
      · exact (h.le_greatest e he).trans (le_max_left _ _)
      · rw [List.mem_singleton.1 he]
        exact le_max_right _ _

lemma IsOver.foldl_extend (h : b.IsOver ds) (es : List ℝ) :
    (es.foldl DerivativeBounds.extend b).IsOver (ds ++ es) := by
  induction es generalizing b ds with
  | nil => rwa [List.append_nil]
  | cons e es ih =>
    rw [List.foldl_cons, List.append_cons]
    exact ih (h.extend e)

end DerivativeBounds

/-- The points at which the derivative is looked at. -/
noncomputable def points (f : Elementary) (lo hi : ℝ) : List ℝ :=
  (f.extremePoints lo hi).1 :: (f.extremePoints lo hi).2

/-- Real derivatives are always finite, so that there are bounds wherever the function is defined.
-/
lemma isSome_derivativeBounds (f : Elementary) (lo hi : ℝ) :
    (f.derivativeBounds lo hi).isSome = f.isDefinedOn lo hi := by
  rw [derivativeBounds]
  cases f.isDefinedOn lo hi with
  | true => simp
  | false => rfl

lemma derivativeBounds_isOver {b : DerivativeBounds ℝ} (h : f.derivativeBounds lo hi = some b) :
    f.isDefinedOn lo hi = true ∧ b.IsOver ((f.points lo hi).map f.derivative) := by
  rw [derivativeBounds] at h
  split at h
  · next hdef =>
    dsimp only at h
    split at h
    · cases h
      exact ⟨hdef, (DerivativeBounds.isOver_singleton _).foldl_extend _⟩
    · cases h
  · cases h

/-! ## Domains -/

/-- Where a function is differentiable, and its derivative not zero. -/
def domain : Elementary → Set ℝ
  | reciprocal => {0}ᶜ
  | sqrt | log => Ioi 0
  | exp => univ
  | asin | acos => Ioo (-1) 1

/-- An interval on which a function counts as defined lies in its domain. -/
lemma Icc_subset_domain (h : f.isDefinedOn lo hi = true) : Icc lo hi ⊆ f.domain := by
  rintro x ⟨hlo, hhi⟩
  cases f with
  | reciprocal =>
    rcases Bool.or_eq_true_iff.1 h with h | h
    · exact ((of_decide_eq_true h).trans_le hlo).ne'
    · exact (hhi.trans_lt (of_decide_eq_true h)).ne
  | sqrt => exact (of_decide_eq_true h).trans_le hlo
  | log => exact (of_decide_eq_true h).trans_le hlo
  | exp => exact mem_univ x
  | asin =>
    obtain ⟨hl, hh⟩ := (Bool.and_eq_true_iff.1 h).imp of_decide_eq_true of_decide_eq_true
    exact ⟨hl.trans_le hlo, hhi.trans_lt hh⟩
  | acos =>
    obtain ⟨hl, hh⟩ := (Bool.and_eq_true_iff.1 h).imp of_decide_eq_true of_decide_eq_true
    exact ⟨hl.trans_le hlo, hhi.trans_lt hh⟩

lemma hasDerivAt_eval (hx : x ∈ f.domain) : HasDerivAt (fun t => f.eval t) (f.derivative x) x := by
  cases f with
  | reciprocal =>
    refine ((hasDerivAt_inv hx).congr_deriv ?_).congr_of_eventuallyEq ?_
    · change -(x ^ 2)⁻¹ = -1 / (x * x)
      rw [pow_two, neg_div, one_div]
    · exact .of_forall fun t => one_div t
  | sqrt =>
    refine (Real.hasDerivAt_sqrt (ne_of_gt hx)).congr_deriv ?_
    change 1 / (2 * √x) = (Number.ofDecimal 5 (-1) : ℝ) / √x
    rw [Number.ofDecimal_real, ← div_div]
    norm_num
  | log => exact (Real.hasDerivAt_log (ne_of_gt hx)).congr_deriv (one_div x).symm
  | exp => exact Real.hasDerivAt_exp x
  | asin =>
    refine (Real.hasDerivAt_arcsin hx.1.ne' hx.2.ne).congr_deriv ?_
    change 1 / √(1 - x ^ 2) = 1 / √(1 - x * x)
    rw [pow_two]
  | acos =>
    refine (Real.hasDerivAt_arccos hx.1.ne' hx.2.ne).congr_deriv ?_
    change -(1 / √(1 - x ^ 2)) = -1 / √(1 - x * x)
    rw [pow_two, neg_div]

/-! ## The sign of the derivative -/

/-- Whether a function increases or decreases. -/
def direction : Elementary → ℝ
  | reciprocal | acos => -1
  | sqrt | log | exp | asin => 1

lemma direction_eq (f : Elementary) : f.direction = 1 ∨ f.direction = -1 := by
  cases f <;> simp [direction]

lemma direction_mul_self (f : Elementary) : f.direction * f.direction = 1 := by
  rcases f.direction_eq with h | h <;> norm_num [h]

lemma abs_direction (f : Elementary) : |f.direction| = 1 := by
  rcases f.direction_eq with h | h <;> norm_num [h]

/-- The derivative is its magnitude with the sign of the function. -/
lemma derivative_eq (hx : x ∈ f.domain) : f.derivative x = f.direction * |f.derivative x| := by
  cases f with
  | reciprocal =>
    change -1 / (x * x) = -1 * |-1 / (x * x)|
    rw [abs_div, abs_mul_self, abs_neg, abs_one]
    ring
  | sqrt =>
    change (Number.ofDecimal 5 (-1) : ℝ) / √x = 1 * |(Number.ofDecimal 5 (-1) : ℝ) / √x|
    rw [one_mul, abs_of_nonneg]
    rw [Number.ofDecimal_real]
    positivity
  | log =>
    change 1 / x = 1 * |1 / x|
    rw [one_mul, abs_of_pos (one_div_pos.2 hx)]
  | exp =>
    change Real.exp x = 1 * |Real.exp x|
    rw [one_mul, Real.abs_exp]
  | asin =>
    change 1 / √(1 - x * x) = 1 * |1 / √(1 - x * x)|
    rw [one_mul, abs_of_nonneg (by positivity)]
  | acos =>
    change -1 / √(1 - x * x) = -1 * |-1 / √(1 - x * x)|
    rw [abs_div, abs_neg, abs_one, abs_of_nonneg (Real.sqrt_nonneg _)]
    ring

/-! ## The extremes of its magnitude -/

/-- A quantity with which the magnitude of the derivative grows. -/
def steepness (x : ℝ) : Elementary → ℝ
  | reciprocal => -|x|
  | sqrt | log => -x
  | exp => x
  | asin | acos => |x|

/-- The magnitude of the derivative grows with the steepness. -/
lemma abs_derivative_le (hx : x ∈ f.domain) (hy : y ∈ f.domain)
    (h : f.steepness x ≤ f.steepness y) : |f.derivative x| ≤ |f.derivative y| := by
  have hroot {x y : ℝ} (hy : y ∈ Ioo (-1 : ℝ) 1) (h : |x| ≤ |y|) :
      1 / √(1 - x * x) ≤ 1 / √(1 - y * y) := by
    have hpos : 0 < 1 - y * y := by nlinarith [hy.1, hy.2]
    refine one_div_le_one_div_of_le (Real.sqrt_pos.2 hpos) (Real.sqrt_le_sqrt ?_)
    have := abs_le_iff_mul_self_le.1 h
    linarith
  cases f with
  | reciprocal =>
    change |-1 / (x * x)| ≤ |-1 / (y * y)|
    rw [abs_div, abs_div, abs_mul_self, abs_mul_self, abs_neg, abs_one]
    exact one_div_le_one_div_of_le (mul_self_pos.2 hy)
      (abs_le_iff_mul_self_le.1 (neg_le_neg_iff.1 h))
  | sqrt =>
    change |(Number.ofDecimal 5 (-1) : ℝ) / √x| ≤ |(Number.ofDecimal 5 (-1) : ℝ) / √y|
    rw [abs_div, abs_div, abs_of_pos (Real.sqrt_pos.2 hx), abs_of_pos (Real.sqrt_pos.2 hy)]
    exact div_le_div_of_nonneg_left (abs_nonneg _) (Real.sqrt_pos.2 hy)
      (Real.sqrt_le_sqrt (neg_le_neg_iff.1 h))
  | log =>
    change |1 / x| ≤ |1 / y|
    rw [abs_of_pos (one_div_pos.2 hx), abs_of_pos (one_div_pos.2 hy)]
    exact one_div_le_one_div_of_le hy (neg_le_neg_iff.1 h)
  | exp =>
    change |Real.exp x| ≤ |Real.exp y|
    rw [Real.abs_exp, Real.abs_exp]
    exact Real.exp_le_exp.2 h
  | asin =>
    change |1 / √(1 - x * x)| ≤ |1 / √(1 - y * y)|
    rw [abs_of_nonneg (by positivity), abs_of_nonneg (by positivity)]
    exact hroot hy h
  | acos =>
    change |-1 / √(1 - x * x)| ≤ |-1 / √(1 - y * y)|
    rw [abs_div, abs_div, abs_neg, abs_one, abs_of_nonneg (Real.sqrt_nonneg _),
      abs_of_nonneg (Real.sqrt_nonneg _)]
    exact hroot hy h

lemma lo_mem_points : lo ∈ f.points lo hi := List.mem_cons_self

lemma hi_mem_points : hi ∈ f.points lo hi := by
  rw [points, extremePoints]
  split <;> simp

lemma points_subset (h : lo ≤ hi) : ∀ p ∈ f.points lo hi, p ∈ Icc lo hi := by
  intro p hp
  rw [points, extremePoints] at hp
  split at hp
  · next hzero =>
    simp only [List.mem_cons, List.not_mem_nil, or_false] at hp
    rcases hp with rfl | rfl | rfl
    · exact left_mem_Icc.2 h
    · exact right_mem_Icc.2 h
    · exact ⟨hzero.2.1.le, hzero.2.2.le⟩
  · simp only [List.mem_cons, List.not_mem_nil, or_false] at hp
    rcases hp with rfl | rfl
    · exact left_mem_Icc.2 h
    · exact right_mem_Icc.2 h

/-- The point of the interval that is nearest to zero is one of those looked at, if the interval may
lie on both sides of zero. -/
lemma exists_abs_le (hf : f = asin ∨ f = acos) (hx : x ∈ Icc lo hi) :
    ∃ p ∈ f.points lo hi, |p| ≤ |x| := by
  by_cases hzero : lo < 0 ∧ 0 < hi
  · refine ⟨0, ?_, by rw [abs_zero]; exact abs_nonneg x⟩
    rw [points, extremePoints, if_pos ⟨hf, hzero⟩]
    simp
  · rcases not_and_or.1 hzero with h | h
    · refine ⟨lo, lo_mem_points, ?_⟩
      rw [abs_of_nonneg (not_lt.1 h), abs_of_nonneg ((not_lt.1 h).trans hx.1)]
      exact hx.1
    · refine ⟨hi, hi_mem_points, ?_⟩
      rw [abs_of_nonpos (not_lt.1 h), abs_of_nonpos (hx.2.trans (not_lt.1 h))]
      exact neg_le_neg hx.2

/-- The point that is farthest from zero is one of the ends. -/
lemma exists_le_abs (f : Elementary) (hx : x ∈ Icc lo hi) :
    ∃ q ∈ f.points lo hi, |x| ≤ |q| := by
  rcases le_max_iff.1 (abs_le_max_abs_abs hx.1 hx.2) with h | h
  · exact ⟨lo, lo_mem_points, h⟩
  · exact ⟨hi, hi_mem_points, h⟩

/-- At some point looked at the function is no steeper than at a given point of the interval. -/
lemma exists_steepness_le (f : Elementary) (hx : x ∈ Icc lo hi) :
    ∃ p ∈ f.points lo hi, f.steepness p ≤ f.steepness x := by
  cases f with
  | reciprocal =>
    obtain ⟨p, hp, hle⟩ := exists_le_abs reciprocal hx
    exact ⟨p, hp, neg_le_neg hle⟩
  | sqrt => exact ⟨hi, hi_mem_points, neg_le_neg hx.2⟩
  | log => exact ⟨hi, hi_mem_points, neg_le_neg hx.2⟩
  | exp => exact ⟨lo, lo_mem_points, hx.1⟩
  | asin => exact exists_abs_le (.inl rfl) hx
  | acos => exact exists_abs_le (.inr rfl) hx

/-- At some point looked at it is at least as steep. -/
lemma exists_le_steepness (h : f.isDefinedOn lo hi = true) (hx : x ∈ Icc lo hi) :
    ∃ q ∈ f.points lo hi, f.steepness x ≤ f.steepness q := by
  cases f with
  | reciprocal =>
    -- the interval lies on one side of zero
    rcases Bool.or_eq_true_iff.1 h with h | h
    · have hlo : 0 < lo := of_decide_eq_true h
      refine ⟨lo, lo_mem_points, neg_le_neg ?_⟩
      rw [abs_of_pos hlo, abs_of_pos (hlo.trans_le hx.1)]
      exact hx.1
    · have hhi : hi < 0 := of_decide_eq_true h
      refine ⟨hi, hi_mem_points, neg_le_neg ?_⟩
      rw [abs_of_neg hhi, abs_of_neg (hx.2.trans_lt hhi)]
      exact neg_le_neg hx.2
  | sqrt => exact ⟨lo, lo_mem_points, neg_le_neg hx.1⟩
  | log => exact ⟨lo, lo_mem_points, neg_le_neg hx.1⟩
  | exp => exact ⟨hi, hi_mem_points, hx.2⟩
  | asin => exact exists_le_abs asin hx
  | acos => exact exists_le_abs acos hx

/-- Between the bounds lies the magnitude of the derivative at every point of the interval. -/
lemma abs_derivative_mem {b : DerivativeBounds ℝ} (h : f.derivativeBounds lo hi = some b)
    (hx : x ∈ Icc lo hi) : |f.derivative x| ∈ Icc b.least b.greatest := by
  obtain ⟨hdef, hover⟩ := derivativeBounds_isOver h
  have hdomain := Icc_subset_domain hdef
  have hpoints := points_subset (f := f) (hx.1.trans hx.2)
  obtain ⟨p, hp, hle⟩ := exists_steepness_le f hx
  obtain ⟨q, hq, hge⟩ := exists_le_steepness hdef hx
  constructor
  · exact (hover.least_le _ (List.mem_map_of_mem hp)).trans
      (abs_derivative_le (hdomain (hpoints p hp)) (hdomain hx) hle)
  · exact (abs_derivative_le (hdomain hx) (hdomain (hpoints q hq)) hge).trans
      (hover.le_greatest _ (List.mem_map_of_mem hq))

/-- The derivative of least magnitude has the sign of the function, too. -/
lemma atLeast_eq {b : DerivativeBounds ℝ} (h : f.derivativeBounds lo hi = some b)
    (hle : lo ≤ hi) : b.atLeast = f.direction * b.least := by
  obtain ⟨hdef, hover⟩ := derivativeBounds_isOver h
  obtain ⟨p, hp, hat⟩ := List.mem_map.1 hover.atLeast_mem
  rw [hover.least_eq, ← hat]
  exact derivative_eq (Icc_subset_domain hdef (points_subset hle p hp))

/-! ## Changes of the function -/

lemma continuousOn_eval (h : f.isDefinedOn lo hi = true) :
    ContinuousOn (fun t => f.eval t) (Icc lo hi) := fun _ hx =>
  (hasDerivAt_eval (Icc_subset_domain h hx)).continuousAt.continuousWithinAt

/-- The mean value theorem, for two points in either order. -/
lemma exists_eval_sub_eq (h : f.isDefinedOn lo hi = true) (hx : x ∈ Icc lo hi)
    (hz : z ∈ Icc lo hi) :
    ∃ ξ ∈ Icc lo hi, f.eval z - f.eval x = f.derivative ξ * (z - x) := by
  have hmean {a c : ℝ} (ha : a ∈ Icc lo hi) (hc : c ∈ Icc lo hi) (hac : a < c) :
      ∃ ξ ∈ Icc lo hi, f.eval c - f.eval a = f.derivative ξ * (c - a) := by
    have hsub : Icc a c ⊆ Icc lo hi := Icc_subset_Icc ha.1 hc.2
    obtain ⟨ξ, hξ, hslope⟩ := exists_hasDerivAt_eq_slope (fun t => f.eval t) f.derivative hac
      ((continuousOn_eval h).mono hsub) fun t ht =>
        hasDerivAt_eval (Icc_subset_domain h (hsub (Ioo_subset_Icc_self ht)))
    refine ⟨ξ, hsub (Ioo_subset_Icc_self hξ), ?_⟩
    rw [hslope, div_mul_cancel₀ _ (sub_pos.2 hac).ne']
  rcases lt_trichotomy x z with hlt | rfl | hgt
  · exact hmean hx hz hlt
  · exact ⟨x, hx, by rw [sub_self, sub_self, mul_zero]⟩
  · obtain ⟨ξ, hξ, heq⟩ := hmean hz hx hgt
    exact ⟨ξ, hξ, by linarith⟩

/-- **Linearization.**  Between two points of the interval the function changes by the derivative of
least magnitude times their difference, up to the difference of the bounds times their distance. -/
theorem abs_change_sub_le {b : DerivativeBounds ℝ} (h : f.derivativeBounds lo hi = some b)
    (hx : x ∈ Icc lo hi) (hz : z ∈ Icc lo hi) :
    |f.eval z - f.eval x - (z - x) * b.atLeast| ≤ (b.greatest - b.least) * |z - x| := by
  have hdef := (derivativeBounds_isOver h).1
  obtain ⟨ξ, hξ, hchange⟩ := exists_eval_sub_eq hdef hx hz
  obtain ⟨hleast, hgreatest⟩ := abs_derivative_mem h hξ
  have hrest : f.eval z - f.eval x - (z - x) * b.atLeast
      = f.direction * (|f.derivative ξ| - b.least) * (z - x) := by
    have hslope := derivative_eq (Icc_subset_domain hdef hξ)
    rw [hchange, atLeast_eq h (hx.1.trans hx.2)]
    linear_combination (z - x) * hslope
  rw [hrest, abs_mul, abs_mul, abs_direction, one_mul, abs_of_nonneg (sub_nonneg.2 hleast)]
  exact mul_le_mul_of_nonneg_right (sub_le_sub_right hgreatest _) (abs_nonneg _)

/-- The function is monotonic in its direction. -/
lemma direction_mul_eval_le (h : f.isDefinedOn lo hi = true) (hx : x ∈ Icc lo hi)
    (hz : z ∈ Icc lo hi) (hle : x ≤ z) : f.direction * f.eval x ≤ f.direction * f.eval z := by
  obtain ⟨ξ, hξ, hchange⟩ := exists_eval_sub_eq h hx hz
  have hamount : f.direction * (f.eval z - f.eval x) = |f.derivative ξ| * (z - x) := by
    rw [hchange, derivative_eq (Icc_subset_domain h hξ), abs_mul, abs_direction, abs_abs, one_mul,
      ← mul_assoc, ← mul_assoc, direction_mul_self, one_mul]
  have hnonneg := mul_nonneg (abs_nonneg (f.derivative ξ)) (sub_nonneg.2 hle)
  rw [← hamount, mul_sub] at hnonneg
  linarith

end Elementary

end Roundoff
