/-
# The noise bound is a norm

The noise bound of a form is the largest amount by which the form can deviate from its central
value: symbols are independent, so each term can be as large as it can be at the same time as all
others.  On forms the bound behaves like a norm.  A sum or difference is bounded by the sum of the
bounds, and by no less if the two sides have no symbol in common; where they have one, their terms
may cancel.

Terms of two forms meet only in `Terms.merge`.  What it makes of magnitudes is proved once, for all
combinations of coefficients that are linear in those of the two sides.
-/
import Mathlib
import Roundoff.Proofs.Affine.Order

namespace Roundoff

/-! ## Magnitudes of terms -/

namespace Terms

/-- The sum of the magnitudes of the coefficients. -/
def magnitude (ts : Terms ℝ) : ℝ := (ts.map fun t => |t.2|).sum

variable {f : Option ℝ → Option ℝ → Option ℝ} {α β : ℝ} {s : Symbol} {a : ℝ}

@[simp] lemma magnitude_nil : magnitude [] = 0 := rfl

@[simp] lemma magnitude_cons (t : Symbol × ℝ) (ts : Terms ℝ) :
    magnitude (t :: ts) = |t.2| + magnitude ts := by
  simp [magnitude]

@[simp] lemma magnitude_append (ts us : Terms ℝ) :
    magnitude (ts ++ us) = magnitude ts + magnitude us := by
  simp [magnitude]

@[simp] lemma magnitude_push (s : Symbol) (o : Option ℝ) (ts : Terms ℝ) :
    magnitude (push s o ts) = |o.getD 0| + magnitude ts := by
  cases o with
  | none => simp [push]
  | some a => simp [push]

/-! ### Merging -/

section Merge

-- the combined coefficients are a linear combination of those of the two sides
variable (hf : ∀ a b, (f a b).getD 0 = α * a.getD 0 + β * b.getD 0)

include hf

lemma abs_getD_le (a b : Option ℝ) :
    |(f a b).getD 0| ≤ |α| * |a.getD 0| + |β| * |b.getD 0| := by
  rw [hf, ← abs_mul, ← abs_mul]
  exact abs_add_le _ _

lemma abs_getD_left (a : ℝ) : |(f (some a) none).getD 0| = |α| * |a| := by
  simp [hf, abs_mul]

lemma abs_getD_right (b : ℝ) : |(f none (some b)).getD 0| = |β| * |b| := by
  simp [hf, abs_mul]

/-- Where there is no left side, the coefficients are multiplied. -/
lemma magnitude_merge_nil (ys : Terms ℝ) : magnitude (merge f [] ys) = |β| * magnitude ys := by
  induction ys with
  | nil => simp [merge]
  | cons t ys ih =>
    change magnitude (push t.1 (f none (some t.2)) (merge f [] ys)) = _
    rw [magnitude_push, magnitude_cons, abs_getD_right hf, ih, mul_add]

lemma magnitude_mergeStep_le {x : ℝ} {rest : Terms ℝ → Terms ℝ}
    (hrest : ∀ ys, magnitude (rest ys) ≤ x + |β| * magnitude ys) (ys : Terms ℝ) :
    magnitude (mergeStep f s a rest ys) ≤ |α| * |a| + x + |β| * magnitude ys := by
  induction ys with
  | nil =>
    rw [mergeStep, magnitude_push, abs_getD_left hf]
    linarith [hrest []]
  | cons t ys ih =>
    rw [mergeStep]
    split
    · rw [magnitude_push, abs_getD_left hf]
      linarith [hrest (t :: ys)]
    · rw [magnitude_cons, mul_add]
      split
      · rw [magnitude_push, abs_getD_right hf]
        linarith
      · rw [magnitude_push]
        have hboth := abs_getD_le hf (some a) (some t.2)
        simp only [Option.getD_some] at hboth
        linarith [hrest ys]

/-- Merging never makes more than the two sides have. -/
lemma magnitude_merge_le (xs ys : Terms ℝ) :
    magnitude (merge f xs ys) ≤ |α| * magnitude xs + |β| * magnitude ys := by
  induction xs generalizing ys with
  | nil => simp [magnitude_merge_nil hf]
  | cons t xs ih =>
    rw [merge, magnitude_cons, mul_add]
    exact magnitude_mergeStep_le hf ih ys

lemma magnitude_mergeStep_of_disjoint {x : ℝ} {rest : Terms ℝ → Terms ℝ} {us : List Symbol}
    (hrest : ∀ ys : Terms ℝ, (∀ u ∈ ys, u.1 ∉ us) →
      magnitude (rest ys) = x + |β| * magnitude ys) {ys : Terms ℝ} (hys : ∀ u ∈ ys, u.1 ∉ s :: us) :
    magnitude (mergeStep f s a rest ys) = |α| * |a| + x + |β| * magnitude ys := by
  have htail : ∀ u ∈ ys, u.1 ∉ us := fun u hu h => hys u hu (List.mem_cons_of_mem s h)
  induction ys with
  | nil =>
    rw [mergeStep, magnitude_push, abs_getD_left hf, hrest _ htail]
    ring
  | cons t ys ih =>
    rw [mergeStep]
    split
    · rw [magnitude_push, abs_getD_left hf, hrest _ htail]
      ring
    · split
      · obtain ⟨-, hys'⟩ := List.forall_mem_cons.1 hys
        rw [magnitude_push, abs_getD_right hf, ih hys' (List.forall_mem_cons.1 htail).2,
          magnitude_cons]
        ring
      · -- the symbols would be equal
        next hst hts =>
        have heq : t.1 = s := le_antisymm (not_lt.1 hst) (not_lt.1 hts)
        exact absurd (heq ▸ List.mem_cons_self) (hys t List.mem_cons_self)

/-- If no symbol occurs on both sides, then nothing can cancel. -/
lemma magnitude_merge_of_disjoint {xs ys : Terms ℝ} (h : ∀ t ∈ xs, ∀ u ∈ ys, t.1 ≠ u.1) :
    magnitude (merge f xs ys) = |α| * magnitude xs + |β| * magnitude ys := by
  have hys : ∀ u ∈ ys, u.1 ∉ xs.map Prod.fst := fun u hu hmem => by
    obtain ⟨t, ht, heq⟩ := List.mem_map.1 hmem
    exact h t ht u hu heq
  clear h
  induction xs generalizing ys with
  | nil => simp [magnitude_merge_nil hf]
  | cons t xs ih =>
    rw [merge, magnitude_cons, mul_add]
    exact magnitude_mergeStep_of_disjoint hf (fun _ => ih) hys

end Merge

/-- Terms that meet themselves leave nothing, if equal coefficients do. -/
lemma merge_self (hf : ∀ a, f (some a) (some a) = none) (ts : Terms ℝ) : merge f ts ts = [] := by
  induction ts with
  | nil => rfl
  | cons t ts ih =>
    obtain ⟨s, a⟩ := t
    rw [merge, mergeStep, if_neg (lt_irrefl s), if_neg (lt_irrefl s), hf, push, ih]

lemma magnitude_map_mul (ts : Terms ℝ) (k : ℝ) :
    magnitude (ts.map fun t => (t.1, t.2 * k)) = |k| * magnitude ts := by
  induction ts with
  | nil => simp
  | cons t ts ih =>
    rw [List.map_cons, magnitude_cons, magnitude_cons, ih, abs_mul]
    ring

end Terms

/-! ## Bounds of forms -/

namespace Affine

variable {f g : Affine ℝ}

lemma noiseBound_eq_magnitude (f : Affine ℝ) : f.noiseBound = f.terms.magnitude := noiseBound_eq f

@[simp] lemma noiseBound_zero : (zero : Affine ℝ).noiseBound = 0 := noiseBound_eq_magnitude zero

/-! ### Sums and differences -/

lemma noiseBound_add_le (f g : Affine ℝ) : (f.add g).noiseBound ≤ f.noiseBound + g.noiseBound := by
  have h := Terms.magnitude_merge_le getD_joinCoefficient_add f.terms g.terms
  simpa [noiseBound_eq_magnitude, add] using h

lemma noiseBound_sub_le (f g : Affine ℝ) : (f.sub g).noiseBound ≤ f.noiseBound + g.noiseBound := by
  have h := Terms.magnitude_merge_le getD_joinCoefficient_sub f.terms g.terms
  simpa [noiseBound_eq_magnitude, sub] using h

/-- Forms without a common symbol can be as large as possible at the same time. -/
lemma noiseBound_add_of_disjoint (h : ∀ t ∈ f.terms, ∀ u ∈ g.terms, t.1 ≠ u.1) :
    (f.add g).noiseBound = f.noiseBound + g.noiseBound := by
  have hmerge := Terms.magnitude_merge_of_disjoint getD_joinCoefficient_add h
  simpa [noiseBound_eq_magnitude, add] using hmerge

lemma noiseBound_sub_of_disjoint (h : ∀ t ∈ f.terms, ∀ u ∈ g.terms, t.1 ≠ u.1) :
    (f.sub g).noiseBound = f.noiseBound + g.noiseBound := by
  have hmerge := Terms.magnitude_merge_of_disjoint getD_joinCoefficient_sub h
  simpa [noiseBound_eq_magnitude, sub] using hmerge

/-- The noise of a form cancels against itself. -/
lemma terms_sub_self (f : Affine ℝ) : (f.sub f).terms = [] :=
  Terms.merge_self (fun a => by simp [joinCoefficient, nonzero]) f.terms

/-! ### Multiples and products -/

lemma noiseBound_scale (f : Affine ℝ) (k : ℝ) : (f.scale k).noiseBound = |k| * f.noiseBound := by
  rw [scale]
  split
  · next h => simp [beq_iff_eq.1 h]
  · rw [noiseBound_eq_magnitude, noiseBound_eq_magnitude]
    exact Terms.magnitude_map_mul f.terms k

lemma noiseBound_addNoise (f : Affine ℝ) (m : ℝ) (n : Symbol) :
    (f.addNoise m n).1.noiseBound = f.noiseBound + |m| := by
  rw [addNoise, Number.abs_real]
  split
  · change (⟨f.central, f.terms ++ [(n, |m|)]⟩ : Affine ℝ).noiseBound = _
    simp [noiseBound_eq_magnitude]
  · next hm =>
    rw [le_antisymm (not_lt.1 hm) (abs_nonneg m), add_zero]
    rfl

/-- The part of first order is no larger than what the central values make of the noise of each
other, and the fresh term is the product of the bounds. -/
lemma noiseBound_mul_le (f g : Affine ℝ) (n : Symbol) :
    (f.mul g n).1.noiseBound ≤
      |f.central| * g.noiseBound + |g.central| * f.noiseBound + f.noiseBound * g.noiseBound := by
  have hlinear := Terms.magnitude_merge_le (getD_productCoefficient f.central g.central) f.terms
    g.terms
  rw [mul, noiseBound_addNoise, abs_of_nonneg (mul_nonneg f.noiseBound_nonneg g.noiseBound_nonneg)]
  simp only [noiseBound_eq_magnitude]
  linarith

/-! ### The largest deviation -/

/-- If no symbol occurs twice, then some noise makes the form deviate by its noise bound. -/
lemma isGreatest_noiseBound (hf : f.terms.IsAscending) :
    IsGreatest ((fun ε => |f.value ε - f.central|) '' {ε | ∀ s, |ε s| ≤ 1}) f.noiseBound := by
  constructor
  · obtain ⟨ε, hε, hsum⟩ := hf.exists_value_eq
    refine ⟨ε, hε, ?_⟩
    dsimp only
    rw [value, add_sub_cancel_left, hsum, ← noiseBound_eq, abs_of_nonneg f.noiseBound_nonneg]
  · rintro _ ⟨ε, hε, rfl⟩
    exact f.abs_value_sub_central_le hε

/-- Every deviation up to the noise bound is brought about by some noise. -/
lemma exists_value_eq (hf : f.terms.IsAscending) {d : ℝ} (hd : |d| ≤ f.noiseBound) :
    ∃ ε : Symbol → ℝ, (∀ s, |ε s| ≤ 1) ∧ f.value ε = f.central + d := by
  obtain ⟨ε, hε, hsum⟩ := hf.exists_value_eq
  rw [← noiseBound_eq] at hsum
  -- the noise of the largest deviation, made smaller
  have hk : |d / f.noiseBound| ≤ 1 := by
    rw [abs_div, abs_of_nonneg f.noiseBound_nonneg]
    exact div_le_one_of_le₀ hd f.noiseBound_nonneg
  refine ⟨fun s => d / f.noiseBound * ε s, fun s => ?_, ?_⟩
  · rw [abs_mul]
    exact mul_le_one₀ hk (abs_nonneg _) (hε s)
  · rw [value, Terms.value_mul_noise, hsum, div_mul_cancel_of_imp]
    intro hzero
    exact abs_nonpos_iff.1 (hd.trans_eq hzero)

/-- **The noise bound is a norm.**  The bound of a sum or difference is at most the sum of the
bounds, and it is the sum if the forms have no symbol in common.  Multiples have the multiple of the
bound, one fresh term for all noise keeps it, and a form subtracted from itself leaves no noise.
The bound of a product is at most what the central values make of the bounds of each other and the
product of the bounds.  And the bound is the largest deviation from the central value that noise can
bring about. -/
theorem noiseBound_norm_laws (f g : Affine ℝ) (k : ℝ) (n : Symbol) (hf : f.terms.IsAscending) :
    (f.add g).noiseBound ≤ f.noiseBound + g.noiseBound ∧
      (f.sub g).noiseBound ≤ f.noiseBound + g.noiseBound ∧
      ((∀ t ∈ f.terms, ∀ u ∈ g.terms, t.1 ≠ u.1) →
        (f.add g).noiseBound = f.noiseBound + g.noiseBound ∧
          (f.sub g).noiseBound = f.noiseBound + g.noiseBound) ∧
      (f.scale k).noiseBound = |k| * f.noiseBound ∧
      (f.flatten n).1.noiseBound = f.noiseBound ∧
      (f.sub f).terms = [] ∧
      (f.mul g n).1.noiseBound ≤
        |f.central| * g.noiseBound + |g.central| * f.noiseBound + f.noiseBound * g.noiseBound ∧
      IsGreatest ((fun ε => |f.value ε - f.central|) '' {ε | ∀ s, |ε s| ≤ 1}) f.noiseBound :=
  ⟨noiseBound_add_le f g, noiseBound_sub_le f g,
    fun h => ⟨noiseBound_add_of_disjoint h, noiseBound_sub_of_disjoint h⟩, noiseBound_scale f k,
    noiseBound_flatten f n, terms_sub_self f, noiseBound_mul_le f g n, isGreatest_noiseBound hf⟩

end Affine

namespace OppositeNoise

/-- 3 up to 3. -/
noncomputable def left : Affine ℝ := ⟨Number.ofInt 3, [(0, Number.ofInt 2), (2, -1)]⟩

/-- 1 up to 6, where the first noise is the opposite of that on the left. -/
noncomputable def right : Affine ℝ := ⟨1, [(0, Number.ofInt (-2)), (1, Number.ofInt 4)]⟩

lemma isAscending_left : left.terms.IsAscending := by
  simp [left, Terms.IsAscending]

lemma noiseBound_left : left.noiseBound = 3 := by
  norm_num [Affine.noiseBound_eq, left, abs_of_pos]

lemma noiseBound_right : right.noiseBound = 6 := by
  norm_num [Affine.noiseBound_eq, right, abs_of_pos]

/-- What the laws say of the two forms.  Noise can move the left one by as much as 3. -/
theorem noiseBound_norm_laws_left : left.terms.IsAscending ∧ (left.add right).noiseBound ≤ 9 ∧
    (left.scale (-2)).noiseBound = 6 ∧ (left.sub left).terms = [] ∧
    (left.mul right 3).1.noiseBound ≤ 39 ∧
    IsGreatest ((fun ε => |left.value ε - 3|) '' {ε | ∀ s, |ε s| ≤ 1}) 3 := by
  obtain ⟨hadd, -, -, hscale, -, hself, hmul, hgreatest⟩ :=
    Affine.noiseBound_norm_laws left right (-2) 3 isAscending_left
  have hcentral : left.central = 3 := by norm_num [left]
  rw [noiseBound_left] at hscale
  rw [noiseBound_left, hcentral] at hgreatest
  rw [noiseBound_left, noiseBound_right] at hadd hmul
  refine ⟨isAscending_left, hadd.trans (by norm_num), hscale.trans ?_, hself, hmul.trans ?_,
    hgreatest⟩
  · norm_num [abs_of_pos]
  · norm_num [left, right, abs_of_pos]

end OppositeNoise

end Roundoff
