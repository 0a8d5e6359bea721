/-
# The errors and the images of the elementary functions

An elementary function changes between `x` and `x + e` by the derivative of least magnitude times
`e`, up to what the greatest magnitude adds.  The error keeps the first amount, over the symbols of
`e`, and one fresh symbol makes up for the second.

A continuous function that is monotonic takes on an interval exactly the values between those at the
ends, which is the range that is computed for it.
-/
import Mathlib
import Roundoff.Proofs.Affine.Noise
import Roundoff.Proofs.Elementary.Derivative

namespace Roundoff

namespace Elementary

open Set

variable {f : Elementary} {r q : Range ℝ} {e g : Affine ℝ} {n n' : Symbol} {w : Supply} {x d : ℝ}

/-! ## Errors -/

/-- What the linear part of an error leaves is within the magnitude of the fresh term. -/
lemma abs_eval_add_sub_le {b : DerivativeBounds ℝ}
    (h : f.derivativeBounds (r.lo - e.noiseBound) (r.hi + e.noiseBound) = some b) (hx : x ∈ r)
    (hd : |d| ≤ e.noiseBound) :
    |f.eval (x + d) - f.eval x - d * b.atLeast| ≤ |(b.greatest - b.least) * e.noiseBound| := by
  obtain ⟨hlo, hhi⟩ := hx
  obtain ⟨hdlo, hdhi⟩ := abs_le.1 hd
  have hspread := e.noiseBound_nonneg
  have hexact : x ∈ Icc (r.lo - e.noiseBound) (r.hi + e.noiseBound) :=
    ⟨by linarith, by linarith⟩
  have herroneous : x + d ∈ Icc (r.lo - e.noiseBound) (r.hi + e.noiseBound) :=
    ⟨by linarith, by linarith⟩
  have hchange := abs_change_sub_le h hexact herroneous
  obtain ⟨hleast, hgreatest⟩ := abs_derivative_mem h hexact
  rw [add_sub_cancel_left] at hchange
  calc |f.eval (x + d) - f.eval x - d * b.atLeast| ≤ (b.greatest - b.least) * |d| := hchange
    _ ≤ (b.greatest - b.least) * e.noiseBound :=
      mul_le_mul_of_nonneg_left hd (sub_nonneg.2 (hleast.trans hgreatest))
    _ ≤ |(b.greatest - b.least) * e.noiseBound| := le_abs_self _

/-- **The error of an elementary function.**  With a value for the fresh symbol it is the difference
between what the function makes of the erroneous and of the exact argument. -/
theorem errorOf_yields (hx : x ∈ r) (he : e.IsError w d) :
    Attempt.Yields w (OptionT.mk (f.errorOf r e)) fun g w' =>
      g.IsError w' (f.eval (x + d) - f.eval x) := by
  change Fresh.Yields w (f.errorOf r e) _
  simp only [errorOf]
  split
  · exact Fresh.yields_pure nofun
  · next b hb =>
    have hlinear : (⟨0, (e.scale b.atLeast).terms⟩ : Affine ℝ).value w.noise = d * b.atLeast := by
      rw [← he.value_eq, Affine.value, Affine.value, he.central_eq, Affine.value_terms_scale,
        zero_add, zero_add]
    have hrest := abs_eval_add_sub_le hb hx he.abs_le_noiseBound
    rw [← hlinear] at hrest
    refine (Affine.addNoise_yields (f := ⟨0, (e.scale b.atLeast).terms⟩)
      (Affine.isBelow_terms_scale he.isBelow _) hrest).bind fun g w' _ hg => Fresh.yields_pure ?_
    rintro _ ⟨⟩
    exact ⟨hg.1, hg.2⟩

/-- The error takes one symbol at most. -/
lemma errorOf_le_succ (f : Elementary) (r : Range ℝ) (e : Affine ℝ) (n : Symbol) :
    (f.errorOf r e n).2 ≤ n + 1 := by
  simp only [errorOf]
  cases f.derivativeBounds (r.lo - e.noiseBound) (r.hi + e.noiseBound) with
  | none => exact Nat.le_succ n
  | some b =>
    change (Affine.addNoise _ _ n).2 ≤ n + 1
    rw [Affine.addNoise]
    split
    · exact le_rfl
    · exact Nat.le_succ n

/-- There is an error if the function is defined on the widened range. -/
lemma isSome_errorOf (f : Elementary) (r : Range ℝ) (e : Affine ℝ) (n : Symbol) :
    (f.errorOf r e n).1.isSome = f.isDefinedOn (r.lo - e.noiseBound) (r.hi + e.noiseBound) := by
  rw [← isSome_derivativeBounds]
  simp only [errorOf]
  cases f.derivativeBounds (r.lo - e.noiseBound) (r.hi + e.noiseBound) with
  | none => rfl
  | some b => rfl

/-- The fresh symbol has a value that explains the difference, whatever the values of the symbols in
use. -/
lemma exists_value_errorOf_eq (hcentral : e.central = 0) (he : e.terms.IsBelow n)
    (hg : f.errorOf r e n = (some g, n')) (hx : x ∈ r) {ε : Symbol → ℝ} (hε : ∀ s < n, |ε s| ≤ 1) :
    ∃ t, |t| ≤ 1 ∧
      g.value (Function.update ε n t) = f.eval (x + e.value ε) - f.eval x := by
  obtain ⟨w, rfl, hw⟩ := exists_supply hε
  have herror : e.IsError w (e.value ε) := ⟨⟨he, Affine.value_congr he hw⟩, hcentral⟩
  obtain ⟨w', hle, hnext, hresult⟩ := errorOf_yields (f := f) hx herror
  change (f.errorOf r e w.next).2 = w'.next at hnext
  obtain ⟨⟨hbelow, hvalue⟩, -⟩ := hresult g (congrArg Prod.fst hg)
  have hsucc := errorOf_le_succ f r e w.next
  rw [hnext] at hsucc
  refine ⟨w'.noise w.next, w'.abs_noise_le _, ?_⟩
  rw [← hvalue]
  refine Affine.value_congr hbelow fun s hs => ?_
  rcases (Nat.lt_succ_iff.1 (hs.trans_le hsucc)).lt_or_eq with hlt | rfl
  · rw [Function.update_of_ne hlt.ne, hle.2 s hlt, hw s hlt]
  · rw [Function.update_self]

/-! ## Images -/

/-- Between the ends of an interval the values are between those at the ends. -/
lemma eval_mem_uIcc {lo hi : ℝ} (h : f.isDefinedOn lo hi = true) (hx : x ∈ Icc lo hi) :
    f.eval x ∈ uIcc (f.eval lo) (f.eval hi) := by
  have hle := hx.1.trans hx.2
  have hleft := direction_mul_eval_le h (left_mem_Icc.2 hle) hx hx.1
  have hright := direction_mul_eval_le h hx (right_mem_Icc.2 hle) hx.2
  rcases f.direction_eq with hdir | hdir
  · rw [hdir] at hleft hright
    exact mem_uIcc.2 (.inl ⟨by linarith, by linarith⟩)
  · rw [hdir] at hleft hright
    exact mem_uIcc.2 (.inr ⟨by linarith, by linarith⟩)

lemma image_Icc_eq_uIcc {lo hi : ℝ} (h : f.isDefinedOn lo hi = true) (hle : lo ≤ hi) :
    (fun t => f.eval t) '' Icc lo hi = uIcc (f.eval lo) (f.eval hi) := by
  refine Subset.antisymm (image_subset_iff.2 fun x hx => eval_mem_uIcc h hx) ?_
  have hcont := continuousOn_eval h
  rw [← uIcc_of_le hle] at hcont ⊢
  exact intermediate_value_uIcc hcont

/-- **The range that is computed for a function** has exactly the values of the function as its
members. -/
theorem setOf_mem_image (hq : f.image r = some q) (hr : r.lo ≤ r.hi) :
    {y | y ∈ q} = (fun t => f.eval t) '' {x | x ∈ r} := by
  rw [image] at hq
  split at hq
  · next hdef =>
    cases hq
    have hbounds : min (f.eval r.lo) (f.eval r.hi) ≤ max (f.eval r.lo) (f.eval r.hi) :=
      min_le_max
    have hordered : {x | x ∈ r} = Icc r.lo r.hi := rfl
    rw [hordered, image_Icc_eq_uIcc hdef hr, Number.min_real, Number.max_real, Range.of,
      if_pos hbounds]
    rfl
  · cases hq

/-! ## Both -/

/-- **Errors and images of the elementary functions.**  Where there is an error, for every argument
in the range and all values of the symbols in use the fresh symbol has a value that makes it the
difference between what the function makes of the erroneous and of the exact argument.  Where there
is an image, its members are exactly the values of the function. -/
theorem errorOf_image_exact (f : Elementary) (r : Range ℝ) :
    (∀ (e g : Affine ℝ) (n n' : Symbol), e.central = 0 → e.terms.IsBelow n →
      f.errorOf r e n = (some g, n') →
      ∀ x ∈ r, ∀ ε : Symbol → ℝ, (∀ s < n, |ε s| ≤ 1) →
        ∃ t, |t| ≤ 1 ∧
          g.value (Function.update ε n t) = f.eval (x + e.value ε) - f.eval x) ∧
    (∀ q, r.lo ≤ r.hi → f.image r = some q →
      {y | y ∈ q} = (fun t => f.eval t) '' {x | x ∈ r}) :=
  ⟨fun _ _ _ _ hcentral he hg _ hx _ hε => exists_value_errorOf_eq hcentral he hg hx hε,
    fun _ hr hq => setOf_mem_image hq hr⟩

/-- The inverse sine on a range on both sides of zero, for an argument 1/2 that is off by -1/4: the
error can be the difference of the two values, and the image is that of the range. -/
theorem asin_errorOf_image :
    (∃ g n' t,
        asin.errorOf (⟨-1 / 4, 1 / 2, Format.none⟩ : Range ℝ) ⟨0, [(0, 1 / 4)]⟩ 1 = (some g, n') ∧
        |t| ≤ 1 ∧
        g.value (Function.update (fun _ => -1) 1 t) = Real.arcsin (1 / 4) - Real.arcsin (1 / 2)) ∧
      ∃ q, asin.image (⟨-1 / 4, 1 / 2, Format.none⟩ : Range ℝ) = some q ∧
        {y | y ∈ q} = Real.arcsin '' Icc (-1 / 4) (1 / 2) := by
  have hbound : (⟨0, [(0, 1 / 4)]⟩ : Affine ℝ).noiseBound = 1 / 4 := by
    norm_num [Affine.noiseBound_eq]
  have hvalue : (⟨0, [(0, 1 / 4)]⟩ : Affine ℝ).value (fun _ => -1) = -1 / 4 := by
    norm_num [Affine.value]
  obtain ⟨herrors, himages⟩ := errorOf_image_exact asin ⟨-1 / 4, 1 / 2, Format.none⟩
  constructor
  · have hsome : (asin.errorOf (⟨-1 / 4, 1 / 2, Format.none⟩ : Range ℝ) ⟨0, [(0, 1 / 4)]⟩
        1).1.isSome = true := by
      rw [isSome_errorOf, hbound]
      norm_num [isDefinedOn]
    obtain ⟨g, hg⟩ := Option.isSome_iff_exists.1 hsome
    obtain ⟨t, ht, heq⟩ := herrors _ g 1 _ rfl
      (Terms.isBelow_cons.2 ⟨Nat.one_pos, Terms.isBelow_nil⟩) (Prod.ext hg rfl) (1 / 2)
      ⟨by norm_num, le_rfl⟩ (fun _ => -1) (fun _ _ => by norm_num)
    rw [hvalue] at heq
    refine ⟨g, _, t, Prod.ext hg rfl, ht, heq.trans ?_⟩
    change Real.arcsin (1 / 2 + -1 / 4) - Real.arcsin (1 / 2) = _
    norm_num
  · have hdef : asin.isDefinedOn (-1 / 4 : ℝ) (1 / 2) = true := by norm_num [isDefinedOn]
    exact ⟨_, if_pos hdef, himages _ (by norm_num) (if_pos hdef)⟩

end Elementary

end Roundoff
