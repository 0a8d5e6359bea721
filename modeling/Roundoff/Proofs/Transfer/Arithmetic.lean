/-
# Errors of products and quotients

The error of a result is what the operation makes of the erroneous operands, minus what it makes of
the exact ones.  For a product of `x` and `y` with the errors `d` and `e` this is
`x·e + y·d + d·e`.  A quotient is the product with the reciprocal, whose error is that of an
elementary function.

A quotient has an error exactly if the divisor cannot be zero: neither the exact divisor nor one
that is off by as much as its error allows.  Whatever the operands and their errors then are, the
symbols that the quotient takes have values that make its error what the quotient of the erroneous
operands is more than that of the exact ones.  The operands may share symbols.
-/
import Mathlib
import Roundoff.Proofs.Elementary.Linearization
import Roundoff.Transfer.Arithmetic

namespace Roundoff

/-! ## Products and quotients -/

section Errors

variable {w : Supply} {x y d e : ℝ}

/-- The product of a form and an error is an error. -/
lemma Affine.Represents.mul_error_yields {f g : Affine ℝ} (hf : f.Represents w x)
    (hg : g.IsError w d) : Fresh.Yields w (f.mul g) fun h w' => h.IsError w' (x * d) :=
  (hf.mul_yields hg.toRepresents).mono fun _ _ _ hh =>
    ⟨hh.1, by rw [hh.2, hg.central_eq, mul_zero]⟩

variable {r₁ r₂ : Range ℝ} {e₁ e₂ : Affine ℝ}

lemma mulError_yields (hx : x ∈ r₁) (he₁ : e₁.IsError w d) (hy : y ∈ r₂) (he₂ : e₂.IsError w e) :
    Fresh.Yields w (mulError r₁ e₁ r₂ e₂) fun f w' =>
      f.IsError w' ((x + d) * (y + e) - x * y) := by
  unfold mulError
  refine (Range.toAffine_yields hx).bind fun a₁ w₁ hw₁ ha₁ => ?_
  refine (Range.toAffine_yields hy).bind fun a₂ w₂ hw₂ ha₂ => ?_
  replace ha₁ := ha₁.mono hw₂
  replace he₁ := he₁.mono (hw₁.trans hw₂)
  replace he₂ := he₂.mono (hw₁.trans hw₂)
  refine (ha₁.mul_error_yields he₂).bind fun left w₃ hw₃ hleft => ?_
  refine ((ha₂.mono hw₃).mul_error_yields (he₁.mono hw₃)).bind fun right w₄ hw₄ hright => ?_
  have hw := hw₃.trans hw₄
  refine ((he₁.mono hw).toRepresents.mul_error_yields (he₂.mono hw)).bind
    fun both w₅ hw₅ hboth => Fresh.yields_pure ?_
  have hsum := ((hleft.mono (hw₄.trans hw₅)).add (hright.mono hw₅)).add hboth
  have hexact : (x + d) * (y + e) - x * y = x * e + y * d + d * e := by ring
  rwa [hexact]

lemma divError_yields (hx : x ∈ r₁) (he₁ : e₁.IsError w d) (hy : y ∈ r₂) (he₂ : e₂.IsError w e) :
    Attempt.Yields w (divError r₁ e₁ r₂ e₂) fun f w' =>
      f.IsError w' ((x + d) / (y + e) - x / y) := by
  unfold divError
  split
  · next inverse hinverse =>
    have hinv := Range.one_div_mem hy hinverse
    refine (Elementary.errorOf_yields hy he₂).bind fun f w₁ hw₁ hf => ?_
    refine (Attempt.yields_lift (Range.toAffine_yields hx)).bind fun a w₂ hw₂ ha => ?_
    refine (Attempt.yields_lift (Range.toAffine_yields hinv)).bind fun b w₃ hw₃ hb => ?_
    replace hf := hf.mono (hw₂.trans hw₃)
    replace he₁ := he₁.mono (hw₁.trans (hw₂.trans hw₃))
    refine (Attempt.yields_lift ((ha.mono hw₃).mul_error_yields hf)).bind
      fun left w₄ hw₄ hleft => ?_
    refine (Attempt.yields_lift ((hb.mono hw₄).mul_error_yields (he₁.mono hw₄))).bind
      fun right w₅ hw₅ hright => ?_
    have hw := hw₄.trans hw₅
    refine (Attempt.yields_lift ((he₁.mono hw).toRepresents.mul_error_yields (hf.mono hw))).bind
      fun both w₆ hw₆ hboth => Attempt.yields_pure ?_
    have hsum := ((hleft.mono (hw₅.trans hw₆)).add (hright.mono hw₆)).add hboth
    have hexact : (x + d) / (y + e) - x / y
        = x * (1 / (y + e) - 1 / y) + 1 / y * d + d * (1 / (y + e) - 1 / y) := by ring
    rwa [hexact]
  · exact Attempt.yields_failure

lemma addRounding_yields {g : Affine ℝ} {rounding : ℝ} (hg : g.IsError w d)
    (he : |e| ≤ |rounding|) :
    Fresh.Yields w (addRounding g rounding) fun f w' => f.IsError w' (d + e) := by
  unfold addRounding
  exact (Affine.withError_zero_yields he).bind fun _ _ hw hf =>
    Fresh.yields_pure ((hg.mono hw).add hf)

end Errors

section Quotients

variable {r₁ r₂ : Range ℝ} {e₁ e₂ g : Affine ℝ} {n : Symbol} {x y : ℝ}

/-! ## Where there is an error -/

lemma Range.isSome_reciprocal (r : Range ℝ) :
    r.reciprocal.isSome = true ↔ 0 ∉ Set.Icc r.lo r.hi := by
  rw [Option.isSome_iff_ne_none, ne_eq, reciprocal_eq_none_iff]
  rfl

lemma Elementary.isSome_errorOf_reciprocal (r : Range ℝ) (e : Affine ℝ) (n : Symbol) :
    (reciprocal.errorOf r e n).1.isSome = true ↔
      0 ∉ Set.Icc (r.lo - e.noiseBound) (r.hi + e.noiseBound) := by
  rw [isSome_errorOf, Set.mem_Icc, not_and_or, not_le, not_le]
  simp [isDefinedOn]

lemma isSome_divError_eq (r₁ : Range ℝ) (e₁ : Affine ℝ) (r₂ : Range ℝ) (e₂ : Affine ℝ)
    (n : Symbol) :
    ((divError r₁ e₁ r₂ e₂).run n).1.isSome
      = (r₂.reciprocal.isSome && (Elementary.reciprocal.errorOf r₂ e₂ n).1.isSome) := by
  unfold divError
  cases r₂.reciprocal with
  | none => rfl
  | some inverse =>
    dsimp only
    rw [OptionT.run_bind, Option.elimM, Fresh.bind_apply, OptionT.run_mk]
    cases (Elementary.reciprocal.errorOf r₂ e₂ n).1 with
    | none => rfl
    | some g => rfl

/-- There is an error exactly if zero is not in the widened range of the divisor. -/
theorem isSome_divError (r₁ : Range ℝ) (e₁ : Affine ℝ) (r₂ : Range ℝ) (e₂ : Affine ℝ)
    (n : Symbol) :
    ((divError r₁ e₁ r₂ e₂).run n).1.isSome = true ↔
      0 ∉ Set.Icc (r₂.lo - e₂.noiseBound) (r₂.hi + e₂.noiseBound) := by
  rw [isSome_divError_eq, Bool.and_eq_true, Range.isSome_reciprocal,
    Elementary.isSome_errorOf_reciprocal]
  -- the widened range includes the range
  refine and_iff_right_of_imp fun h hzero => h ?_
  have hspread := e₂.noiseBound_nonneg
  exact ⟨by linarith [hzero.1], by linarith [hzero.2]⟩

/-! ## What the error is -/

/-- Exact and erroneous divisors lie in the widened range. -/
lemma ne_zero_of_isSome_divError {w : Supply} {d : ℝ}
    (h : ((divError r₁ e₁ r₂ e₂).run n).1.isSome = true) (hy : y ∈ r₂) (he₂ : e₂.IsError w d) :
    y ≠ 0 ∧ y + d ≠ 0 := by
  have hzero := (isSome_divError _ _ _ _ _).1 h
  obtain ⟨hlo, hhi⟩ := hy
  obtain ⟨hdlo, hdhi⟩ := abs_le.1 he₂.abs_le_noiseBound
  have hspread := e₂.noiseBound_nonneg
  constructor
  · rintro rfl
    exact hzero ⟨by linarith, by linarith⟩
  · intro hsum
    exact hzero ⟨by linarith, by linarith⟩

/-- Values of the symbols in use extend to values of all symbols that explain the quotient. -/
lemma exists_noise_divError (hc₁ : e₁.central = 0) (hb₁ : e₁.terms.IsBelow n)
    (hc₂ : e₂.central = 0) (hb₂ : e₂.terms.IsBelow n)
    (hg : ((divError r₁ e₁ r₂ e₂).run n).1 = some g) (hx : x ∈ r₁) (hy : y ∈ r₂)
    {ε : Symbol → ℝ} (hε : ∀ s < n, |ε s| ≤ 1) :
    y ≠ 0 ∧ y + e₂.value ε ≠ 0 ∧
      ∃ ε' : Symbol → ℝ, (∀ s < n, ε' s = ε s) ∧ (∀ s, |ε' s| ≤ 1) ∧
        g.value ε' = (x + e₁.value ε) / (y + e₂.value ε) - x / y := by
  obtain ⟨w, rfl, hw⟩ := exists_supply hε
  have he₁ : e₁.IsError w (e₁.value ε) := ⟨⟨hb₁, Affine.value_congr hb₁ hw⟩, hc₁⟩
  have he₂ : e₂.IsError w (e₂.value ε) := ⟨⟨hb₂, Affine.value_congr hb₂ hw⟩, hc₂⟩
  have hsome : ((divError r₁ e₁ r₂ e₂).run w.next).1.isSome = true := by rw [hg]; rfl
  obtain ⟨hexact, herroneous⟩ := ne_zero_of_isSome_divError hsome hy he₂
  obtain ⟨w', hle, -, hresult⟩ := divError_yields hx he₁ hy he₂
  exact ⟨hexact, herroneous, w'.noise, fun s hs => (hle.2 s hs).trans (hw s hs), w'.abs_noise_le,
    (hresult g hg).value_eq⟩

/-- **Errors of quotients are exact up to the choice of noise.**  There is an error exactly if zero
is not in the range of the divisor widened by its error.  Then neither divisor is zero, for any
operands in their ranges and any values of the symbols in use, and these values can be extended to
all symbols such that the error is what the quotient of the erroneous operands is more than that of
the exact ones. -/
theorem divError_exact (r₁ r₂ : Range ℝ) {e₁ e₂ : Affine ℝ} {n : Symbol}
    (hc₁ : e₁.central = 0) (hb₁ : e₁.terms.IsBelow n)
    (hc₂ : e₂.central = 0) (hb₂ : e₂.terms.IsBelow n) :
    (((divError r₁ e₁ r₂ e₂).run n).1.isSome = true ↔
      0 ∉ Set.Icc (r₂.lo - e₂.noiseBound) (r₂.hi + e₂.noiseBound)) ∧
    ∀ g, ((divError r₁ e₁ r₂ e₂).run n).1 = some g →
      ∀ x ∈ r₁, ∀ y ∈ r₂, ∀ ε : Symbol → ℝ, (∀ s < n, |ε s| ≤ 1) →
        y ≠ 0 ∧ y + e₂.value ε ≠ 0 ∧
          ∃ ε' : Symbol → ℝ, (∀ s < n, ε' s = ε s) ∧ (∀ s, |ε' s| ≤ 1) ∧
            g.value ε' = (x + e₁.value ε) / (y + e₂.value ε) - x / y :=
  ⟨isSome_divError r₁ e₁ r₂ e₂ n, fun _ hg _ hx _ hy _ hε =>
    exists_noise_divError hc₁ hb₁ hc₂ hb₂ hg hx hy hε⟩

/-- Dividend 1 and divisor 2 are off by a half of the same noise: with the noise 1 the error can be
that of 3/2 divided by 5/2. -/
theorem divError_shared_noise :
    ∃ g, ((divError (⟨1, 2, Format.none⟩ : Range ℝ) ⟨0, [(0, 1 / 2)]⟩ ⟨2, 4, Format.none⟩
        ⟨0, [(0, 1 / 2)]⟩).run 1).1 = some g ∧
      ∃ ε' : Symbol → ℝ, (∀ s < 1, ε' s = 1) ∧ (∀ s, |ε' s| ≤ 1) ∧
        g.value ε' = 3 / 5 - 1 / 2 := by
  have hcentral : (⟨0, [(0, 1 / 2)]⟩ : Affine ℝ).central = 0 := rfl
  have hbelow : (⟨0, [(0, 1 / 2)]⟩ : Affine ℝ).terms.IsBelow 1 :=
    Terms.isBelow_cons.2 ⟨Nat.one_pos, Terms.isBelow_nil⟩
  have hbound : (⟨0, [(0, 1 / 2)]⟩ : Affine ℝ).noiseBound = 1 / 2 := by
    norm_num [Affine.noiseBound_eq]
  have hvalue : (⟨0, [(0, 1 / 2)]⟩ : Affine ℝ).value (fun _ => 1) = 1 / 2 := by
    norm_num [Affine.value]
  obtain ⟨hdefined, hexact⟩ := divError_exact (⟨1, 2, Format.none⟩ : Range ℝ)
    ⟨2, 4, Format.none⟩ hcentral hbelow hcentral hbelow
  obtain ⟨g, hg⟩ := Option.isSome_iff_exists.1 (hdefined.2 (by norm_num [hbound]))
  obtain ⟨-, -, ε', hold, hε', heq⟩ := hexact g hg 1 ⟨le_rfl, one_le_two⟩ 2 ⟨le_rfl, by norm_num⟩
    (fun _ => 1) (fun _ _ => by norm_num)
  refine ⟨g, hg, ε', hold, hε', heq.trans ?_⟩
  rw [hvalue]
  norm_num

end Quotients

end Roundoff
