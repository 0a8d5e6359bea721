/-
# The value of an affine form

Once every noise symbol has a value between -1 and 1, an affine form has a value.  Sums, differences
and multiples of forms have the sums, differences and multiples of the values, whatever the symbols
stand for, and a form never deviates from its central value by more than its noise bound.

Nothing here needs the terms to be in order: `Terms.merge` pairs two terms only if they have the
same symbol.
-/
import Mathlib
import Roundoff.Affine
import Roundoff.Proofs.Number.Exact

namespace Roundoff

namespace Terms

/-- The value of noise terms. -/
def value (ε : Symbol → ℝ) (ts : Terms ℝ) : ℝ := (ts.map fun t => t.2 * ε t.1).sum

/-- Whether all symbols of noise terms are taken from those below `n`. -/
def IsBelow (n : Symbol) (ts : Terms ℝ) : Prop := ∀ t ∈ ts, t.1 < n

variable {ε : Symbol → ℝ} {n : Symbol}

@[simp] lemma value_nil : value ε [] = 0 := rfl

@[simp] lemma value_cons (t : Symbol × ℝ) (ts : Terms ℝ) :
    value ε (t :: ts) = t.2 * ε t.1 + value ε ts := by
  simp [value]

@[simp] lemma value_append (ts us : Terms ℝ) : value ε (ts ++ us) = value ε ts + value ε us := by
  simp [value]

@[simp] lemma isBelow_nil : IsBelow n [] := nofun

@[simp] lemma isBelow_cons {t : Symbol × ℝ} {ts : Terms ℝ} :
    IsBelow n (t :: ts) ↔ t.1 < n ∧ IsBelow n ts := by
  simp [IsBelow]

@[simp] lemma isBelow_append {ts us : Terms ℝ} :
    IsBelow n (ts ++ us) ↔ IsBelow n ts ∧ IsBelow n us := by
  simp [IsBelow, or_imp, forall_and]

lemma IsBelow.mono {m : Symbol} {ts : Terms ℝ} (h : IsBelow n ts) (hnm : n ≤ m) : IsBelow m ts :=
  fun t ht => (h t ht).trans_le hnm

/-- The value depends only on what the symbols in use stand for. -/
lemma value_congr {ε' : Symbol → ℝ} {ts : Terms ℝ} (h : IsBelow n ts)
    (hε : ∀ s < n, ε' s = ε s) : value ε' ts = value ε ts := by
  induction ts with
  | nil => rfl
  | cons t ts ih =>
    obtain ⟨ht, hts⟩ := isBelow_cons.1 h
    rw [value_cons, value_cons, ih hts, hε _ ht]

/-- The value is at most the sum of the magnitudes of the coefficients. -/
lemma abs_value_le (hε : ∀ s, |ε s| ≤ 1) (ts : Terms ℝ) :
    |value ε ts| ≤ (ts.map fun t => |t.2|).sum := by
  induction ts with
  | nil => simp
  | cons t ts ih =>
    rw [value_cons, List.map_cons, List.sum_cons]
    calc |t.2 * ε t.1 + value ε ts|
        ≤ |t.2 * ε t.1| + |value ε ts| := abs_add_le _ _
      _ ≤ |t.2| + (ts.map fun t => |t.2|).sum := by
          refine add_le_add ?_ ih
          rw [abs_mul]
          exact mul_le_of_le_one_right (abs_nonneg _) (hε _)

/-- With a part of all noise the value is that part. -/
lemma value_mul_noise (k : ℝ) (ts : Terms ℝ) : value (fun s => k * ε s) ts = k * value ε ts := by
  induction ts with
  | nil => simp
  | cons t ts ih =>
    rw [value_cons, value_cons, ih]
    ring

/-! ## Merging -/

@[simp] lemma value_push (s : Symbol) (a : Option ℝ) (ts : Terms ℝ) :
    value ε (push s a ts) = a.getD 0 * ε s + value ε ts := by
  cases a with
  | none => simp [push]
  | some a => simp [push]

lemma IsBelow.push {s : Symbol} {ts : Terms ℝ} (hs : s < n) (h : IsBelow n ts) (a : Option ℝ) :
    IsBelow n (push s a ts) := by
  cases a with
  | none => exact h
  | some a => exact isBelow_cons.2 ⟨hs, h⟩

section Merge

variable {f : Option ℝ → Option ℝ → Option ℝ} {α β : ℝ}

lemma value_mergeStep
    (hf : ∀ a b, (f a b).getD 0 = α * a.getD 0 + β * b.getD 0)
    {s : Symbol} {a x : ℝ} {rest : Terms ℝ → Terms ℝ}
    (hrest : ∀ ys, value ε (rest ys) = x + β * value ε ys) (ys : Terms ℝ) :
    value ε (mergeStep f s a rest ys) = α * (a * ε s) + x + β * value ε ys := by
  induction ys with
  | nil =>
    simp only [mergeStep, value_push, hf, hrest, Option.getD_some, Option.getD_none, value_nil]
    ring
  | cons t ys ih =>
    rw [mergeStep]
    split
    · simp only [value_push, hf, hrest, Option.getD_some, Option.getD_none]
      ring
    · split
      · simp only [value_push, hf, ih, Option.getD_some, Option.getD_none, value_cons]
        ring
      · next hst hts =>
        obtain rfl : s = t.1 := le_antisymm (not_lt.1 hts) (not_lt.1 hst)
        simp only [value_push, hf, hrest, Option.getD_some, value_cons]
        ring

/-- If the combined coefficients are a linear combination of those of the two sides, then so are the
values. -/
lemma value_merge (hf : ∀ a b, (f a b).getD 0 = α * a.getD 0 + β * b.getD 0)
    (xs ys : Terms ℝ) : value ε (merge f xs ys) = α * value ε xs + β * value ε ys := by
  induction xs generalizing ys with
  | nil =>
    induction ys with
    | nil => simp [merge]
    | cons t ys ih =>
      simp only [merge, List.foldr_cons, value_nil] at ih ⊢
      simp only [value_push, ih, hf, Option.getD_some, Option.getD_none, value_cons]
      ring
  | cons t xs ih =>
    obtain ⟨s, a⟩ := t
    rw [merge, value_mergeStep hf ih ys, value_cons]
    ring

lemma IsBelow.mergeStep {s : Symbol} {a : ℝ} {rest : Terms ℝ → Terms ℝ} (hs : s < n)
    (hrest : ∀ ys, IsBelow n ys → IsBelow n (rest ys)) {ys : Terms ℝ} (hys : IsBelow n ys) :
    IsBelow n (mergeStep f s a rest ys) := by
  induction ys with
  | nil => exact .push hs (hrest _ hys) _
  | cons t ys ih =>
    obtain ⟨ht, hys'⟩ := isBelow_cons.1 hys
    rw [Terms.mergeStep]
    split
    · exact .push hs (hrest _ hys) _
    · split
      · exact .push ht (ih hys') _
      · exact .push hs (hrest _ hys') _

lemma IsBelow.merge {xs ys : Terms ℝ} (hxs : IsBelow n xs) (hys : IsBelow n ys) :
    IsBelow n (merge f xs ys) := by
  induction xs generalizing ys with
  | nil =>
    induction ys with
    | nil => exact isBelow_nil
    | cons t ys ih =>
      obtain ⟨ht, hys⟩ := isBelow_cons.1 hys
      exact .push ht (ih hys) _
  | cons t xs ih =>
    obtain ⟨ht, hxs⟩ := isBelow_cons.1 hxs
    exact .mergeStep ht (fun _ => ih hxs) hys

end Merge

end Terms

namespace Affine

open Terms

/-- The value of an affine form. -/
def value (ε : Symbol → ℝ) (f : Affine ℝ) : ℝ := f.central + f.terms.value ε

variable {ε : Symbol → ℝ}

/-- The value depends only on what the symbols in use stand for. -/
lemma value_congr {n : Symbol} {ε' : Symbol → ℝ} {f : Affine ℝ} (h : f.terms.IsBelow n)
    (hε : ∀ s < n, ε' s = ε s) : f.value ε' = f.value ε := by
  rw [value, value, Terms.value_congr h hε]

@[simp] lemma value_const (c : ℝ) : (const c).value ε = c := by
  simp [value, const]

@[simp] lemma value_zero : (zero : Affine ℝ).value ε = 0 := value_const 0

lemma noiseBound_eq (f : Affine ℝ) : f.noiseBound = (f.terms.map fun t => |t.2|).sum := by
  simp [noiseBound]

lemma noiseBound_nonneg (f : Affine ℝ) : 0 ≤ f.noiseBound := by
  rw [noiseBound_eq]
  refine List.sum_nonneg fun x hx => ?_
  obtain ⟨t, -, rfl⟩ := List.mem_map.1 hx
  exact abs_nonneg _

/-- A form deviates from its central value by at most its noise bound. -/
lemma abs_value_sub_central_le (hε : ∀ s, |ε s| ≤ 1) (f : Affine ℝ) :
    |f.value ε - f.central| ≤ f.noiseBound := by
  rw [value, add_sub_cancel_left, noiseBound_eq]
  exact abs_value_le hε f.terms

/-! ## Linear operations -/

@[simp] lemma getD_nonzero (a : ℝ) : (nonzero a).getD 0 = a := by
  rw [nonzero]
  split
  · next h => exact (beq_iff_eq.1 h).symm
  · rfl

lemma getD_joinCoefficient_add (a b : Option ℝ) :
    (joinCoefficient (· + ·) a b).getD 0 = 1 * a.getD 0 + 1 * b.getD 0 := by
  cases b <;> simp [joinCoefficient]

lemma getD_joinCoefficient_sub (a b : Option ℝ) :
    (joinCoefficient (· - ·) a b).getD 0 = 1 * a.getD 0 + -1 * b.getD 0 := by
  cases b <;> simp [joinCoefficient, sub_eq_add_neg]

lemma getD_productCoefficient (c d : ℝ) (a b : Option ℝ) :
    (productCoefficient c d a b).getD 0 = d * a.getD 0 + c * b.getD 0 := by
  cases a <;> cases b <;> simp [productCoefficient, mul_comm]

@[simp] lemma value_add (f g : Affine ℝ) : (f.add g).value ε = f.value ε + g.value ε := by
  rw [value, value, value, add, value_merge getD_joinCoefficient_add]
  ring

@[simp] lemma value_sub (f g : Affine ℝ) : (f.sub g).value ε = f.value ε - g.value ε := by
  rw [value, value, value, sub, value_merge getD_joinCoefficient_sub]
  ring

@[simp] lemma central_scale (f : Affine ℝ) (k : ℝ) : (f.scale k).central = f.central * k := by
  rw [scale]
  split
  · next h => simp [zero, const, beq_iff_eq.1 h]
  · rfl

@[simp] lemma value_terms_scale (f : Affine ℝ) (k : ℝ) :
    (f.scale k).terms.value ε = f.terms.value ε * k := by
  rw [scale]
  split
  · next h => simp [zero, const, beq_iff_eq.1 h]
  · simp [Terms.value, Function.comp_def, ← List.sum_map_mul_right, mul_right_comm]

@[simp] lemma value_scale (f : Affine ℝ) (k : ℝ) : (f.scale k).value ε = f.value ε * k := by
  rw [value, value, central_scale, value_terms_scale]
  ring

lemma isBelow_terms_scale {n : Symbol} {f : Affine ℝ} (h : f.terms.IsBelow n) (k : ℝ) :
    (f.scale k).terms.IsBelow n := by
  rw [scale]
  split
  · exact isBelow_nil
  · intro t ht
    obtain ⟨u, hu, rfl⟩ := List.mem_map.1 ht
    exact h u hu

/-! ## Products -/

/-- The part of a product that is linear in the noise. -/
lemma value_merge_productCoefficient (c d : ℝ) (xs ys : Terms ℝ) :
    (merge (productCoefficient c d) xs ys).value ε = d * xs.value ε + c * ys.value ε :=
  value_merge (getD_productCoefficient c d) xs ys

end Affine

end Roundoff
