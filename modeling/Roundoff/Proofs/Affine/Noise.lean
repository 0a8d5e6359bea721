/-
# Noise that explains a quantity

A quantity that deviates from an affine form by at most the magnitude of a new noise term is a value
of the form with that term: the fresh symbol is given the value that makes up the difference.  Since
the symbol is fresh, the values of all other forms stay as they are.

A computation that takes fresh symbols is described by `Fresh.Yields`: the symbols that it takes
*can* be given values such that its result is as wanted.  One rule per operation on forms says which
quantity the result then represents; the rules are chained by `Fresh.Yields.bind`.
-/
import Mathlib
import Roundoff.Proofs.Affine.Value
import Roundoff.Proofs.Range
import Roundoff.Transfer.Operand

namespace Roundoff

/-- A supply of noise symbols, each of which stands for a number between -1 and 1. -/
structure Supply where
  /-- The next symbol to be handed out. -/
  next : Symbol
  /-- What the symbols stand for. -/
  noise : Symbol → ℝ
  /-- The noise is between -1 and 1. -/
  abs_noise_le : ∀ s, |noise s| ≤ 1

namespace Supply

/-- A later supply has handed out more symbols, and gives those handed
out before the same values. -/
instance : Preorder Supply where
  le w w' := w.next ≤ w'.next ∧ ∀ s < w.next, w'.noise s = w.noise s
  le_refl w := ⟨le_rfl, fun _ _ => rfl⟩
  le_trans w w' w'' h h' :=
    ⟨h.1.trans h'.1, fun s hs => (h'.2 s (hs.trans_le h.1)).trans (h.2 s hs)⟩

/-- The supply after the next symbol has been handed out with a value. -/
noncomputable def take (w : Supply) (x : ℝ) (hx : |x| ≤ 1) : Supply where
  next := w.next + 1
  noise := Function.update w.noise w.next x
  abs_noise_le s := by
    rcases eq_or_ne s w.next with rfl | hs
    · rwa [Function.update_self]
    · rw [Function.update_of_ne hs]
      exact w.abs_noise_le s

lemma le_take (w : Supply) {x : ℝ} (hx : |x| ≤ 1) : w ≤ w.take x hx :=
  ⟨Nat.le_succ _, fun _ hs => Function.update_of_ne hs.ne _ _⟩

end Supply

/-- The symbols in use may have any values between -1 and 1. -/
lemma exists_supply {n : Symbol} {ε : Symbol → ℝ} (hε : ∀ s < n, |ε s| ≤ 1) :
    ∃ w : Supply, w.next = n ∧ ∀ s < n, w.noise s = ε s := by
  refine ⟨⟨n, fun s => if s < n then ε s else 0, fun s => ?_⟩, rfl, fun s hs => if_pos hs⟩
  split
  · next hs => exact hε s hs
  · simp

variable {α β : Type} {w : Supply}

/-! ## Computations -/

/-- Running the computation from a supply, the symbols that it takes can be given values such that
result and supply are as wanted. -/
def Fresh.Yields (w : Supply) (m : Fresh α) (P : α → Supply → Prop) : Prop :=
  ∃ w', w ≤ w' ∧ (m w.next).2 = w'.next ∧ P (m w.next).1 w'

namespace Fresh

variable {P : α → Supply → Prop} {Q : β → Supply → Prop}

lemma yields_pure {a : α} (h : P a w) : Yields w (pure a) P :=
  ⟨w, le_rfl, rfl, h⟩

lemma Yields.bind {m : Fresh α} {f : α → Fresh β} (hm : Yields w m P)
    (hf : ∀ a w', w ≤ w' → P a w' → Yields w' (f a) Q) : Yields w (m >>= f) Q := by
  obtain ⟨w', hw, hnext, hP⟩ := hm
  obtain ⟨w'', hw', hnext', hQ⟩ := hf _ _ hw hP
  rw [← hnext] at hnext' hQ
  exact ⟨w'', hw.trans hw', hnext', hQ⟩

lemma Yields.mono {P' : α → Supply → Prop} {m : Fresh α} (hm : Yields w m P)
    (h : ∀ a w', w ≤ w' → P a w' → P' a w') : Yields w m P' := by
  obtain ⟨w', hw, hnext, hP⟩ := hm
  exact ⟨w', hw, hnext, h _ _ hw hP⟩

end Fresh

/-- The same for a computation that may lack data: if it has them, its result is as wanted. -/
def Attempt.Yields (w : Supply) (m : Attempt α) (P : α → Supply → Prop) : Prop :=
  Fresh.Yields w m.run fun o w' => ∀ a, o = some a → P a w'

namespace Attempt

variable {P : α → Supply → Prop} {Q : β → Supply → Prop}

lemma yields_pure {a : α} (h : P a w) : Yields w (pure a) P :=
  Fresh.yields_pure fun _ ha => Option.some.inj ha ▸ h

lemma yields_failure : Yields w failure P :=
  Fresh.yields_pure nofun

lemma yields_lift {m : Fresh α} (hm : Fresh.Yields w m P) : Yields w (OptionT.lift m) P :=
  hm.bind fun _ _ _ hP => Fresh.yields_pure fun _ ha => Option.some.inj ha ▸ hP

lemma yields_mk_pure {o : Option α} (h : ∀ a, o = some a → P a w) :
    Yields w (OptionT.mk (pure o)) P :=
  Fresh.yields_pure h

lemma Yields.bind {m : Attempt α} {f : α → Attempt β} (hm : Yields w m P)
    (hf : ∀ a w', w ≤ w' → P a w' → Yields w' (f a) Q) : Yields w (m >>= f) Q := by
  have hrun : (m >>= f).run = m.run >>= fun o => o.elim (pure none) fun a => (f a).run := by
    rw [OptionT.run_bind, Option.elimM]
  rw [Yields, hrun]
  refine Fresh.Yields.bind hm fun o w' hw hP => ?_
  cases o with
  | none => exact Fresh.yields_pure nofun
  | some a => exact hf a w' hw (hP a rfl)

lemma yields_ite {c : Prop} [Decidable c] {m m' : Attempt α} (hm : Yields w m P)
    (hm' : Yields w m' P) : Yields w (if c then m else m') P := by
  split
  · exact hm
  · exact hm'

end Attempt

namespace Affine

/-- With the noise of a supply, the value of the form is `x`, and the form uses only symbols that
have been handed out. -/
structure Represents (f : Affine ℝ) (w : Supply) (x : ℝ) : Prop where
  /-- The symbols of the form have been handed out. -/
  isBelow : f.terms.IsBelow w.next
  /-- The value of the form. -/
  value_eq : f.value w.noise = x

/-- The form represents the error `d`; errors have no central value. -/
structure IsError (f : Affine ℝ) (w : Supply) (d : ℝ) : Prop extends f.Represents w d where
  /-- The central value is zero. -/
  central_eq : f.central = 0

variable {f g : Affine ℝ} {w' : Supply} {x y d e : ℝ}

/-- Later supplies do not change what a form represents. -/
lemma Represents.mono (hf : f.Represents w x) (hw : w ≤ w') : f.Represents w' x where
  isBelow := hf.isBelow.mono hw.1
  value_eq := by
    rw [← hf.value_eq, value, value, Terms.value_congr hf.isBelow hw.2]

lemma IsError.mono (hf : f.IsError w d) (hw : w ≤ w') : f.IsError w' d :=
  ⟨hf.toRepresents.mono hw, hf.central_eq⟩

/-- The noise bound of an error bounds its magnitude. -/
lemma IsError.abs_le_noiseBound (hf : f.IsError w d) : |d| ≤ f.noiseBound := by
  rw [← hf.value_eq, ← sub_zero (f.value w.noise), ← hf.central_eq]
  exact f.abs_value_sub_central_le w.abs_noise_le

/-! ## Operations on forms -/

lemma represents_const (c : ℝ) : (const c).Represents w c :=
  ⟨Terms.isBelow_nil, value_const c⟩

lemma Represents.add (hf : f.Represents w x) (hg : g.Represents w y) :
    (f.add g).Represents w (x + y) where
  isBelow := hf.isBelow.merge hg.isBelow
  value_eq := by rw [value_add, hf.value_eq, hg.value_eq]

lemma Represents.sub (hf : f.Represents w x) (hg : g.Represents w y) :
    (f.sub g).Represents w (x - y) where
  isBelow := hf.isBelow.merge hg.isBelow
  value_eq := by rw [value_sub, hf.value_eq, hg.value_eq]

lemma Represents.scale (hf : f.Represents w x) (k : ℝ) : (f.scale k).Represents w (x * k) where
  isBelow := isBelow_terms_scale hf.isBelow k
  value_eq := by rw [value_scale, hf.value_eq]

lemma Represents.neg (hf : f.Represents w x) : f.neg.Represents w (-x) := by
  rw [← mul_neg_one]
  exact hf.scale (-1)

lemma isError_zero : (zero : Affine ℝ).IsError w 0 :=
  ⟨represents_const 0, rfl⟩

lemma IsError.add (hf : f.IsError w d) (hg : g.IsError w e) : (f.add g).IsError w (d + e) where
  toRepresents := hf.toRepresents.add hg.toRepresents
  central_eq := by simp [Affine.add, hf.central_eq, hg.central_eq]

lemma IsError.sub (hf : f.IsError w d) (hg : g.IsError w e) : (f.sub g).IsError w (d - e) where
  toRepresents := hf.toRepresents.sub hg.toRepresents
  central_eq := by simp [Affine.sub, hf.central_eq, hg.central_eq]

/-- A new noise term makes up for a difference of at most its magnitude. -/
lemma addNoise_yields {m : ℝ} (hf : f.terms.IsBelow w.next) (hx : |x - f.value w.noise| ≤ |m|) :
    Fresh.Yields w (f.addNoise m) fun g w' => g.Represents w' x ∧ g.central = f.central := by
  rw [addNoise, Number.abs_real]
  split
  · next hm =>
    have hnoise : |(x - f.value w.noise) / (|m|)| ≤ 1 := by
      rw [abs_div, abs_abs]
      exact div_le_one_of_le₀ hx (abs_nonneg m)
    have hold := Terms.value_congr hf (w.le_take hnoise).2
    refine ⟨w.take _ hnoise, w.le_take hnoise, rfl, ⟨?_, ?_⟩, rfl⟩
    · exact Terms.isBelow_append.2
        ⟨hf.mono (Nat.le_succ _), Terms.isBelow_cons.2 ⟨Nat.lt_succ_self _, Terms.isBelow_nil⟩⟩
    · change f.central + (f.terms ++ [(w.next, |m|)]).value (w.take _ hnoise).noise = x
      rw [Terms.value_append, hold, Terms.value_cons, Terms.value_nil, ← add_assoc, ← value]
      simp only [Supply.take, Function.update_self]
      field_simp
      ring
  · next hm =>
    refine Fresh.yields_pure ⟨⟨hf, ?_⟩, rfl⟩
    have hzero : |x - f.value w.noise| ≤ 0 := hx.trans (not_lt.1 hm)
    exact (sub_eq_zero.1 (abs_nonpos_iff.1 hzero)).symm

/-- A quantity near a number is represented by the number with an error. -/
lemma withError_yields {c m : ℝ} (hx : |x - c| ≤ |m|) :
    Fresh.Yields w (withError c m) fun g w' => g.Represents w' x ∧ g.central = c :=
  addNoise_yields Terms.isBelow_nil (by rwa [value_const])

/-- A small quantity is represented by a fresh error. -/
lemma withError_zero_yields {m : ℝ} (hd : |d| ≤ |m|) :
    Fresh.Yields w (withError 0 m) fun g w' => g.IsError w' d :=
  (withError_yields (by rwa [sub_zero])).mono fun _ _ _ hg => ⟨hg.1, hg.2⟩

/-- One fresh term of the same bound represents the same quantity. -/
lemma Represents.flatten_yields (hf : f.Represents w x) :
    Fresh.Yields w f.flatten fun g w' => g.Represents w' x ∧ g.central = f.central := by
  refine withError_yields (le_trans ?_ (le_abs_self _))
  rw [← hf.value_eq]
  exact f.abs_value_sub_central_le w.abs_noise_le

lemma IsError.flatten_yields (hf : f.IsError w d) :
    Fresh.Yields w f.flatten fun g w' => g.IsError w' d :=
  hf.toRepresents.flatten_yields.mono fun _ _ _ hg => ⟨hg.1, hg.2.trans hf.central_eq⟩

/-- A product of forms represents the product. -/
lemma Represents.mul_yields (hf : f.Represents w x) (hg : g.Represents w y) :
    Fresh.Yields w (f.mul g) fun h w' =>
      h.Represents w' (x * y) ∧ h.central = f.central * g.central := by
  refine addNoise_yields (hf.isBelow.merge hg.isBelow) ?_
  -- what the linear part leaves is the product of the two deviations
  have hremainder : x * y - (f.central * g.central
      + (g.central * f.terms.value w.noise + f.central * g.terms.value w.noise))
      = (f.value w.noise - f.central) * (g.value w.noise - g.central) := by
    rw [← hf.value_eq, ← hg.value_eq, value, value]
    ring
  rw [value, value_merge_productCoefficient, hremainder, abs_mul, abs_mul]
  exact mul_le_mul
    ((f.abs_value_sub_central_le w.abs_noise_le).trans (le_abs_self _))
    ((g.abs_value_sub_central_le w.abs_noise_le).trans (le_abs_self _))
    (abs_nonneg _) (abs_nonneg _)

end Affine

/-- The affine form that spans a range represents every number in the range. -/
lemma Range.toAffine_yields {r : Range ℝ} {x : ℝ} (hx : x ∈ r) :
    Fresh.Yields w r.toAffine fun f w' => f.Represents w' x := by
  have hdev : |x - r.midpoint| ≤ |r.radius| := by
    obtain ⟨hlo, hhi⟩ := hx
    refine le_trans ?_ (le_abs_self _)
    rw [midpoint, radius, Number.ofInt_real, abs_le]
    constructor
    · push_cast
      linarith
    · push_cast
      linarith
  exact (Affine.withError_yields hdev).mono fun _ _ _ h => h.1

end Roundoff
