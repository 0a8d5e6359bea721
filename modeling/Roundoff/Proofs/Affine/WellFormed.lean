/-
# Well-formed errors

An error is well formed if it has no central value, so that its noise bound bounds its magnitude, if
its terms are in order, over symbols that have been drawn from the supply, and if none of the
coefficients is zero.  The rules for errors keep all of this: a sum or difference drops what
cancels, a product with an error has no central value whatever the other factor is like, and a fresh
term comes after all others.
-/
import Mathlib
import Roundoff.Elementary
import Roundoff.Proofs.Affine.Order
import Roundoff.Proofs.Transfer.Computation

namespace Roundoff

variable {n n' : Symbol}

namespace Terms

/-- No coefficient is zero. -/
def HasNoZero (ts : Terms ℝ) : Prop := ∀ t ∈ ts, t.2 ≠ 0

/-- Coefficients that are not zero are combined to one that is not zero, if any. -/
def KeepsNoZero (f : Option ℝ → Option ℝ → Option ℝ) : Prop :=
  ∀ a b, (∀ x ∈ a, x ≠ 0) → (∀ x ∈ b, x ≠ 0) → ∀ x ∈ f a b, x ≠ 0

section Merge

variable {f : Option ℝ → Option ℝ → Option ℝ} {s : Symbol} {a : ℝ} {xs ys : Terms ℝ}

lemma HasNoZero.push {ts : Terms ℝ} (h : ts.HasNoZero) {o : Option ℝ} (ho : ∀ x ∈ o, x ≠ 0) :
    (push s o ts).HasNoZero := by
  cases o with
  | none => exact h
  | some a => exact List.forall_mem_cons.2 ⟨ho a rfl, h⟩

lemma HasNoZero.mergeStep (hf : KeepsNoZero f) {rest : Terms ℝ → Terms ℝ} (ha : a ≠ 0)
    (hrest : ∀ ys : Terms ℝ, ys.HasNoZero → (rest ys).HasNoZero) (hys : ys.HasNoZero) :
    (mergeStep f s a rest ys).HasNoZero := by
  have hsome {b : ℝ} (hb : b ≠ 0) : ∀ x ∈ some b, x ≠ 0 := fun x hx => Option.some.inj hx ▸ hb
  induction ys with
  | nil => exact (hrest _ hys).push (hf _ _ (hsome ha) nofun)
  | cons y ys ih =>
    obtain ⟨hy, hys'⟩ := List.forall_mem_cons.1 hys
    rw [Terms.mergeStep]
    split
    · exact (hrest _ hys).push (hf _ _ (hsome ha) nofun)
    · split
      · exact (ih hys').push (hf _ _ nofun (hsome hy))
      · exact (hrest _ hys').push (hf _ _ (hsome ha) (hsome hy))

lemma HasNoZero.merge (hf : KeepsNoZero f) (hxs : xs.HasNoZero) (hys : ys.HasNoZero) :
    (merge f xs ys).HasNoZero := by
  induction xs generalizing ys with
  | nil =>
    induction ys with
    | nil => exact hys
    | cons y ys ih =>
      obtain ⟨hy, hys⟩ := List.forall_mem_cons.1 hys
      exact (ih hys).push (hf _ _ nofun fun x hx => Option.some.inj hx ▸ hy)
  | cons x xs ih =>
    obtain ⟨hx, hxs⟩ := List.forall_mem_cons.1 hxs
    exact .mergeStep hf hx (fun ys => ih hxs) hys

end Merge

/-- The terms are in order, over symbols below `n`, and none of them is zero. -/
structure IsProper (ts : Terms ℝ) (n : Symbol) : Prop where
  /-- The terms are in order. -/
  isAscending : ts.IsAscending
  /-- The symbols are below `n`. -/
  isBelow : ts.IsBelow n
  /-- No term is zero. -/
  hasNoZero : ts.HasNoZero

namespace IsProper

variable {ts us : Terms ℝ}

lemma nil : IsProper [] n := ⟨List.Pairwise.nil, isBelow_nil, nofun⟩

lemma mono (h : ts.IsProper n) (hn : n ≤ n') : ts.IsProper n' :=
  ⟨h.isAscending, h.isBelow.mono hn, h.hasNoZero⟩

lemma merge {f : Option ℝ → Option ℝ → Option ℝ} (hf : KeepsNoZero f) (h : ts.IsProper n)
    (h' : us.IsProper n) : (Terms.merge f ts us).IsProper n :=
  ⟨h.isAscending.merge h'.isAscending, h.isBelow.merge h'.isBelow,
    h.hasNoZero.merge hf h'.hasNoZero⟩

end IsProper

end Terms

namespace Affine

variable {f g : Affine ℝ} {c m : ℝ}

/-- An error without a central value, whose terms are in order, over symbols below `n`, and not
zero. -/
structure IsWellFormed (f : Affine ℝ) (n : Symbol) : Prop where
  /-- The terms are as wanted. -/
  terms : f.terms.IsProper n
  /-- The central value is zero. -/
  central_eq : f.central = 0

lemma IsWellFormed.mono (hf : f.IsWellFormed n) (hn : n ≤ n') : f.IsWellFormed n' :=
  ⟨hf.terms.mono hn, hf.central_eq⟩

lemma IsWellFormed.isOrdered (hf : f.IsWellFormed n) : f.IsOrdered n :=
  ⟨hf.terms.isAscending, hf.terms.isBelow, hf.central_eq⟩

/-- A symbol that is drawn from the supply is none of those in use. -/
lemma IsWellFormed.ne_of_mem (hf : f.IsWellFormed n) (hn : n ≤ n') {t : Symbol × ℝ}
    (ht : t ∈ f.terms) : t.1 ≠ n' := ((hf.terms.isBelow t ht).trans_le hn).ne

/-! ## Sums, differences and multiples -/

lemma ne_zero_of_mem_nonzero {a x : ℝ} (h : x ∈ nonzero a) : x ≠ 0 := by
  rw [nonzero] at h
  split at h
  · cases h
  · next hne =>
    obtain rfl := Option.some.inj h
    exact fun h0 => hne (beq_iff_eq.2 h0)

lemma keepsNoZero_joinCoefficient (op : ℝ → ℝ → ℝ) : Terms.KeepsNoZero (joinCoefficient op) := by
  intro a b ha _
  cases b with
  | none => exact ha
  | some b => exact fun x hx => ne_zero_of_mem_nonzero hx

lemma keepsNoZero_productCoefficient (c d : ℝ) :
    Terms.KeepsNoZero (productCoefficient c d) := by
  intro a b _ _
  cases a with
  | none =>
    cases b with
    | none => nofun
    | some b => exact fun x hx => ne_zero_of_mem_nonzero hx
  | some a =>
    cases b with
    | none => exact fun x hx => ne_zero_of_mem_nonzero hx
    | some b => exact fun x hx => ne_zero_of_mem_nonzero hx

lemma isWellFormed_zero : (zero : Affine ℝ).IsWellFormed n := ⟨.nil, rfl⟩

lemma IsWellFormed.add (hf : f.IsWellFormed n) (hg : g.IsWellFormed n) :
    (f.add g).IsWellFormed n where
  terms := hf.terms.merge (keepsNoZero_joinCoefficient _) hg.terms
  central_eq := by simp [Affine.add, hf.central_eq, hg.central_eq]

lemma IsWellFormed.sub (hf : f.IsWellFormed n) (hg : g.IsWellFormed n) :
    (f.sub g).IsWellFormed n where
  terms := hf.terms.merge (keepsNoZero_joinCoefficient _) hg.terms
  central_eq := by simp [Affine.sub, hf.central_eq, hg.central_eq]

lemma isProper_terms_scale (hf : f.terms.IsProper n) (k : ℝ) : (f.scale k).terms.IsProper n := by
  rw [scale]
  split
  · exact .nil
  · next hk =>
    refine ⟨List.pairwise_map.2 hf.isAscending, ?_, ?_⟩
    · intro t ht
      obtain ⟨u, hu, rfl⟩ := List.mem_map.1 ht
      exact hf.isBelow u hu
    · intro t ht
      obtain ⟨u, hu, rfl⟩ := List.mem_map.1 ht
      exact mul_ne_zero (hf.hasNoZero u hu) fun h0 => hk (beq_iff_eq.2 h0)

/-! ## Fresh terms -/

/-- A fresh term comes last, and there is one only if it is not zero. -/
lemma attains_addNoise (hf : f.terms.IsProper n) (m : ℝ) :
    Fresh.Attains n (f.addNoise m) fun g n' => g.terms.IsProper n' ∧ g.central = f.central := by
  rw [addNoise, Number.abs_real]
  split
  · next hm =>
    refine ⟨Nat.le_succ n, ⟨hf.isAscending.concat hf.isBelow _, hf.isBelow.concat _, ?_⟩, rfl⟩
    intro t ht
    rcases List.mem_append.1 ht with ht | ht
    · exact hf.hasNoZero t ht
    · rw [List.mem_singleton.1 ht]
      exact hm.ne'
  · exact Fresh.attains_pure ⟨hf, rfl⟩

lemma IsWellFormed.attains_addNoise (hf : f.IsWellFormed n) (m : ℝ) :
    Fresh.Attains n (f.addNoise m) fun g n' => g.IsWellFormed n' :=
  (Affine.attains_addNoise hf.terms m).mono fun _ _ _ hg => ⟨hg.1, hg.2.trans hf.central_eq⟩

lemma attains_withError (m : ℝ) :
    Fresh.Attains n (withError 0 m) fun g n' => g.IsWellFormed n' :=
  isWellFormed_zero.attains_addNoise m

lemma IsWellFormed.attains_flatten (hf : f.IsWellFormed n) :
    Fresh.Attains n f.flatten fun g n' => g.IsWellFormed n' := by
  rw [flatten, hf.central_eq]
  exact attains_withError _

/-- A product with an error is an error, whatever is the central value of the other factor. -/
lemma attains_mul (hf : f.terms.IsProper n) (hg : g.IsWellFormed n) :
    Fresh.Attains n (f.mul g) fun h n' => h.IsWellFormed n' := by
  have hcentral : f.central * g.central = 0 := by rw [hg.central_eq, mul_zero]
  rw [mul, hcentral]
  exact IsWellFormed.attains_addNoise
    ⟨hf.merge (keepsNoZero_productCoefficient _ _) hg.terms, rfl⟩ _

end Affine

lemma Range.attains_toAffine (r : Range ℝ) :
    Fresh.Attains n r.toAffine fun f n' => f.terms.IsProper n' :=
  (Affine.attains_addNoise .nil _).mono fun _ _ _ h => h.1

/-- The error of an elementary function of an erroneous argument. -/
lemma Elementary.attains_errorOf (f : Elementary) (r : Range ℝ) {e : Affine ℝ}
    (he : e.IsWellFormed n) :
    Fresh.Attains n (f.errorOf r e) fun o n' => ∀ g, o = some g → g.IsWellFormed n' := by
  unfold errorOf
  dsimp only
  split
  · exact Fresh.attains_pure nofun
  · next b _ =>
    -- the part of first order is an error, as it is made one
    have hlinear : ({ e.scale b.atLeast with central := 0 } : Affine ℝ).IsWellFormed n :=
      ⟨Affine.isProper_terms_scale he.terms _, rfl⟩
    refine (hlinear.attains_addNoise _).bind fun g n' _ hg => Fresh.attains_pure fun g' hg' => ?_
    cases hg'
    exact hg

end Roundoff
