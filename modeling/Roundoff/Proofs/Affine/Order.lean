/-
# The order of noise terms

The terms of the forms that the analysis makes are in strictly ascending order of their symbols: a
fresh symbol is larger than all symbols in use, and merging keeps the order.  So a symbol occurs
only once, and the noise can be chosen such that a form deviates from its central value by as much
as its noise bound allows.
-/
import Mathlib
import Roundoff.Proofs.Affine.Value

namespace Roundoff

namespace Terms

/-- Whether the symbols of noise terms are strictly ascending. -/
def IsAscending (ts : Terms ℝ) : Prop := ts.Pairwise fun t u => t.1 < u.1

variable {f : Option ℝ → Option ℝ → Option ℝ} {s t : Symbol} {a : ℝ} {xs ys : Terms ℝ}

/-! ## Merging -/

lemma mem_symbols_push {o : Option ℝ} {ts : Terms ℝ} (h : t ∈ (push s o ts).map Prod.fst) :
    t = s ∨ t ∈ ts.map Prod.fst := by
  cases o with
  | none => exact Or.inr h
  | some a => simpa [push] using h

lemma IsAscending.push {ts : Terms ℝ} (h : ts.IsAscending) (hs : ∀ t ∈ ts.map Prod.fst, s < t)
    (o : Option ℝ) : (push s o ts).IsAscending := by
  cases o with
  | none => exact h
  | some a => exact List.pairwise_cons.2 ⟨fun u hu => hs u.1 (List.mem_map_of_mem hu), h⟩

lemma mem_symbols_mergeStep {rest : Terms ℝ → Terms ℝ} {us : List Symbol}
    (hrest : ∀ ys, ∀ t ∈ (rest ys).map Prod.fst, t ∈ us ∨ t ∈ ys.map Prod.fst)
    (h : t ∈ (mergeStep f s a rest ys).map Prod.fst) :
    t = s ∨ t ∈ us ∨ t ∈ ys.map Prod.fst := by
  induction ys with
  | nil => exact (mem_symbols_push h).imp_right (hrest _ t)
  | cons y ys ih =>
    rw [mergeStep] at h
    rw [List.map_cons, List.mem_cons]
    split at h
    · refine (mem_symbols_push h).imp_right fun h => ?_
      simpa using hrest _ t h
    · split at h
      · rcases mem_symbols_push h with rfl | h
        · exact Or.inr (Or.inr (Or.inl rfl))
        · exact (ih h).imp_right fun h => h.imp_right Or.inr
      · exact (mem_symbols_push h).imp_right fun h => (hrest _ t h).imp_right Or.inr

/-- The symbols of merged terms are those of the two sides. -/
lemma mem_symbols_merge (h : t ∈ (merge f xs ys).map Prod.fst) :
    t ∈ xs.map Prod.fst ∨ t ∈ ys.map Prod.fst := by
  induction xs generalizing ys t with
  | nil =>
    right
    induction ys with
    | nil => exact h
    | cons y ys ih =>
      rw [List.map_cons, List.mem_cons]
      exact (mem_symbols_push h).imp_right ih
  | cons x xs ih =>
    obtain ⟨s, a⟩ := x
    rw [List.map_cons, List.mem_cons, or_assoc]
    exact mem_symbols_mergeStep (fun ys t ht => ih ht) h

lemma IsAscending.mergeStep {rest : Terms ℝ → Terms ℝ} {us : List Symbol}
    (hsymbols : ∀ ys, ∀ t ∈ (rest ys).map Prod.fst, t ∈ us ∨ t ∈ ys.map Prod.fst)
    (hrest : ∀ ys : Terms ℝ, ys.IsAscending → (rest ys).IsAscending) (hus : ∀ t ∈ us, s < t)
    (hys : ys.IsAscending) : (mergeStep f s a rest ys).IsAscending := by
  induction ys with
  | nil =>
    refine (hrest _ hys).push (fun t ht => ?_) _
    exact (hsymbols _ t ht).elim (hus t) (fun h => absurd h List.not_mem_nil)
  | cons y ys ih =>
    obtain ⟨hy, hys'⟩ := List.pairwise_cons.1 hys
    have habove : ∀ t ∈ ys.map Prod.fst, y.1 < t := by
      intro t ht
      obtain ⟨u, hu, rfl⟩ := List.mem_map.1 ht
      exact hy u hu
    rw [Terms.mergeStep]
    split
    · next hst =>
      refine (hrest _ hys).push (fun t ht => ?_) _
      rcases hsymbols _ t ht with h | h
      · exact hus t h
      · rcases List.mem_cons.1 h with rfl | h
        · exact hst
        · exact hst.trans (habove t h)
    · split
      · next hts =>
        refine (ih hys').push (fun t ht => ?_) _
        rcases mem_symbols_mergeStep hsymbols ht with rfl | h | h
        · exact hts
        · exact hts.trans (hus t h)
        · exact habove t h
      · next hst hts =>
        obtain rfl : s = y.1 := le_antisymm (not_lt.1 hts) (not_lt.1 hst)
        exact (hrest _ hys').push (fun t ht => (hsymbols _ t ht).elim (hus t) (habove t)) _

/-- Merging keeps terms in order. -/
lemma IsAscending.merge (hxs : xs.IsAscending) (hys : ys.IsAscending) :
    (merge f xs ys).IsAscending := by
  induction xs generalizing ys with
  | nil =>
    induction ys with
    | nil => exact List.Pairwise.nil
    | cons y ys ih =>
      obtain ⟨hy, hys⟩ := List.pairwise_cons.1 hys
      refine (ih hys).push (fun t ht => ?_) _
      rcases mem_symbols_merge ht with h | h
      · exact absurd h List.not_mem_nil
      · obtain ⟨u, hu, rfl⟩ := List.mem_map.1 h
        exact hy u hu
  | cons x xs ih =>
    obtain ⟨hx, hxs⟩ := List.pairwise_cons.1 hxs
    refine .mergeStep (fun ys t ht => mem_symbols_merge ht) (fun ys => ih hxs) (fun t ht => ?_) hys
    obtain ⟨u, hu, rfl⟩ := List.mem_map.1 ht
    exact hx u hu

/-! ## Fresh terms -/

/-- A fresh term comes last. -/
lemma IsAscending.concat {ts : Terms ℝ} {n : Symbol} (h : ts.IsAscending) (hbelow : ts.IsBelow n)
    (a : ℝ) : IsAscending (ts ++ [(n, a)]) := by
  refine List.pairwise_append.2 ⟨h, List.pairwise_singleton _ _, fun t ht u hu => ?_⟩
  rw [List.mem_singleton.1 hu]
  exact hbelow t ht

lemma IsBelow.concat {ts : Terms ℝ} {n : Symbol} (h : ts.IsBelow n) (a : ℝ) :
    IsBelow (n + 1) (ts ++ [(n, a)]) :=
  isBelow_append.2
    ⟨h.mono (Nat.le_succ n), isBelow_cons.2 ⟨Nat.lt_succ_self n, isBelow_nil⟩⟩

/-! ## The largest value -/

/-- If no symbol occurs twice, then the noise can be chosen such that all terms are as large as they
can be. -/
lemma IsAscending.exists_value_eq {ts : Terms ℝ} (h : ts.IsAscending) :
    ∃ ε : Symbol → ℝ, (∀ s, |ε s| ≤ 1) ∧ ts.value ε = (ts.map fun t => |t.2|).sum := by
  induction ts with
  | nil => exact ⟨fun _ => 0, by simp, rfl⟩
  | cons t ts ih =>
    obtain ⟨ht, hts⟩ := List.pairwise_cons.1 h
    obtain ⟨ε, hε, hsum⟩ := ih hts
    refine ⟨Function.update ε t.1 (SignType.sign t.2), fun s => ?_, ?_⟩
    · rcases eq_or_ne s t.1 with rfl | hs
      · rw [Function.update_self]
        cases SignType.sign t.2 <;> simp
      · rw [Function.update_of_ne hs]
        exact hε s
    · have hrest : value (Function.update ε t.1 (SignType.sign t.2)) ts = value ε ts := by
        rw [value, value]
        refine congrArg List.sum (List.map_congr_left fun u hu => ?_)
        rw [Function.update_of_ne (ht u hu).ne']
      rw [value_cons, hrest, hsum, Function.update_self, self_mul_sign, List.map_cons,
        List.sum_cons]

end Terms

namespace Affine

/-- An error whose terms are in order and use only symbols below `n`; errors have no central
value. -/
structure IsOrdered (f : Affine ℝ) (n : Symbol) : Prop where
  /-- The terms are in order. -/
  isAscending : f.terms.IsAscending
  /-- The symbols are below `n`. -/
  isBelow : f.terms.IsBelow n
  /-- The central value is zero. -/
  central_eq : f.central = 0

variable {f g : Affine ℝ} {n n' : Symbol}

/-- Scaling keeps terms in order. -/
lemma isAscending_terms_scale (hf : f.terms.IsAscending) (k : ℝ) :
    (f.scale k).terms.IsAscending := by
  rw [scale]
  split
  · exact List.Pairwise.nil
  · exact List.pairwise_map.2 hf

namespace IsOrdered

lemma mono (hf : f.IsOrdered n) (h : n ≤ n') : f.IsOrdered n' :=
  ⟨hf.isAscending, hf.isBelow.mono h, hf.central_eq⟩

/-- Some noise makes an error as large as its noise bound. -/
lemma exists_value_eq_noiseBound (hf : f.IsOrdered n) :
    ∃ ε : Symbol → ℝ, (∀ s, |ε s| ≤ 1) ∧ f.value ε = f.noiseBound := by
  obtain ⟨ε, hε, hsum⟩ := hf.isAscending.exists_value_eq
  exact ⟨ε, hε, by rw [value, hf.central_eq, zero_add, hsum, noiseBound_eq]⟩

lemma abs_value_le (hf : f.IsOrdered n) {ε : Symbol → ℝ} (hε : ∀ s, |ε s| ≤ 1) :
    |f.value ε| ≤ f.noiseBound := by
  rw [← sub_zero (f.value ε), ← hf.central_eq]
  exact f.abs_value_sub_central_le hε

lemma add (hf : f.IsOrdered n) (hg : g.IsOrdered n) : (f.add g).IsOrdered n where
  isAscending := hf.isAscending.merge hg.isAscending
  isBelow := hf.isBelow.merge hg.isBelow
  central_eq := by simp [Affine.add, hf.central_eq, hg.central_eq]

lemma sub (hf : f.IsOrdered n) (hg : g.IsOrdered n) : (f.sub g).IsOrdered n where
  isAscending := hf.isAscending.merge hg.isAscending
  isBelow := hf.isBelow.merge hg.isBelow
  central_eq := by simp [Affine.sub, hf.central_eq, hg.central_eq]

end IsOrdered

lemma isOrdered_zero : (zero : Affine ℝ).IsOrdered n :=
  ⟨List.Pairwise.nil, Terms.isBelow_nil, rfl⟩

lemma IsOrdered.addNoise (hf : f.IsOrdered n) (m : ℝ) :
    n ≤ (f.addNoise m n).2 ∧ (f.addNoise m n).1.IsOrdered (f.addNoise m n).2 := by
  rw [Affine.addNoise]
  split
  · exact ⟨Nat.le_succ n, hf.isAscending.concat hf.isBelow _, hf.isBelow.concat _, hf.central_eq⟩
  · exact ⟨le_rfl, hf⟩

lemma withError_isOrdered (m : ℝ) :
    n ≤ (withError 0 m n).2 ∧ (withError 0 m n).1.IsOrdered (withError 0 m n).2 :=
  isOrdered_zero.addNoise m

/-- A fresh error has the bound that it is made with. -/
@[simp] lemma noiseBound_withError (c m : ℝ) : (withError c m n).1.noiseBound = |m| := by
  rw [withError, Affine.addNoise, Number.abs_real, noiseBound_eq]
  split
  · change (List.map _ ([] ++ [(n, |m|)])).sum = |m|
    simp
  · next h =>
    have hm : |m| = 0 := le_antisymm (not_lt.1 h) (abs_nonneg m)
    rw [hm]
    rfl

@[simp] lemma noiseBound_flatten (f : Affine ℝ) (n : Symbol) :
    (f.flatten n).1.noiseBound = f.noiseBound := by
  rw [flatten, noiseBound_withError, abs_of_nonneg f.noiseBound_nonneg]

end Affine

end Roundoff
