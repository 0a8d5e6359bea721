/-
# What a closed form leaves alone

Bounding a loop in closed form goes through many stages, each of which may meet an obstacle: the
shape of the loop, its symbols, bounds of derivatives, and a pass through its blocks on a store of
its own.  Nothing is settled before all of them have succeeded.  If one does not, the visits that
are made instead start from the state from before.

If all succeed, the symbols that the loop computes get new errors and keep their ranges, the phis
after the loop that take over a symbol get errors and keep the ranges that are known, and the
instructions in question are settled.  `SettlesOnly` says what such a step may do, and steps that
follow one another compose; of the pass through the blocks only its rounding errors are left.
-/
import Mathlib
import Roundoff.Proofs.Loop.Exits
import Roundoff.Proofs.Store.Edits
import Roundoff.Proofs.Transfer.Runs

namespace Roundoff

variable {R σ : Type} [Number R]

/-! ## Errors of labels -/

namespace Targets

variable {t t' t'' : Targets R} {k l : String} {x : R}

/-- No error of a label is lost or becomes smaller, whatever preorder the numbers have in which
maxima are bounds. -/
def IsRaisedTo (t t' : Targets R) : Prop :=
  ∀ le : R → R → Prop, (∀ x, le x x) → (∀ x y z, le x y → le y z → le x z) →
    (∀ x y, le x (Number.max x y)) →
      ∀ l x, t.errors.get? l = some x → ∃ y, t'.errors.get? l = some y ∧ le x y

lemma IsRaisedTo.refl (t : Targets R) : t.IsRaisedTo t := fun _ hrefl _ _ _ x hx => ⟨x, hx, hrefl x⟩

lemma IsRaisedTo.trans (h : t.IsRaisedTo t') (h' : t'.IsRaisedTo t'') : t.IsRaisedTo t'' := by
  intro le hrefl htrans hmax l x hx
  obtain ⟨y, hy, hxy⟩ := h le hrefl htrans hmax l x hx
  obtain ⟨z, hz, hyz⟩ := h' le hrefl htrans hmax l y hy
  exact ⟨z, hz, htrans x y z hxy hyz⟩

lemma isRaisedTo_raise (t : Targets R) (l : String) (x : R) : t.IsRaisedTo (t.raise l x) := by
  intro le hrefl _ hmax k y hy
  rw [raise]
  by_cases hk : l = k
  · subst hk
    rw [hy]
    exact ⟨Number.max y x, by rw [Table.get?_insert, if_pos rfl], hmax y x⟩
  · refine ⟨y, ?_, hrefl y⟩
    split <;> rwa [Table.get?_insert, if_neg hk]

lemma errors_raise_of_ne (t : Targets R) (x : R) (h : l ≠ k) :
    (t.raise l x).errors.get? k = t.errors.get? k := by
  rw [raise]
  split <;> rw [Table.get?_insert, if_neg h]

/-- Exact errors that are covered stay covered. -/
lemma IsRaisedTo.covers {t t' : Targets ℝ} {x : ℝ} (h : t.IsRaisedTo t') (hx : t.Covers l x) :
    t'.Covers l x := by
  obtain ⟨y, hy, hle⟩ := hx
  obtain ⟨z, hz, hyz⟩ := h (· ≤ ·) le_refl (fun _ _ _ => le_trans)
    (fun x y => by simp) l y hy
  exact ⟨z, hz, hle.trans hyz⟩

end Targets

namespace Store

variable (s : Store R) (k : Key) (g : Affine R)

lemma isRaisedTo_setError : s.targets.IsRaisedTo (s.setError k g).targets := by
  rw [setError, raiseTarget]
  split
  · exact Targets.isRaisedTo_raise _ _ _
  · exact .refl _

lemma targets_setError_eq {l : String} (hl : s.labels.get? k ≠ some l) :
    (s.setError k g).targets.errors.get? l = s.targets.errors.get? l := by
  rw [setError, raiseTarget]
  split
  · next label hlabel =>
    exact Targets.errors_raise_of_ne _ _ fun heq => hl (heq ▸ hlabel)
  · rfl

end Store

/-! ## Steps that settle -/

/-- Only the estimates of the given symbols and phis change, and the instructions of the given
numbers are settled. -/
structure Activation.SettlesOnly (a : Activation R) (symbols exits : Set Key) (ids : Set InstId)
    (a' : Activation R) : Prop where
  /-- Nothing changes for other keys. -/
  get?_eq : ∀ k, k ∉ symbols → k ∉ exits → a'.store.get? k = a.store.get? k
  /-- A symbol gets an error and keeps its range. -/
  get?_symbol : ∀ k ∈ symbols, k ∉ exits → ∃ g,
    a'.store.get? k = some { (a.store.get? k).getD Estimate.unknown with error := some g }
  /-- A phi gets an error. -/
  error?_exit : ∀ k ∈ exits, ∃ g, a'.store.error? k = some g
  /-- A phi keeps a range that is known. -/
  range?_exit : ∀ k ∈ exits, ∀ r, a.store.range? k = some r → r.isUnknown = false →
    a'.store.range? k = some r
  /-- The instructions are settled, and no others are. -/
  contains_pinned_iff : ∀ id, a'.pinned.contains id = true ↔ a.pinned.contains id = true ∨ id ∈ ids
  /-- There are no new verdicts on comparisons. -/
  verdicts_eq : a'.verdicts = a.verdicts
  /-- The fields of objects stay as they are. -/
  objects_eq : a'.store.objects = a.store.objects
  /-- The values have the same labels. -/
  labels_eq : a'.store.labels = a.store.labels
  /-- The errors of labels only rise. -/
  targets_raised : a.store.targets.IsRaisedTo a'.store.targets
  /-- The errors of labels of other values stay as they are. -/
  targets_eq : ∀ l, (∀ k, k ∈ symbols ∨ k ∈ exits → a.store.labels.get? k ≠ some l) →
    a'.store.targets.errors.get? l = a.store.targets.errors.get? l

namespace Activation.SettlesOnly

variable {a a' a'' : Activation R} {symbols symbols' exits exits' : Set Key} {ids ids' : Set InstId}
  {k : Key}

lemma refl (a : Activation R) : a.SettlesOnly ∅ ∅ ∅ a where
  get?_eq _ _ _ := rfl
  get?_symbol _ hk := hk.elim
  error?_exit _ hk := hk.elim
  range?_exit _ hk := hk.elim
  contains_pinned_iff id := by simp
  verdicts_eq := rfl
  objects_eq := rfl
  labels_eq := rfl
  targets_raised := .refl _
  targets_eq _ _ := rfl

/-- A range stays as it is where no phi is settled. -/
lemma range?_eq_of_notMem (h : a.SettlesOnly symbols exits ids a') (hk : k ∉ exits) {r : Range R}
    (hr : a.store.range? k = some r) : a'.store.range? k = some r := by
  by_cases hsymbol : k ∈ symbols
  · obtain ⟨e, he, rfl⟩ := Option.map_eq_some_iff.1 hr
    obtain ⟨g, hg⟩ := h.get?_symbol k hsymbol hk
    rw [Store.range?, hg, he]
    rfl
  · rwa [Store.range?, h.get?_eq k hsymbol hk]

lemma trans (h : a.SettlesOnly symbols exits ids a')
    (h' : a'.SettlesOnly symbols' exits' ids' a'') :
    a.SettlesOnly (symbols ∪ symbols') (exits ∪ exits') (ids ∪ ids') a'' where
  get?_eq k hk hk' := by
    rw [Set.mem_union, not_or] at hk hk'
    rw [h'.get?_eq k hk.2 hk'.2, h.get?_eq k hk.1 hk'.1]
  get?_symbol k hk hk' := by
    rw [Set.mem_union, not_or] at hk'
    by_cases hlast : k ∈ symbols'
    · obtain ⟨g, hg⟩ := h'.get?_symbol k hlast hk'.2
      refine ⟨g, hg.trans ?_⟩
      by_cases hfirst : k ∈ symbols
      · obtain ⟨f, hf⟩ := h.get?_symbol k hfirst hk'.1
        rw [hf, Option.getD_some]
      · rw [h.get?_eq k hfirst hk'.1]
    · rw [h'.get?_eq k hlast hk'.2]
      exact h.get?_symbol k (hk.resolve_right hlast) hk'.1
  error?_exit k hk := by
    by_cases hlast : k ∈ exits'
    · exact h'.error?_exit k hlast
    · by_cases hsymbol : k ∈ symbols'
      · obtain ⟨g, hg⟩ := h'.get?_symbol k hsymbol hlast
        exact ⟨g, by rw [Store.error?, hg, Option.bind_some]⟩
      · rw [Store.error?, h'.get?_eq k hsymbol hlast]
        exact h.error?_exit k (hk.resolve_right hlast)
  range?_exit k hk r hr hknown := by
    -- the first steps keep the range, whether they reach the phi or not
    have hmiddle : a'.store.range? k = some r := by
      by_cases hfirst : k ∈ exits
      · exact h.range?_exit k hfirst r hr hknown
      · exact h.range?_eq_of_notMem hfirst hr
    by_cases hlast : k ∈ exits'
    · exact h'.range?_exit k hlast r hmiddle hknown
    · exact h'.range?_eq_of_notMem hlast hmiddle
  contains_pinned_iff id := by
    rw [h'.contains_pinned_iff, h.contains_pinned_iff, Set.mem_union, or_assoc]
  verdicts_eq := h'.verdicts_eq.trans h.verdicts_eq
  objects_eq := h'.objects_eq.trans h.objects_eq
  labels_eq := h'.labels_eq.trans h.labels_eq
  targets_raised := h.targets_raised.trans h'.targets_raised
  targets_eq l hl := by
    rw [h'.targets_eq l fun k hk => ?_, h.targets_eq l fun k hk => ?_]
    · exact hl k (hk.imp (Set.mem_union_left _) (Set.mem_union_left _))
    · rw [h.labels_eq]
      exact hl k (hk.imp (Set.mem_union_right _) (Set.mem_union_right _))

/-- A settled symbol may also be seen as a phi. -/
lemma symbols_to_exits (h : a.SettlesOnly symbols ∅ ids a') : a.SettlesOnly ∅ symbols ids a' where
  get?_eq k _ hk := h.get?_eq k hk (Set.notMem_empty k)
  get?_symbol _ hk := hk.elim
  error?_exit k hk := by
    obtain ⟨g, hg⟩ := h.get?_symbol k hk (Set.notMem_empty k)
    exact ⟨g, by rw [Store.error?, hg, Option.bind_some]⟩
  range?_exit k _ r hr _ := h.range?_eq_of_notMem (Set.notMem_empty k) hr
  contains_pinned_iff := h.contains_pinned_iff
  verdicts_eq := h.verdicts_eq
  objects_eq := h.objects_eq
  labels_eq := h.labels_eq
  targets_raised := h.targets_raised
  targets_eq l hl := h.targets_eq l fun k hk => hl k hk.symm

/-- A phi whose range is not known may take over a range. -/
lemma setRange (h : a.SettlesOnly symbols exits ids a') (hk : k ∈ exits)
    (hunknown : ∀ r, a'.store.range? k = some r → r.isUnknown = true) (range : Range R) :
    a.SettlesOnly symbols exits ids { a' with store := a'.store.setRange k range } where
  get?_eq l hl hl' := by
    have hne : k ≠ l := fun heq => hl' (heq ▸ hk)
    rw [Store.get?_setRange, if_neg hne]
    exact h.get?_eq l hl hl'
  get?_symbol l hl hl' := by
    have hne : k ≠ l := fun heq => hl' (heq ▸ hk)
    rw [Store.get?_setRange, if_neg hne]
    exact h.get?_symbol l hl hl'
  error?_exit l hl := by
    rw [Store.error?_setRange]
    exact h.error?_exit l hl
  range?_exit l hl r hr hknown := by
    have hkept := h.range?_exit l hl r hr hknown
    have hne : k ≠ l := by
      rintro rfl
      rw [hunknown r hkept] at hknown
      cases hknown
    rwa [Store.range?, Store.get?_setRange, if_neg hne]
  contains_pinned_iff := h.contains_pinned_iff
  verdicts_eq := h.verdicts_eq
  objects_eq := h.objects_eq
  labels_eq := h.labels_eq
  targets_raised := h.targets_raised
  targets_eq := h.targets_eq

end Activation.SettlesOnly

namespace Body

variable {b : Body R} {a a' : Activation R} {shape : LoopShape} {system : LoopSystem R}
  {i : Instruction R} {header : BlockId}

lemma ensures_pin_settlesOnly (a : Activation R) (i : Instruction R) (k : Key) (x : R) :
    (pin a i k x).Ensures (a.SettlesOnly {k} ∅ {i.id}) := by
  refine (Affine.ensures_withError 0 x).andThen fun g => Fresh.ensures_pure ?_
  refine ⟨fun l hl _ => ?_, fun l hl _ => ⟨g, ?_⟩, fun _ hl => hl.elim, fun _ hl => hl.elim,
    fun id => ?_, rfl, ?_, ?_, ?_, fun l hl => ?_⟩
  · rw [Store.get?_setError, if_neg fun heq => hl heq.symm]
  · rw [Store.get?_setError, if_pos hl.symm, hl]
  · rw [contains_insert, Bool.or_eq_true, decide_eq_true_iff, or_comm, Set.mem_singleton_iff,
      @eq_comm _ id]
  · exact Store.objects_setError _ _ _
  · exact Store.labels_raiseTarget _ _ _
  · exact Store.isRaisedTo_setError _ _ _
  · exact Store.targets_setError_eq _ _ _ (hl k (.inl rfl))

/-- The instruction of the loop that defines a symbol. -/
def loopInst? (b : Body R) (shape : LoopShape) (s : LoopSymbol R) : Option (Instruction R) :=
  (b.function.definition? s.value).filter fun i => shape.contains i.block

/-- The keys of the symbols that are defined in the loop. -/
def loopKeys (b : Body R) (shape : LoopShape) (ss : List (LoopSymbol R)) : Set Key :=
  {k | ∃ s ∈ ss, s.key = k ∧ (b.loopInst? shape s).isSome}

/-- The numbers of the instructions of the loop that define symbols. -/
def loopIds (b : Body R) (shape : LoopShape) (ss : List (LoopSymbol R)) : Set InstId :=
  {id | ∃ s ∈ ss, ∃ i, b.loopInst? shape s = some i ∧ i.id = id}

lemma pinSymbol_eq (a : Activation R) (s : LoopSymbol R) (x : R) :
    b.pinSymbol shape a s x = match b.loopInst? shape s with
      | some i => pin a i s.key x
      | none => pure a := by
  rw [pinSymbol, loopInst?]
  cases b.function.definition? s.value with
  | none => rfl
  | some i =>
    dsimp only [Option.filter_some]
    cases shape.contains i.block <;> rfl

lemma ensures_pinSymbol_settlesOnly (a : Activation R) (s : LoopSymbol R) (x : R) :
    (b.pinSymbol shape a s x).Ensures
      (a.SettlesOnly (b.loopKeys shape [s]) ∅ (b.loopIds shape [s])) := by
  rw [pinSymbol_eq]
  cases hi : b.loopInst? shape s with
  | none =>
    have hkeys : b.loopKeys shape [s] = ∅ := by
      ext k
      simp [loopKeys, hi]
    have hids : b.loopIds shape [s] = ∅ := by
      ext id
      simp [loopIds, hi]
    rw [hkeys, hids]
    exact Fresh.ensures_pure (.refl a)
  | some i =>
    have hkeys : b.loopKeys shape [s] = {s.key} := by
      ext k
      simp [loopKeys, hi]
    have hids : b.loopIds shape [s] = {i.id} := by
      ext id
      simp [loopIds, hi]
    rw [hkeys, hids]
    exact ensures_pin_settlesOnly a i s.key x

/-- The symbols are settled one after the other. -/
lemma ensures_foldlM_settlesOnly (shape : LoopShape) (a : Activation R) (system : LoopSystem R)
    (errors : Vector R system.length) (js : List (Fin system.length)) :
    (js.foldlM (fun a j => b.pinSymbol shape a (system.get j) (errors.get j)) a).Ensures
      (a.SettlesOnly (b.loopKeys shape (js.map system.get)) ∅
        (b.loopIds shape (js.map system.get))) := by
  induction js generalizing a with
  | nil =>
    have hkeys : b.loopKeys shape [] = ∅ := by
      ext k
      simp [loopKeys]
    have hids : b.loopIds shape [] = ∅ := by
      ext id
      simp [loopIds]
    rw [List.map_nil, hkeys, hids]
    exact Fresh.ensures_pure (.refl a)
  | cons j js ih =>
    have hkeys : b.loopKeys shape ((j :: js).map system.get) =
        b.loopKeys shape [system.get j] ∪ b.loopKeys shape (js.map system.get) := by
      ext k
      simp [loopKeys]
    have hids : b.loopIds shape ((j :: js).map system.get) =
        b.loopIds shape [system.get j] ∪ b.loopIds shape (js.map system.get) := by
      ext id
      simp [loopIds]
    rw [List.foldlM_cons, hkeys, hids]
    refine (ensures_pinSymbol_settlesOnly a (system.get j) (errors.get j)).bind fun a' ha' => ?_
    refine (ih a').mono fun a'' ha'' => ?_
    have htrans := ha'.trans ha''
    rwa [Set.union_empty] at htrans

lemma ensures_pinSymbols_settlesOnly (shape : LoopShape) (a : Activation R)
    (errors : Vector R system.length) :
    (b.pinSymbols shape errors a).Ensures
      (a.SettlesOnly (b.loopKeys shape system) ∅ (b.loopIds shape system)) := by
  have hall := ensures_foldlM_settlesOnly (b := b) shape a system errors
    (List.finRange system.length)
  rwa [List.map_get_finRange] at hall

/-- A phi after the loop gets the error of a symbol, and its range if none is known. -/
lemma ensures_pinExit_settlesOnly (a : Activation R) (i : Instruction R) (s : LoopSymbol R)
    (x : R) :
    (b.pinExit a i s x).Ensures (a.SettlesOnly ∅ {b.key i} {i.id}) := by
  rw [pinExit]
  refine (ensures_pin_settlesOnly a i (b.key i) x).bind fun a' ha' => ?_
  have ha' := ha'.symbols_to_exits
  split
  · next range _ =>
    refine Fresh.ensures_pure ?_
    split
    · exact ha'
    · next hknown =>
      refine ha'.setRange rfl (fun r hr => ?_) range
      simpa [hr] using hknown
  · exact Fresh.ensures_pure ha'

/-- The phis that take over a symbol. -/
def takingOver (b : Body R) (shape : LoopShape) (system : LoopSystem R)
    (is : List (Instruction R)) : List (Instruction R) :=
  is.filter fun i => (b.exitSymbol? shape system i).isSome

/-- The phis after the loop are settled one after the other, and listed. -/
lemma ensures_pinExits_settlesOnly (shape : LoopShape) (a : Activation R) (system : LoopSystem R)
    (errors : Vector R system.length) (is : List (Instruction R)) :
    (b.pinExits shape system errors a is).Ensures fun r =>
      r.1 = (b.takingOver shape system is).map b.key ∧
      a.SettlesOnly ∅ {k | k ∈ (b.takingOver shape system is).map b.key}
        {id | id ∈ (b.takingOver shape system is).map Instruction.id} r.2 := by
  induction is generalizing a with
  | nil =>
    refine Fresh.ensures_pure ⟨rfl, ?_⟩
    simpa [takingOver] using Activation.SettlesOnly.refl a
  | cons i is ih =>
    rw [pinExits]
    cases hi : b.exitSymbol? shape system i with
    | none =>
      have hrest : b.takingOver shape system (i :: is) = b.takingOver shape system is := by
        simp [takingOver, hi]
      rw [hrest]
      exact ih a
    | some j =>
      have hrest : b.takingOver shape system (i :: is) = i :: b.takingOver shape system is := by
        simp [takingOver, hi]
      rw [hrest]
      refine (ensures_pinExit_settlesOnly a i (system.get j) (errors.get j)).bind fun a' ha' => ?_
      refine (ih a').bind fun r hr => Fresh.ensures_pure ⟨?_, ?_⟩
      · rw [hr.1, List.map_cons]
      · have htrans := ha'.trans hr.2
        have hkeys : {k | k ∈ (i :: b.takingOver shape system is).map b.key}
            = {b.key i} ∪ {k | k ∈ (b.takingOver shape system is).map b.key} := by
          ext k
          simp
        have hids : {id | id ∈ (i :: b.takingOver shape system is).map Instruction.id}
            = {i.id} ∪ {id | id ∈ (b.takingOver shape system is).map Instruction.id} := by
          ext id
          simp
        rwa [Set.union_empty, ← hkeys, ← hids] at htrans

/-! ## Closed forms -/

/-- A closed form changes the state `a` to the state `a'` where the loop and the block after it are
concerned only. -/
structure AppliesLocally (b : Body R) (a : Activation R) (header : BlockId) (bound : LoopBound R)
    (system : LoopSystem R) (a' : Activation R) : Prop where
  /-- The blocks of the loop. -/
  shape_eq : b.flow.loops.shape header = .ok bound.shape
  /-- The system of the loop. -/
  system_eq : b.loopSystem a.store bound.shape = .ok system
  /-- The phis after the loop that take over a symbol are listed. -/
  exits_eq : bound.exits =
    (b.takingOver bound.shape system (b.function.phis bound.shape.exit)).map b.key
  /-- The symbols that are defined in the loop and the listed phis are settled, and nothing else. -/
  settlesOnly : a.SettlesOnly (b.loopKeys bound.shape system) {k | k ∈ bound.exits}
    (b.loopIds bound.shape system ∪ {id | id ∈
      (b.takingOver bound.shape system (b.function.phis bound.shape.exit)).map Instruction.id}) a'
  /-- Nothing changes for the values that the loop does not define, but for the listed phis. -/
  get?_eq : ∀ v k, b.keyOf? v = some k →
    (∀ i, b.function.definition? v = some i → bound.shape.contains i.block = false) →
      k ∉ bound.exits → a'.store.get? k = a.store.get? k

/-- The symbols of the loop are those of values that the loop defines. -/
lemma notMem_loopKeys {store : Store R} {v : Value R} {k : Key}
    (hsystem : b.loopSystem store shape = .ok system) (hv : b.keyOf? v = some k)
    (hout : ∀ i, b.function.definition? v = some i → shape.contains i.block = false) :
    k ∉ b.loopKeys shape system := by
  rintro ⟨s, hs, rfl, hdefined⟩
  obtain ⟨i, hi⟩ := Option.isSome_iff_exists.1 hdefined
  obtain ⟨hi, hin⟩ := Option.filter_eq_some_iff.1 hi
  obtain rfl : s.value = v := keyOf?_inj (keyOf?_of_mem_loopSystem hsystem s hs) hv
  rw [hout i hi] at hin
  cases hin

/-- What a closed form changes if it succeeds. -/
lemma appliesLocally_of_closedForm {k : ℕ} {bound : LoopBound R} {n n' : Symbol}
    (h : (b.closedForm a header k).run n = (.ok (bound, a'), n')) :
    ∃ system, b.AppliesLocally a header bound system a' := by
  obtain ⟨system, K, zeroed, middle, hsettling⟩ := exists_settling h
  obtain ⟨n₁, -, n₂, hmiddle, hexits⟩ := hsettling.settled_eq
  have hsymbols := (ensures_pinSymbols_settlesOnly (b := b) bound.shape a
    (b.closedErrors a zeroed system K k) n₁).2
  rw [hmiddle] at hsymbols
  have hphis := (ensures_pinExits_settlesOnly (b := b) bound.shape middle system
    (b.closedErrors a zeroed system K k) (b.function.phis bound.shape.exit) n₂).2
  rw [hexits] at hphis
  obtain ⟨hlisted, hphis⟩ := hphis
  have hsettles := hsymbols.trans hphis
  rw [Set.union_empty, Set.empty_union, ← hlisted] at hsettles
  exact ⟨system, hsettling.shape_eq, hsettling.system_eq, hlisted, hsettles, fun v k hv hout hk =>
    hsettles.get?_eq k (notMem_loopKeys hsettling.system_eq hv hout) hk⟩

/-- **A closed form changes all that it settles or nothing, and only that.**  If it meets an
obstacle, the fallback is visited from the state from before; if not, the step leads to a state that
differs from it in the symbols of the loop and the listed phis after it only. -/
theorem runItem_closedForm_local (b : Body R) (h : CallHandler R σ) (a : Activation R) (w : σ)
    (header : BlockId) (tripCount : UInt32) (fallback : List Visit) (n : Symbol) :
    (∀ o n', (b.closedForm a header tripCount.toNat).run n = (.error o, n') →
      b.runItem h a w (.closedForm header tripCount fallback) n = b.runVisits h a w fallback n') ∧
    ∀ bound a' n', (b.closedForm a header tripCount.toNat).run n = (.ok (bound, a'), n') →
      b.runItem h a w (.closedForm header tripCount fallback) n = (⟨.ok (), a', w⟩, n') ∧
        ∃ system, b.AppliesLocally a header bound system a' := by
  have hrun : b.runItem h a w (.closedForm header tripCount fallback) n =
      match (b.closedForm a header tripCount.toNat).run n with
      | (.ok (_, a'), n') => (⟨.ok (), a', w⟩, n')
      | (.error _, n') => b.runVisits h a w fallback n' := by
    rw [runItem, Fresh.bind_apply]
    cases (b.closedForm a header tripCount.toNat).run n with
    | mk r n' => cases r <;> rfl
  constructor
  · intro o n' hclosed
    rw [hrun, hclosed]
  · intro bound a' n' hclosed
    exact ⟨by rw [hrun, hclosed], appliesLocally_of_closedForm hclosed⟩

end Body

end Roundoff
