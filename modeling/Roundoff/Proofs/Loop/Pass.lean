/-
# One pass through a loop

A pass through linear code records for every result an error that splits into an amount and a rest.
The amounts follow the code: the amount of a combination is the combination of the amounts, and the
amount of a phi is bounded by what the phi reads.  The rest is what the same pass records when all
errors have been set to zero.

The induction is on `LinearCode`.  It extends the amounts by one key at a time, and since no key is
recorded twice, what has been found for earlier keys stays true.
-/
import Mathlib
import Roundoff.ClosedForm.Bound
import Roundoff.Analysis.Calls
import Roundoff.Proofs.Loop.Rules

namespace Roundoff

variable {ε : Symbol → ℝ} {known : Set Key} {n n' : Symbol} {w w' : Supply} {L : Key → ℝ}
  {b : Body ℝ} {i : Instruction ℝ} {is : List (Instruction ℝ)} {x y : Value ℝ} {α β ℓ : ℝ}
  {a a₁ a₂ a' : Activation ℝ} {σ σ' : Type} {h : CallHandler ℝ σ} {h' : CallHandler ℝ σ'}
  {edges : PhiEdges} {world : σ} {world' : σ'} {shape : LoopShape} {outside : Set Key}

lemma Activation.Keeps.records {k : Key} {g : Affine ℝ} (hkeep : a.Keeps a₁)
    (hrec : a₁.Records a₂ k g) : a.Records a₂ k g where
  pinned_eq := hrec.pinned_eq.trans hkeep.pinned_eq
  error_self := hrec.error_self
  error_of_ne l hl := (hrec.error_of_ne l hl).trans (hkeep.error_eq l)

namespace Body

/-! ## Visits of instructions -/

/-- The state in which the rule for an instruction is applied: the annotated range has been
recorded. -/
noncomputable def annotated (b : Body ℝ) (a : Activation ℝ) (i : Instruction ℝ) : Activation ℝ :=
  match i.scalarInfo? with
  | none => a
  | some info => { a with store := a.store.setRange (b.key i) info.rangeOrZero }

lemma annotated_keeps (a : Activation ℝ) (i : Instruction ℝ) : a.Keeps (b.annotated a i) := by
  unfold annotated
  split
  · exact ⟨rfl, fun _ => rfl⟩
  · exact ⟨rfl, fun l => Store.error?_setRange _ _ l _⟩

lemma resultRange?_annotated (a a' : Activation ℝ) (hinfo : i.scalarInfo?.isSome) :
    b.resultRange? (b.annotated a i).store i = b.resultRange? (b.annotated a' i).store i ∧
      (b.resultRange? (b.annotated a i).store i).isSome := by
  obtain ⟨info, hinfo⟩ := Option.isSome_iff_exists.1 hinfo
  have hrange (a : Activation ℝ) :
      b.resultRange? (b.annotated a i).store i = some info.rangeOrZero := by
    rw [annotated, hinfo, resultRange?, Store.range?, Store.get?_setRange, if_pos rfl]
    rfl
  rw [hrange, hrange]
  exact ⟨rfl, rfl⟩

lemma splits_annotated (hs : a.store.Splits ε a'.store known n w L) :
    (b.annotated a i).store.Splits ε (b.annotated a' i).store known n w L := by
  intro k hk
  rw [(annotated_keeps a i).error_eq, (annotated_keeps a' i).error_eq]
  exact hs k hk

lemma visit_eq (hpin : a.pinned.contains i.id = false) (hfresh : i.StartsFresh) :
    b.visit h edges a world i = b.operate h edges (b.annotated a i) world i := by
  rw [visit, hpin, if_neg Bool.false_ne_true, annotated]
  cases hinfo : i.scalarInfo? with
  | none => rfl
  | some info =>
    dsimp only
    rw [hfresh info hinfo]
    rfl

lemma attempt_pairs {rule rule' : Attempt (Activation ℝ)}
    {P : Activation ℝ → Activation ℝ → Symbol → Supply → Prop}
    (hrule : Attempt.Pairs n w rule rule' P) :
    Fresh.Pairs n w (attempt a world rule) (attempt a' world' rule') fun o o' n' w' =>
      o.answer = .ok true ∧ o'.answer = .ok true ∧ P o.state o'.state n' w' := by
  unfold attempt
  refine Fresh.Pairs.bind hrule fun r r' n' w' _ _ hr => ?_
  obtain ⟨a₁, a₁', rfl, rfl, hP⟩ := hr
  exact Fresh.pairs_pure ⟨rfl, rfl, hP⟩

end Body

lemma SplitStep.of_annotated {b₁ b₁' : Activation ℝ}
    (h : SplitStep ε (b.key i) ℓ (b.annotated a i) (b.annotated a' i) b₁ b₁' n w) :
    SplitStep ε (b.key i) ℓ a a' b₁ b₁' n w := by
  obtain ⟨g, z, hg, hz, hsplits⟩ := h
  exact ⟨g, z, (b.annotated_keeps a i).records hg, (b.annotated_keeps a' i).records hz, hsplits⟩

namespace Body

lemma visit_linear_pairs (hε : ∀ t, |ε t| ≤ 1) (hs : a.store.Splits ε a'.store known n w L)
    (hforms : i.op.Forms α x β y) (hfresh : i.StartsFresh)
    (hround : i.op.isRounding → i.scalarInfo?.isSome) (hx : b.Reads known i x)
    (hy : b.Reads known i y) (hpin : a.pinned.contains i.id = false)
    (hpin' : a'.pinned.contains i.id = false) :
    Fresh.Pairs n w (b.visit h edges a world i) (b.visit h' .all a' world' i) fun o o' n' w' =>
      o.answer = .ok true ∧ o'.answer = .ok true ∧
        SplitStep ε (b.key i) (α * x.amount b.function.id L + β * y.amount b.function.id L) a a'
          o.state o'.state n' w' := by
  have hrange := resultRange?_annotated (b := b) (i := i) a a'
  rw [visit_eq hpin hfresh, visit_eq hpin' hfresh, operate, operate]
  rcases hforms.binary_or_cast with ⟨op, lhs, rhs, hop⟩ | ⟨op, hop, rfl, rfl, rfl⟩
  · rw [hop] at hforms hround ⊢
    exact (attempt_pairs (binary_pairs hε (splits_annotated hs) hforms hx hy hrange hround)).mono
      fun _ _ _ _ _ _ h => ⟨h.1, h.2.1, h.2.2.of_annotated⟩
  · rw [hop] at hround ⊢
    rw [one_mul, zero_mul, add_zero]
    exact (attempt_pairs (cast_pairs hε (splits_annotated hs) hx hrange hround)).mono
      fun _ _ _ _ _ _ h => ⟨h.1, h.2.1, h.2.2.of_annotated⟩

lemma incomingFrom?_mem {incoming : List (Value ℝ × BlockId)} {block : BlockId} {v : Value ℝ}
    (h : incomingFrom? incoming block = some v) : v ∈ incoming.map Prod.fst := by
  obtain ⟨p, hp, rfl⟩ := Option.map_eq_some_iff.1 h
  exact List.mem_map_of_mem (List.mem_of_find?_eq_some hp)

/-- Whether a phi reads on a visit with the given edges what is bounded by `Y`, apart from
constants. -/
def Offers (b : Body ℝ) (edges : PhiEdges) (a : Activation ℝ) (Y : ℝ) (entry latch : Value ℝ) :
    Prop :=
  (edges = .entry ∧ ∀ k g, b.keyOf? entry = some k → a.store.error? k = some g → g.noiseBound ≤ Y) ∨
    (edges = .latch ∧ ∃ k g, b.keyOf? latch = some k ∧ a.store.error? k = some g ∧ g.noiseBound ≤ Y)

lemma visit_phi_pairs (hε : ∀ t, |ε t| ≤ 1) (hs : a.store.Splits ε a'.store known n w L)
    {entry latch : Value ℝ} {Y : ℝ} (hY : 0 ≤ Y) (hcarries : b.Carries shape i entry latch)
    (hfresh : i.StartsFresh) (hentry : b.Reads known i entry)
    (hoffers : b.Offers edges a Y entry latch) (hpin : a.pinned.contains i.id = false)
    (hpin' : a'.pinned.contains i.id = false) :
    Fresh.Pairs n w (b.visit h edges a world i) (b.visit h' .all a' world' i) fun o o' n' w' =>
      o.answer = .ok true ∧ o'.answer = .ok true ∧
        ∃ ℓ, |ℓ| ≤ Y ∧ SplitStep ε (b.key i) ℓ a a' o.state o'.state n' w' := by
  have hrange := resultRange?_annotated (b := b) (i := i) a a'
  have hkeep := b.annotated_keeps a i
  obtain ⟨incoming, hop, hpre, -, hventry, hvlatch⟩ := hcarries.incoming
  have hmem := incomingFrom?_mem hpre
  rw [visit_eq hpin hfresh, visit_eq hpin' hfresh, operate, operate, hop]
  have hphi : Attempt.Pairs n w (b.phi (b.annotated a i) i edges incoming)
      (b.phi (b.annotated a' i) i .all incoming) fun b₁ b₁' n' w' =>
        ∃ ℓ, |ℓ| ≤ Y ∧
          SplitStep ε (b.key i) ℓ (b.annotated a i) (b.annotated a' i) b₁ b₁' n' w' := by
    rcases hoffers with ⟨rfl, hbound⟩ | ⟨rfl, k, g, hk, hg, hbound⟩
    · refine phi_pairs hε (splits_annotated hs) hY hentry hmem hventry (Or.inl ⟨rfl, ?_⟩) hrange
      intro k g hk hg
      rw [hkeep.error_eq] at hg
      exact hbound k g hk hg
    · refine phi_pairs hε (splits_annotated hs) hY hentry hmem hvlatch
        (Or.inr ⟨k, g, hk, ?_, hbound⟩)
        hrange
      rw [hkeep.error_eq]
      exact hg
  refine (attempt_pairs hphi).mono fun _ _ _ _ _ _ h => ?_
  obtain ⟨ho, ho', ℓ, hℓ, hstep⟩ := h
  exact ⟨ho, ho', ℓ, hℓ, hstep.of_annotated⟩

lemma comparison_keeps (a : Activation ℝ) (i : Instruction ℝ) (lhs rhs : Value ℝ) (n : Symbol) :
    n ≤ ((b.comparison a i lhs rhs).run n).2 ∧
      ∀ a₁, ((b.comparison a i lhs rhs).run n).1 = some a₁ → a.Keeps a₁ := by
  let p := (b.operand a.store lhs (b.formatOf? a.store rhs)).run n
  let q := (b.operand a.store rhs (b.formatOf? a.store lhs)).run p.2
  have hfirst : n ≤ p.2 := b.le_operand a.store lhs (b.formatOf? a.store rhs) n
  have hsecond : p.2 ≤ q.2 := b.le_operand a.store rhs (b.formatOf? a.store lhs) p.2
  have hrun : (b.comparison a i lhs rhs).run n
      = ((p.1.bind fun x => q.1.map fun y => (x, y)).map fun (x, y) =>
          { a with verdicts := a.verdicts.insert i.id (x.compare y b.settings.cmpErrorThreshold) },
          q.2) := by
    have hbind : (b.comparison a i lhs rhs).run = (do
        let o ← (b.operand a.store lhs (b.formatOf? a.store rhs)).run
        let o' ← (b.operand a.store rhs (b.formatOf? a.store lhs)).run
        return (o.bind fun x => o'.map fun y => (x, y)).map fun (x, y) =>
          { a with
            verdicts := a.verdicts.insert i.id (x.compare y b.settings.cmpErrorThreshold) }) := by
      rw [comparison, Attempt.both, OptionT.run_bind, OptionT.run_mk, Option.elimM]
      simp only [bind_assoc, pure_bind]
      refine congrArg _ (funext fun o => congrArg _ (funext fun o' => ?_))
      cases o.bind fun x => o'.map fun y => (x, y) <;> rfl
    rw [hbind]
    rfl
  rw [hrun]
  refine ⟨hfirst.trans hsecond, fun a₁ h => ?_⟩
  obtain ⟨⟨x, y⟩, -, rfl⟩ := Option.map_eq_some_iff.1 h
  exact ⟨rfl, fun _ => rfl⟩

lemma attempt_keeps (world : σ) {rule : Attempt (Activation ℝ)} {n : Symbol}
    (hrule : n ≤ (rule.run n).2 ∧ ∀ a₁, (rule.run n).1 = some a₁ → a.Keeps a₁) :
    n ≤ (attempt a world rule n).2 ∧
      (∃ found, (attempt a world rule n).1.answer = .ok found) ∧
        a.Keeps (attempt a world rule n).1.state := by
  obtain ⟨hle, hkeeps⟩ := hrule
  rw [attempt, Fresh.bind_apply]
  cases hcase : (rule.run n).1 with
  | none => exact ⟨hle, ⟨_, rfl⟩, ⟨rfl, fun _ => rfl⟩⟩
  | some a₁ => exact ⟨hle, ⟨_, rfl⟩, hkeeps a₁ hcase⟩

/-- Comparisons and branches record no error. -/
lemma visit_silent (h : CallHandler ℝ σ) (edges : PhiEdges) (world : σ) (hop : i.op.IsSilent)
    (hfresh : i.StartsFresh) (hpin : a.pinned.contains i.id = false) (n : Symbol) :
    n ≤ (b.visit h edges a world i n).2 ∧
      (∃ found, (b.visit h edges a world i n).1.answer = .ok found) ∧
        a.Keeps (b.visit h edges a world i n).1.state := by
  have hkeep := b.annotated_keeps a i
  have htrans {a₁ : Activation ℝ} (h : (b.annotated a i).Keeps a₁) : a.Keeps a₁ :=
    ⟨h.pinned_eq.trans hkeep.pinned_eq, fun l => (h.error_eq l).trans (hkeep.error_eq l)⟩
  have hcompare (lhs rhs : Value ℝ) :=
    attempt_keeps world (b.comparison_keeps (b.annotated a i) i lhs rhs n)
  rw [visit_eq hpin hfresh]
  cases hcase : i.op with
  | icmp p lhs rhs =>
    rw [operate, hcase]
    exact (hcompare lhs rhs).imp_right (And.imp_right htrans)
  | fcmp p lhs rhs =>
    rw [operate, hcase]
    exact (hcompare lhs rhs).imp_right (And.imp_right htrans)
  | br target =>
    rw [operate, hcase]
    exact ⟨le_rfl, ⟨_, rfl⟩, hkeep⟩
  | condBr c t f =>
    rw [operate, hcase]
    exact ⟨le_rfl, ⟨_, rfl⟩, hkeep⟩
  | unreachable =>
    rw [operate, hcase]
    exact ⟨le_rfl, ⟨_, rfl⟩, hkeep⟩
  | _ =>
    rw [hcase] at hop
    exact hop.elim

lemma visit_silent_pairs (hop : i.op.IsSilent) (hfresh : i.StartsFresh)
    (hpin : a.pinned.contains i.id = false) (hpin' : a'.pinned.contains i.id = false) :
    Fresh.Pairs n w (b.visit h edges a world i) (b.visit h' .all a' world' i) fun o o' _ _ =>
      (∃ found, o.answer = .ok found) ∧ (∃ found, o'.answer = .ok found) ∧ a.Keeps o.state ∧
        a'.Keeps o'.state := by
  obtain ⟨hle, ho, hkeep⟩ := visit_silent (b := b) h edges world hop hfresh hpin n
  obtain ⟨hle', ho', hkeep'⟩ := visit_silent (b := b) h' .all world' hop hfresh hpin' w.next
  exact Fresh.pairs_of_le hle hle' fun _ _ => ⟨ho, ho', hkeep, hkeep'⟩

/-! ## Visits of instructions one after the other -/

/-- The keys under which instructions record errors. -/
def recordedKeys (b : Body ℝ) (is : List (Instruction ℝ)) : Set Key :=
  {k | ∃ i ∈ is, ¬ i.op.IsSilent ∧ b.key i = k}

/-- The amounts follow an instruction: the amount of a combination is the combination of the
amounts, and that of a phi is bounded by `Y`. -/
def Flows (b : Body ℝ) (shape : LoopShape) (Y L : Key → ℝ) (i : Instruction ℝ) : Prop :=
  i.op.IsSilent ∨
    (∃ α x β y, i.op.Forms α x β y ∧
      L (b.key i) = α * x.amount b.function.id L + β * y.amount b.function.id L) ∨
    ∃ entry latch, b.Carries shape i entry latch ∧ |L (b.key i)| ≤ Y (b.key i)

/-- What a pair of passes leaves: all results of the code have errors that split into amounts which
follow the code, and no other error of the first run has changed. -/
structure PassPairs (b : Body ℝ) (shape : LoopShape) (ε : Symbol → ℝ) (Y : Key → ℝ)
    (known : Set Key) (is : List (Instruction ℝ)) (L : Key → ℝ) (a a' a₁ a₁' : Activation ℝ)
    (n : Symbol) (w : Supply) : Prop where
  /-- No instruction has been settled. -/
  pinned_eq : a₁.pinned = a.pinned ∧ a₁'.pinned = a'.pinned
  /-- The errors of other keys are as before. -/
  error_eq : ∀ l ∉ b.recordedKeys is, a₁.store.error? l = a.store.error? l
  /-- The errors of results split, and amounts of further keys do not matter for the code. -/
  splits : ∃ L', (∀ k ∈ known, L' k = L k) ∧
    (∀ L'', (∀ k ∈ known ∪ b.recordedKeys is, L'' k = L' k) → ∀ i ∈ is, b.Flows shape Y L'' i) ∧
    a₁.store.Splits ε a₁'.store (known ∪ b.recordedKeys is) n w L'

/-- Whether all phis among some instructions read what is bounded by `Y`. -/
def OffersAll (b : Body ℝ) (shape : LoopShape) (edges : PhiEdges) (a : Activation ℝ) (Y : Key → ℝ)
    (is : List (Instruction ℝ)) : Prop :=
  ∀ i ∈ is, ∀ entry latch, b.Carries shape i entry latch →
    b.Offers edges a (Y (b.key i)) entry latch

lemma amount_congr {L' : Key → ℝ} (hL : ∀ k ∈ known, L' k = L k) {v : Value ℝ}
    (hv : b.Reads known i v) : v.amount b.function.id L' = v.amount b.function.id L := by
  cases v with
  | inst id => exact hL _ hv
  | arg index => exact hL _ hv
  | global id => exact hL _ hv
  | function id => exact hv.elim
  | undef => exact hv.elim
  | _ => rfl

lemma recordedKeys_cons_silent (hi : i.op.IsSilent) :
    b.recordedKeys (i :: is) = b.recordedKeys is := by
  ext k
  constructor
  · rintro ⟨j, hj, hop, rfl⟩
    rcases List.mem_cons.1 hj with rfl | hj
    · exact absurd hi hop
    · exact ⟨j, hj, hop, rfl⟩
  · rintro ⟨j, hj, hop, rfl⟩
    exact ⟨j, List.mem_cons_of_mem _ hj, hop, rfl⟩

lemma recordedKeys_cons (hi : ¬ i.op.IsSilent) :
    b.recordedKeys (i :: is) = insert (b.key i) (b.recordedKeys is) := by
  ext k
  constructor
  · rintro ⟨j, hj, hop, rfl⟩
    rcases List.mem_cons.1 hj with rfl | hj
    · exact Set.mem_insert _ _
    · exact Set.mem_insert_of_mem _ ⟨j, hj, hop, rfl⟩
  · rintro (rfl | ⟨j, hj, hop, rfl⟩)
    · exact ⟨i, List.mem_cons_self, hi, rfl⟩
    · exact ⟨j, List.mem_cons_of_mem _ hj, hop, rfl⟩

namespace LinearCode

variable {entry latch : Value ℝ}

/-- What linear code records was not known before. -/
lemma disjoint (hcode : b.LinearCode shape outside known is) :
    Disjoint known (b.recordedKeys is) := by
  rw [Set.disjoint_left]
  induction hcode with
  | nil =>
    rintro k - ⟨i, hi, -⟩
    cases hi
  | silent hop hfresh his ih => rwa [recordedKeys_cons_silent hop]
  | @linear known i is α β x y hforms hfresh hround hx hy hkey his ih =>
    intro k hk hmem
    obtain ⟨j, hj, hop, rfl⟩ := hmem
    rcases List.mem_cons.1 hj with rfl | hj
    · exact hkey hk
    · exact ih (Set.mem_insert_of_mem _ hk) ⟨j, hj, hop, rfl⟩
  | phi hcarries hfresh hentry hlatch hkey his ih =>
    intro k hk hmem
    obtain ⟨j, hj, hop, rfl⟩ := hmem
    rcases List.mem_cons.1 hj with rfl | hj
    · exact hkey hk
    · exact ih (Set.mem_insert_of_mem _ hk) ⟨j, hj, hop, rfl⟩

lemma of_carries (hcode : b.LinearCode shape outside known is) (hi : i ∈ is)
    (hcarries : b.Carries shape i entry latch) :
    b.Reads outside i entry ∧ ∃ k ∉ known, b.keyOf? latch = some k := by
  induction hcode with
  | nil => cases hi
  | silent hsilent hfresh his ih =>
    rcases List.mem_cons.1 hi with rfl | hi
    · exact absurd hsilent hcarries.not_silent
    · exact ih hi
  | linear hforms hfresh hround hx hy hkey his ih =>
    rcases List.mem_cons.1 hi with rfl | hi
    · exact absurd hforms hcarries.not_forms
    · obtain ⟨hentry, k, hk, hkey⟩ := ih hi
      exact ⟨hentry, k, fun h => hk (Set.mem_insert_of_mem _ h), hkey⟩
  | phi hcarries' hfresh hentry hlatch hkey his ih =>
    rcases List.mem_cons.1 hi with rfl | hi
    · obtain ⟨rfl, rfl⟩ := hcarries.unique hcarries'
      exact ⟨hentry, hlatch⟩
    · obtain ⟨hentry, k, hk, hkey⟩ := ih hi
      exact ⟨hentry, k, fun h => hk (Set.mem_insert_of_mem _ h), hkey⟩

end LinearCode

lemma Reads.mem_of_keyOf? {v : Value ℝ} {k : Key} (hv : b.Reads known i v)
    (hk : b.keyOf? v = some k) : k ∈ known := by
  cases v with
  | inst id => cases hk; exact hv
  | arg index => cases hk; exact hv
  | global id => cases hk; exact hv
  | function id => exact hv.elim
  | _ => cases hk

lemma Reads.mono {known' : Set Key} {v : Value ℝ} (hv : b.Reads known i v) (h : known ⊆ known') :
    b.Reads known' i v := by
  cases v with
  | inst id => exact h hv
  | arg index => exact h hv
  | global id => exact h hv
  | _ => exact hv

/-- A record under the key of an instruction takes nothing from what later phis read. -/
lemma OffersAll.records {Y : Key → ℝ} {g : Affine ℝ}
    (hcode : b.LinearCode shape outside (insert (b.key i) known) is) (hout : outside ⊆ known)
    (hkey : b.key i ∉ known) (hrec : a.Records a₁ (b.key i) g)
    (hoffers : b.OffersAll shape edges a Y is) : b.OffersAll shape edges a₁ Y is := by
  intro p hp entry latch hcarries
  obtain ⟨hentry, k, hk, hlatch⟩ := hcode.of_carries hp hcarries
  rcases hoffers p hp entry latch hcarries with ⟨rfl, hbound⟩ | ⟨rfl, l, f, hl, hf, hbound⟩
  · refine Or.inl ⟨rfl, fun l f hl hf => hbound l f hl ?_⟩
    rw [← hrec.error_of_ne l fun h => hkey (h ▸ hout (hentry.mem_of_keyOf? hl))]
    exact hf
  · refine Or.inr ⟨rfl, l, f, hl, ?_, hbound⟩
    obtain rfl : k = l := Option.some.inj (hlatch.symm.trans hl)
    rwa [hrec.error_of_ne k fun h => hk (h ▸ Set.mem_insert _ _)]

lemma OffersAll.keeps {Y : Key → ℝ} (hkeep : a.Keeps a₁)
    (hoffers : b.OffersAll shape edges a Y is) :
    b.OffersAll shape edges a₁ Y is := by
  intro p hp entry latch hcarries
  refine (hoffers p hp entry latch hcarries).imp (And.imp_right ?_) (And.imp_right ?_)
  · intro hbound l f hl hf
    rw [hkeep.error_eq] at hf
    exact hbound l f hl hf
  · rintro ⟨l, f, hl, hf, hbound⟩
    exact ⟨l, f, hl, by rwa [hkeep.error_eq], hbound⟩

lemma splits_insert {g z : Affine ℝ} {a₁' : Activation ℝ} (hkey : b.key i ∉ known)
    (hs : a.store.Splits ε a'.store known n w L) (hn : n ≤ n') (hw : w ≤ w')
    (hg : a.Records a₁ (b.key i) g) (hz : a'.Records a₁' (b.key i) z)
    (hsplits : g.Splits ε z n' w' ℓ) :
    a₁.store.Splits ε a₁'.store (insert (b.key i) known) n' w' (Function.update L (b.key i) ℓ) := by
  rintro k (rfl | hk)
  · rw [Function.update_self]
    exact ⟨g, z, hg.error_self, hz.error_self, hsplits⟩
  · have hne : k ≠ b.key i := fun h => hkey (h ▸ hk)
    rw [Function.update_of_ne hne, hg.error_of_ne k hne, hz.error_of_ne k hne]
    exact hs.mono hn hw k hk

/-- Both runs come to some code: the errors that are known split, no instruction of the code has
been settled, and its phis read what is bounded by `Y`. -/
structure ComesTo (b : Body ℝ) (shape : LoopShape) (edges : PhiEdges) (ε : Symbol → ℝ) (Y : Key → ℝ)
    (known : Set Key) (is : List (Instruction ℝ)) (L : Key → ℝ) (a a' : Activation ℝ) (n : Symbol)
    (w : Supply) : Prop where
  /-- The errors that are known split into the amounts and the rest. -/
  splits : a.store.Splits ε a'.store known n w L
  /-- No instruction has been settled. -/
  pinned : ∀ i ∈ is, a.pinned.contains i.id = false ∧ a'.pinned.contains i.id = false
  /-- What the phis read is bounded. -/
  offers : b.OffersAll shape edges a Y is

namespace ComesTo

variable {Y : Key → ℝ} {a₁' : Activation ℝ}

/-- An instruction that leaves all errors alone comes before the rest of the code. -/
lemma keeps (hc : b.ComesTo shape edges ε Y known (i :: is) L a a' n w) (hn : n ≤ n') (hw : w ≤ w')
    (hkeep : a.Keeps a₁) (hkeep' : a'.Keeps a₁') :
    b.ComesTo shape edges ε Y known is L a₁ a₁' n' w' where
  splits k hk := by
    rw [hkeep.error_eq, hkeep'.error_eq]
    exact hc.splits.mono hn hw k hk
  pinned j hj := by
    rw [hkeep.pinned_eq, hkeep'.pinned_eq]
    exact hc.pinned j (List.mem_cons_of_mem _ hj)
  offers := OffersAll.keeps hkeep fun j hj => hc.offers j (List.mem_cons_of_mem _ hj)

/-- An instruction that records an error comes before the rest of the code. -/
lemma records (hc : b.ComesTo shape edges ε Y known (i :: is) L a a' n w)
    (hcode : b.LinearCode shape outside (insert (b.key i) known) is) (hout : outside ⊆ known)
    (hkey : b.key i ∉ known) (hn : n ≤ n') (hw : w ≤ w') {g z : Affine ℝ}
    (hg : a.Records a₁ (b.key i) g) (hz : a'.Records a₁' (b.key i) z)
    (hsplits : g.Splits ε z n' w' ℓ) :
    b.ComesTo shape edges ε Y (insert (b.key i) known) is (Function.update L (b.key i) ℓ) a₁ a₁'
      n' w' where
  splits := splits_insert hkey hc.splits hn hw hg hz hsplits
  pinned j hj := by
    rw [hg.pinned_eq, hz.pinned_eq]
    exact hc.pinned j (List.mem_cons_of_mem _ hj)
  offers := OffersAll.records hcode hout hkey hg fun j hj => hc.offers j (List.mem_cons_of_mem _ hj)

end ComesTo

/-- A pass through no code at all changes nothing. -/
lemma PassPairs.nil (Y : Key → ℝ) (hs : a.store.Splits ε a'.store known n w L) :
    b.PassPairs shape ε Y known [] L a a' a a' n w where
  pinned_eq := ⟨rfl, rfl⟩
  error_eq _ _ := rfl
  splits := by
    refine ⟨L, fun _ _ => rfl, fun _ _ i hi => absurd hi List.not_mem_nil, ?_⟩
    rintro k (hk | ⟨i, hi, -⟩)
    · exact hs k hk
    · cases hi

/-- The step of a pass at an instruction that leaves all errors alone. -/
lemma PassPairs.cons_silent {Y : Key → ℝ} {a₁' a₂' : Activation ℝ} (hop : i.op.IsSilent)
    (hkeep : a.Keeps a₁) (hkeep' : a'.Keeps a₁')
    (hrest : b.PassPairs shape ε Y known is L a₁ a₁' a₂ a₂' n w) :
    b.PassPairs shape ε Y known (i :: is) L a a' a₂ a₂' n w where
  pinned_eq := ⟨hrest.pinned_eq.1.trans hkeep.pinned_eq,
    hrest.pinned_eq.2.trans hkeep'.pinned_eq⟩
  error_eq l hl := by
    rw [recordedKeys_cons_silent hop] at hl
    rw [hrest.error_eq l hl, hkeep.error_eq]
  splits := by
    obtain ⟨L', hL', hflows, hs⟩ := hrest.splits
    rw [recordedKeys_cons_silent hop]
    refine ⟨L', hL', fun L'' hL'' j hj => ?_, hs⟩
    rcases List.mem_cons.1 hj with rfl | hj
    · exact Or.inl hop
    · exact hflows L'' hL'' j hj

/-- The step of a pass: an instruction that records an error comes before the rest of the code. -/
lemma PassPairs.cons {Y : Key → ℝ} {a₁' a₂' : Activation ℝ} {g z : Affine ℝ}
    (hop : ¬ i.op.IsSilent) (hkey : b.key i ∉ known) (hg : a.Records a₁ (b.key i) g)
    (hz : a'.Records a₁' (b.key i) z)
    (hflow : ∀ L', (∀ k ∈ known, L' k = L k) → L' (b.key i) = ℓ → b.Flows shape Y L' i)
    (hrest : b.PassPairs shape ε Y (insert (b.key i) known) is (Function.update L (b.key i) ℓ)
      a₁ a₁' a₂ a₂' n w) : b.PassPairs shape ε Y known (i :: is) L a a' a₂ a₂' n w where
  pinned_eq := ⟨hrest.pinned_eq.1.trans hg.pinned_eq, hrest.pinned_eq.2.trans hz.pinned_eq⟩
  error_eq l hl := by
    rw [recordedKeys_cons hop] at hl
    rw [hrest.error_eq l fun h => hl (Set.mem_insert_of_mem _ h)]
    exact hg.error_of_ne l fun h => hl (h ▸ Set.mem_insert _ _)
  splits := by
    obtain ⟨L', hL', hflows, hs⟩ := hrest.splits
    rw [recordedKeys_cons hop, Set.union_insert, ← Set.insert_union]
    refine ⟨L', fun k hk => ?_, fun L'' hL'' j hj => ?_, hs⟩
    · have hne : k ≠ b.key i := fun h => hkey (h ▸ hk)
      rw [hL' k (Set.mem_insert_of_mem _ hk), Function.update_of_ne hne]
    · rcases List.mem_cons.1 hj with rfl | hj
      · have hself : b.key j ∈ insert (b.key j) known := Set.mem_insert _ _
        refine hflow L'' (fun k hk => ?_) ?_
        · have hne : k ≠ b.key j := fun h => hkey (h ▸ hk)
          rw [hL'' k (Or.inl (Set.mem_insert_of_mem _ hk)), hL' k (Set.mem_insert_of_mem _ hk),
            Function.update_of_ne hne]
        · rw [hL'' _ (Or.inl hself), hL' _ hself, Function.update_self]
      · exact hflows L'' hL'' j hj

/-- Visiting linear code in two runs. -/
lemma visitAll_pairs (hε : ∀ t, |ε t| ≤ 1) {Y : Key → ℝ} (hY : ∀ k, 0 ≤ Y k)
    (hcode : b.LinearCode shape outside known is) (hout : outside ⊆ known)
    (hc : b.ComesTo shape edges ε Y known is L a a' n w) (count count' : ℕ) :
    Fresh.Pairs n w (b.visitAll h edges count a world is) (b.visitAll h' .all count' a' world' is)
      fun o o' n' w' => (∃ c, o.answer = .ok c) ∧ (∃ c, o'.answer = .ok c) ∧
        b.PassPairs shape ε Y known is L a a' o.state o'.state n' w' := by
  induction hcode generalizing a a' n w L world world' count count' with
  | @nil known =>
    rw [visitAll, visitAll]
    exact Fresh.pairs_pure ⟨⟨count, rfl⟩, ⟨count', rfl⟩, .nil Y hc.splits⟩
  | @silent known i is hop hfresh his ih =>
    rw [visitAll, visitAll]
    obtain ⟨hpin, hpin'⟩ := hc.pinned i List.mem_cons_self
    refine (visit_silent_pairs hop hfresh hpin hpin').bind fun o o' n₁ w₁ hn hw h => ?_
    obtain ⟨⟨found, ho⟩, ⟨found', ho'⟩, hkeep, hkeep'⟩ := h
    rw [ho, ho']
    refine (ih hout (hc.keeps hn hw hkeep hkeep') _ _).mono fun p p' n₂ w₂ _ _ h => ?_
    obtain ⟨hp, hp', hpass⟩ := h
    exact ⟨hp, hp', hpass.cons_silent hop hkeep hkeep'⟩
  | @linear known i is α β x y hforms hfresh hround hx hy hkey his ih =>
    rw [visitAll, visitAll]
    obtain ⟨hpin, hpin'⟩ := hc.pinned i List.mem_cons_self
    refine (visit_linear_pairs hε hc.splits hforms hfresh hround hx hy hpin hpin').bind
      fun o o' n₁ w₁ hn hw h => ?_
    obtain ⟨ho, ho', g, z, hg, hz, hsplits⟩ := h
    rw [ho, ho']
    refine (ih (hout.trans (Set.subset_insert _ _)) (hc.records his hout hkey hn hw hg hz hsplits)
      _ _).mono fun p p' n₂ w₂ _ _ h => ?_
    obtain ⟨hp, hp', hpass⟩ := h
    refine ⟨hp, hp', hpass.cons hforms.not_silent hkey hg hz fun L' hL' hnew => ?_⟩
    refine Or.inr (Or.inl ⟨α, x, β, y, hforms, ?_⟩)
    rw [hnew, amount_congr hL' hx, amount_congr hL' hy]
  | @phi known i is entry latch hcarries hfresh hentry hlatch hkey his ih =>
    rw [visitAll, visitAll]
    obtain ⟨hpin, hpin'⟩ := hc.pinned i List.mem_cons_self
    refine (visit_phi_pairs hε hc.splits (hY (b.key i)) hcarries hfresh (hentry.mono hout)
      (hc.offers i List.mem_cons_self entry latch hcarries) hpin hpin').bind
      fun o o' n₁ w₁ hn hw h => ?_
    obtain ⟨ho, ho', ℓ, hℓ, g, z, hg, hz, hsplits⟩ := h
    rw [ho, ho']
    refine (ih (hout.trans (Set.subset_insert _ _)) (hc.records his hout hkey hn hw hg hz hsplits)
      _ _).mono fun p p' n₂ w₂ _ _ h => ?_
    obtain ⟨hp, hp', hpass⟩ := h
    refine ⟨hp, hp', hpass.cons hcarries.not_silent hkey hg hz fun L' _ hnew => ?_⟩
    exact Or.inr (Or.inr ⟨entry, latch, hcarries, by rwa [hnew]⟩)

/-! ## Visits of blocks -/

lemma recordedKeys_append (is js : List (Instruction ℝ)) :
    b.recordedKeys (is ++ js) = b.recordedKeys is ∪ b.recordedKeys js := by
  ext k
  simp only [recordedKeys, List.mem_append, Set.mem_ofPred_eq, Set.mem_union, or_and_right,
    exists_or]

lemma LinearCode.append {js : List (Instruction ℝ)}
    (hcode : b.LinearCode shape outside known (is ++ js)) :
    b.LinearCode shape outside known is ∧
      b.LinearCode shape outside (known ∪ b.recordedKeys is) js := by
  induction is generalizing known with
  | nil =>
    have hnone : b.recordedKeys [] = ∅ := by
      ext k
      simp [recordedKeys]
    rw [hnone, Set.union_empty]
    exact ⟨.nil, hcode⟩
  | cons i is ih =>
    cases hcode with
    | silent hop hfresh his =>
      obtain ⟨h, h'⟩ := ih his
      rw [recordedKeys_cons_silent hop]
      exact ⟨.silent hop hfresh h, h'⟩
    | linear hforms hfresh hround hx hy hkey his =>
      obtain ⟨h, h'⟩ := ih his
      rw [recordedKeys_cons hforms.not_silent, Set.union_insert, ← Set.insert_union]
      exact ⟨.linear hforms hfresh hround hx hy hkey h, h'⟩
    | phi hcarries hfresh hentry hlatch hkey his =>
      obtain ⟨h, h'⟩ := ih his
      rw [recordedKeys_cons hcarries.not_silent, Set.union_insert, ← Set.insert_union]
      exact ⟨.phi hcarries hfresh hentry hlatch hkey h, h'⟩

/-- One block after the other. -/
lemma PassPairs.append {Y : Key → ℝ} {js : List (Instruction ℝ)} {L₁ : Key → ℝ}
    {a₁' a₂' : Activation ℝ} (hpinned : a₁.pinned = a.pinned ∧ a₁'.pinned = a'.pinned)
    (herror : ∀ l ∉ b.recordedKeys is, a₁.store.error? l = a.store.error? l)
    (hL : ∀ k ∈ known, L₁ k = L k)
    (hflows : ∀ L', (∀ k ∈ known ∪ b.recordedKeys is, L' k = L₁ k) → ∀ i ∈ is, b.Flows shape Y L' i)
    (hrest : b.PassPairs shape ε Y (known ∪ b.recordedKeys is) js L₁ a₁ a₁' a₂ a₂' n w) :
    b.PassPairs shape ε Y known (is ++ js) L a a' a₂ a₂' n w where
  pinned_eq := ⟨hrest.pinned_eq.1.trans hpinned.1, hrest.pinned_eq.2.trans hpinned.2⟩
  error_eq l hl := by
    rw [recordedKeys_append] at hl
    rw [hrest.error_eq l fun h => hl (Or.inr h), herror l fun h => hl (Or.inl h)]
  splits := by
    obtain ⟨L', hL', hflows', hs⟩ := hrest.splits
    rw [recordedKeys_append, ← Set.union_assoc]
    refine ⟨L', fun k hk => (hL' k (Or.inl hk)).trans (hL k hk), fun L'' hL'' i hi => ?_, hs⟩
    rcases List.mem_append.1 hi with hi | hi
    · exact hflows L'' (fun k hk => (hL'' k (Or.inl hk)).trans (hL' k hk)) i hi
    · exact hflows' L'' hL'' i hi

/-- The instructions of a loop in the order in which an iteration passes through them. -/
def loopInsts (b : Body ℝ) (shape : LoopShape) : List (Instruction ℝ) :=
  shape.blocks.flatMap b.function.blockInsts

/-- One pass through a loop in two runs. -/
lemma pass_pairs (h : CallHandler ℝ σ) (world : σ) (hε : ∀ t, |ε t| ≤ 1) {Y : Key → ℝ}
    (hY : ∀ k, 0 ≤ Y k) (hcond : shape.cond = shape.header)
    (hcode : b.LinearCode shape outside outside (b.loopInsts shape))
    (hc : b.ComesTo shape edges ε Y outside (b.loopInsts shape) L a a' n w) :
    Fresh.Pairs n w (b.runVisits h a world (Flow.leafVisits shape.header edges shape.blocks))
      (b.visitBlocks a' shape.blocks) fun o r n' w' => o.answer = .ok () ∧ ∃ a₁', r = .ok a₁' ∧
        b.PassPairs shape ε Y outside (b.loopInsts shape) L a a' o.state a₁' n' w' := by
  by_cases hbody : shape.cond = shape.body
  · have hblocks : shape.blocks = [shape.cond] := if_pos hbody
    have hinsts : b.loopInsts shape = b.function.blockInsts shape.cond := by
      rw [loopInsts, hblocks, List.flatMap_singleton]
    have hvisits : Flow.leafVisits shape.header edges shape.blocks = [⟨shape.cond, edges⟩] := by
      rw [hblocks, Flow.leafVisits, List.map_singleton, if_pos hcond]
    rw [hinsts] at hcode hc ⊢
    rw [hvisits, hblocks, runVisits, visitBlocks]
    refine (visitAll_pairs hε hY hcode subset_rfl hc 0 0).bind fun o o' n₁ w₁ _ _ h => ?_
    obtain ⟨⟨c, ho⟩, ⟨c', ho'⟩, hpass⟩ := h
    rw [ho, ho']
    exact Fresh.pairs_pure ⟨rfl, _, rfl, hpass⟩
  · have hblocks : shape.blocks = [shape.cond, shape.body] := by
      rw [LoopShape.blocks, if_neg hbody, if_pos hcond]
    have hinsts : b.loopInsts shape
        = b.function.blockInsts shape.cond ++ b.function.blockInsts shape.body := by
      rw [loopInsts, hblocks, List.flatMap_cons, List.flatMap_singleton]
    have hvisits : Flow.leafVisits shape.header edges shape.blocks
        = [⟨shape.cond, edges⟩, ⟨shape.body, .all⟩] := by
      rw [hblocks, Flow.leafVisits, List.map_cons, List.map_singleton, if_pos hcond,
        if_neg fun h => hbody (hcond.trans h.symm)]
    rw [hinsts] at hcode hc ⊢
    obtain ⟨hfirst, hsecond⟩ := hcode.append
    rw [hvisits, hblocks, runVisits, visitBlocks]
    have hc₁ : b.ComesTo shape edges ε Y outside (b.function.blockInsts shape.cond) L a a' n w :=
      ⟨hc.splits, fun i hi => hc.pinned i (List.mem_append_left _ hi),
        fun i hi => hc.offers i (List.mem_append_left _ hi)⟩
    refine (visitAll_pairs hε hY hfirst subset_rfl hc₁ 0 0).bind fun o o' n₁ w₁ _ _ h => ?_
    obtain ⟨⟨c, ho⟩, ⟨c', ho'⟩, hpinned, herror, L₁, hL₁, hflows, hs₁⟩ := h
    rw [ho, ho', runVisits, visitBlocks]
    -- no phi of the condition block is visited again with the body
    have hnone : b.OffersAll shape .all o.state Y (b.function.blockInsts shape.body) := by
      intro i hi entry latch hcarries
      have hrecorded : b.key i ∈ b.recordedKeys (b.function.blockInsts shape.cond) :=
        ⟨i, (List.takeWhile_subset _) hcarries.mem_phis, hcarries.not_silent, rfl⟩
      exact absurd ⟨i, hi, hcarries.not_silent, rfl⟩
        (Set.disjoint_left.1 hsecond.disjoint (Or.inr hrecorded))
    refine (visitAll_pairs hε hY hsecond Set.subset_union_left
      ⟨hs₁, fun i hi => ?_, hnone⟩ 0 0).bind
      fun p p' n₂ w₂ _ _ h => ?_
    · rw [hpinned.1, hpinned.2]
      exact hc.pinned i (List.mem_append_right _ hi)
    · obtain ⟨⟨c, hp⟩, ⟨c', hp'⟩, hrest⟩ := h
      rw [hp, hp']
      exact Fresh.pairs_pure ⟨rfl, _, rfl, PassPairs.append hpinned herror hL₁ hflows hrest⟩

end Body

end Roundoff
