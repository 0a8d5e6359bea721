/-
# The rules of linear code, twice

Every rule that applies in linear code is run twice, on the errors that a loop carries and on errors
that have been set to zero, and the results split as `Affine.Splits` says.  A visit of an
instruction records the split error under its key and leaves all other errors alone; a visit of a
comparison or a branch leaves all errors alone.
-/
import Mathlib
import Roundoff.Proofs.Loop.Linear

namespace Roundoff

variable {ε : Symbol → ℝ} {s s' : Store ℝ} {known : Set Key} {n n' : Symbol} {w w' : Supply}
  {L : Key → ℝ} {b : Body ℝ} {i : Instruction ℝ} {v x y : Value ℝ} {α β ℓ : ℝ}

namespace Body

/-! ## Arithmetic -/

/-- The error of a linear combination splits into the combination of the amounts and the rest. -/
lemma binaryError_pairs (hε : ∀ t, |ε t| ≤ 1) (hs : s.Splits ε s' known n w L) {op : BinaryOp}
    {lhs rhs : Value ℝ} (hforms : (Operation.binary op lhs rhs).Forms α x β y)
    (hx : b.Reads known i x) (hy : b.Reads known i y) {r r' : Option (Range ℝ)}
    (hr : i.scalarInfo?.isSome → r = r' ∧ r.isSome)
    (hround : op.isRounding → i.scalarInfo?.isSome) :
    Attempt.Pairs n w (b.binaryError s op lhs rhs r) (b.binaryError s' op lhs rhs r')
      fun g z n' w' => g.Splits ε z n' w'
        (α * x.amount b.function.id L + β * y.amount b.function.id L) := by
  have hformat : i.scalarInfo?.isSome →
      r.map Range.format = r'.map Range.format ∧ (r.map Range.format).isSome := by
    intro h
    obtain ⟨rfl, hsome⟩ := hr h
    exact ⟨rfl, by rwa [Option.isSome_map]⟩
  have hexact (c : ℝ) (n : Symbol) (w : Supply) (f f' : Option Format) :
      Attempt.Pairs n w (b.operand s (.constFloat c) f) (b.operand s' (.constFloat c) f')
        fun o o' _ _ => o = ⟨Range.point Format.none c, Affine.zero⟩ ∧
          o' = ⟨Range.point Format.none c, Affine.zero⟩ :=
    Attempt.pairs_pure ⟨rfl, rfl⟩
  cases hforms with
  | add h =>
    obtain ⟨op, hop, ⟨⟩⟩ := Operation.reading_eq_add h
    rcases hop with rfl | rfl
    all_goals
      refine (operand_pairs hε hs hx hformat).bind fun o o' n₁ w₁ hn hw ho => ?_
      refine (operand_pairs hε (hs.mono hn hw) hy hformat).bind fun p p' n₂ w₂ hn' hw' hp =>
        Attempt.pairs_pure ?_
      rw [one_mul, one_mul]
      exact (ho.mono hn' hw').add hp
  | sub h =>
    obtain ⟨op, hop, ⟨⟩⟩ := Operation.reading_eq_sub h
    rcases hop with rfl | rfl
    all_goals
      refine (operand_pairs hε hs hx hformat).bind fun o o' n₁ w₁ hn hw ho => ?_
      refine (operand_pairs hε (hs.mono hn hw) hy hformat).bind fun p p' n₂ w₂ hn' hw' hp =>
        Attempt.pairs_pure ?_
      rw [one_mul, neg_one_mul, ← sub_eq_add_neg]
      exact (ho.mono hn' hw').sub hp
  | mulLeft h =>
    obtain ⟨op, hop, ⟨⟩⟩ := Operation.reading_eq_mul h
    rw [zero_mul, add_zero]
    rcases hop with rfl | rfl
    all_goals
      refine (hexact α n w _ _).bind fun o o' n₁ w₁ hn hw ho => ?_
      obtain ⟨rfl, rfl⟩ := ho
      refine (operand_pairs hε (hs.mono hn hw) hx hformat).bind fun p p' n₂ w₂ hn' hw' hp => ?_
      exact Attempt.pairs_lift (hp.multiple_pairs (mulError_point_left hp.isOrdered.central_eq n₂)
        (mulError_point_left hp.rest.central_eq w₂.next))
  | mulRight h =>
    obtain ⟨op, hop, ⟨⟩⟩ := Operation.reading_eq_mul h
    rw [zero_mul, add_zero]
    rcases hop with rfl | rfl
    all_goals
      refine (operand_pairs hε hs hx hformat).bind fun p p' n₁ w₁ hn hw hp => ?_
      refine (hexact α n₁ w₁ _ _).bind fun o o' n₂ w₂ hn' hw' ho => ?_
      obtain ⟨rfl, rfl⟩ := ho
      replace hp := hp.mono hn' hw'
      exact Attempt.pairs_lift (hp.multiple_pairs (mulError_point_right hp.isOrdered.central_eq n₂)
        (mulError_point_right hp.rest.central_eq w₂.next))
  | operand h =>
    rw [one_mul, zero_mul, add_zero]
    rcases Operation.reading_eq_operand h with ⟨op, shift, hop, ⟨⟩⟩ | ⟨op, ⟨⟩⟩
    rcases hop with rfl | rfl | rfl
    · exact (operand_pairs hε hs hx hformat).bind fun o o' n₁ w₁ hn hw ho => Attempt.pairs_pure ho
    all_goals
      obtain ⟨rfl, hsome⟩ := hr (hround rfl)
      obtain ⟨range, rfl⟩ := Option.isSome_iff_exists.1 hsome
      exact (operand_pairs hε hs hx hformat).bind fun o o' n₁ w₁ hn hw ho =>
        Attempt.pairs_lift (ho.addRounding_pairs hε _)

end Body

/-- Both runs record an error for the key, and the errors split into the amount `ℓ` and the rest. -/
def SplitStep (ε : Symbol → ℝ) (k : Key) (ℓ : ℝ) (a a' a₁ a₁' : Activation ℝ) (n : Symbol)
    (w : Supply) : Prop :=
  ∃ g z, a.Records a₁ k g ∧ a'.Records a₁' k z ∧ g.Splits ε z n w ℓ

namespace Body

variable {a a' : Activation ℝ}

lemma binary_pairs (hε : ∀ t, |ε t| ≤ 1) (hs : a.store.Splits ε a'.store known n w L)
    {op : BinaryOp} {lhs rhs : Value ℝ} (hforms : (Operation.binary op lhs rhs).Forms α x β y)
    (hx : b.Reads known i x) (hy : b.Reads known i y)
    (hr : i.scalarInfo?.isSome →
      b.resultRange? a.store i = b.resultRange? a'.store i ∧ (b.resultRange? a.store i).isSome)
    (hround : op.isRounding → i.scalarInfo?.isSome) :
    Attempt.Pairs n w (b.binary a i op lhs rhs) (b.binary a' i op lhs rhs)
      (SplitStep ε (b.key i) (α * x.amount b.function.id L + β * y.amount b.function.id L) a a') :=
  (binaryError_pairs hε hs hforms hx hy hr hround).bind fun _ _ _ _ _ _ h =>
    Attempt.pairs_pure ⟨_, _, write_records a i _, write_records a' i _, h⟩

lemma cast_pairs (hε : ∀ t, |ε t| ≤ 1) (hs : a.store.Splits ε a'.store known n w L) {op : CastOp}
    (hx : b.Reads known i x)
    (hr : i.scalarInfo?.isSome →
      b.resultRange? a.store i = b.resultRange? a'.store i ∧ (b.resultRange? a.store i).isSome)
    (hround : op.isRounding → i.scalarInfo?.isSome) :
    Attempt.Pairs n w (b.cast a i op x) (b.cast a' i op x)
      (SplitStep ε (b.key i) (x.amount b.function.id L) a a') := by
  unfold cast
  refine (operand_pairs hε hs hx fun h => ?_).bind fun o o' n₁ w₁ hn hw ho => ?_
  · obtain ⟨heq, hsome⟩ := hr h
    obtain ⟨r, hr⟩ := Option.isSome_iff_exists.1 hsome
    rw [← heq, hr]
    exact ⟨rfl, rfl⟩
  · dsimp only
    split
    · next hop =>
      rw [← (hr (hround hop)).1]
      refine (Attempt.pairs_lift (ho.addRounding_pairs hε _)).bind fun g z n₂ w₂ _ _ hg => ?_
      cases b.resultRange? a.store i with
      | none =>
        exact Attempt.pairs_pure
          ⟨g, z, writeEstimate_records a i _ g, writeEstimate_records a' i _ z, hg⟩
      | some r => exact Attempt.pairs_pure ⟨g, z, write_records a i g, write_records a' i z, hg⟩
    · rw [pure_bind, pure_bind]
      cases b.resultRange? a.store i <;> cases b.resultRange? a'.store i
      all_goals
        refine Attempt.pairs_pure ⟨o.error, o'.error, ?_, ?_, ho⟩
        all_goals first | exact write_records _ i _ | exact writeEstimate_records _ i _ _

/-! ## Phis -/

lemma operand_run_of_error? {k : Key} {g : Affine ℝ} (hk : b.keyOf? v = some k)
    (hg : s.error? k = some g) (format : Option Format) (n : Symbol) :
    ∃ r, (b.operand s v format).run n = (some ⟨r, g⟩, n) := by
  obtain ⟨e, he, hg⟩ := Option.bind_eq_some_iff.1 hg
  have hrecord : (b.record? s v).bind Estimate.toOperand? = some ⟨e.range, g⟩ := by
    rw [record?, hk, Option.bind_some, he, Option.bind_some, Estimate.toOperand?, hg,
      Option.map_some]
  refine ⟨e.range, ?_⟩
  cases v with
  | constInt raw => cases hk
  | constFloat c => cases hk
  | undef => cases hk
  | _ => exact congrArg (fun o => (o, n)) hrecord

lemma operand_run_constInt (raw : Int64) (f : Format) (n : Symbol) :
    ∃ o, ((b.operand s (.constInt raw) (some f)).run n).1 = some o ∧
      o.absError = |f.roundingError| :=
  ⟨_, rfl, Affine.noiseBound_withError 0 _⟩

lemma le_operand (s : Store ℝ) (v : Value ℝ) (format : Option Format) (n : Symbol) :
    n ≤ ((b.operand s v format).run n).2 := by
  cases v with
  | constInt raw =>
    cases format with
    | none => exact le_rfl
    | some f => exact (Affine.withError_isOrdered _).1
  | _ => exact le_rfl

lemma le_operandsWithData (s : Store ℝ) (format : Option Format) (vs : List (Value ℝ))
    (n : Symbol) : n ≤ (b.operandsWithData s format vs n).2 := by
  induction vs generalizing n with
  | nil => exact le_rfl
  | cons v vs ih => exact (le_operand s v format n).trans (ih _)

/-- An operand that has data in any case is among those with data. -/
lemma exists_mem_operandsWithData {P : Operand ℝ → Prop} {format : Option Format}
    (hv : ∀ n, ∃ o, ((b.operand s v format).run n).1 = some o ∧ P o) {vs : List (Value ℝ)}
    (hmem : v ∈ vs) (n : Symbol) : ∃ o ∈ (b.operandsWithData s format vs n).1, P o := by
  induction vs generalizing n with
  | nil => cases hmem
  | cons u vs ih =>
    have hrun : (b.operandsWithData s format (u :: vs) n).1
        = ((b.operand s u format).run n).1.toList
          ++ (b.operandsWithData s format vs ((b.operand s u format).run n).2).1 := rfl
    rw [hrun]
    rcases List.mem_cons.1 hmem with rfl | hmem
    · obtain ⟨o, ho, hP⟩ := hv n
      exact ⟨o, List.mem_append_left _ (by rw [ho]; exact List.mem_singleton_self o), hP⟩
    · obtain ⟨o, ho, hP⟩ := ih hmem _
      exact ⟨o, List.mem_append_right _ ho, hP⟩

lemma le_foldl_max (x : ℝ) (ys : List ℝ) :
    x ≤ ys.foldl Number.max x ∧ ∀ y ∈ ys, y ≤ ys.foldl Number.max x := by
  induction ys generalizing x with
  | nil => exact ⟨le_rfl, nofun⟩
  | cons z ys ih =>
    obtain ⟨hx, hys⟩ := ih (Number.max x z)
    rw [Number.max_real] at hx hys
    rw [List.foldl_cons, Number.max_real]
    refine ⟨(le_max_left x z).trans hx, fun y hy => ?_⟩
    rcases List.mem_cons.1 hy with rfl | hy
    · exact (le_max_right x y).trans hx
    · exact hys y hy

/-- The largest error of operands is at least that of each of them. -/
lemma exists_maxAbsError? {o : Operand ℝ} {os : List (Operand ℝ)} (ho : o ∈ os) :
    ∃ m, maxAbsError? os = some m ∧ o.absError ≤ m := by
  cases os with
  | nil => cases ho
  | cons p os =>
    obtain ⟨hfirst, hrest⟩ := le_foldl_max p.absError (os.map Operand.absError)
    refine ⟨_, rfl, ?_⟩
    rcases List.mem_cons.1 ho with rfl | ho
    · exact hfirst
    · exact hrest _ (List.mem_map_of_mem ho)

/-- What is known of an operand that is read: a constant is as uncertain as its format says, and any
other value has the error that is recorded. -/
structure IsOperand (b : Body ℝ) (s : Store ℝ) (v : Value ℝ) (format : Option Format)
    (o : Operand ℝ) : Prop where
  /-- An integer constant has the rounding error of the format. -/
  constInt : ∀ raw f, v = .constInt raw → format = some f → o.absError = |f.roundingError|
  /-- A real constant is exact. -/
  constFloat : ∀ c, v = .constFloat c → o.absError = 0
  /-- Any other value has the error that is recorded. -/
  error_eq : ∀ k g, b.keyOf? v = some k → s.error? k = some g → o.error = g

lemma operand_run (hs : ∀ k ∈ known, (s.error? k).isSome) (hv : b.Reads known i v)
    {format : Option Format} (hformat : i.scalarInfo?.isSome → format.isSome) (m : Symbol) :
    ∃ o, ((b.operand s v format).run m).1 = some o ∧ b.IsOperand s v format o := by
  have hrecord {k : Key} (hk : k ∈ known) (hkey : b.keyOf? v = some k)
      (hint : ∀ raw, v ≠ .constInt raw) (hfloat : ∀ c, v ≠ .constFloat c) :
      ∃ o, ((b.operand s v format).run m).1 = some o ∧ b.IsOperand s v format o := by
    obtain ⟨g, hg⟩ := Option.isSome_iff_exists.1 (hs k hk)
    obtain ⟨r, hrun⟩ := operand_run_of_error? hkey hg format m
    refine ⟨_, by rw [hrun], fun raw _ h => absurd h (hint raw), fun c h => absurd h (hfloat c), ?_⟩
    intro k' g' hk' hg'
    obtain rfl : k = k' := Option.some.inj (hkey.symm.trans hk')
    exact Option.some.inj (hg.symm.trans hg')
  cases v with
  | inst id => exact hrecord hv rfl nofun nofun
  | arg index => exact hrecord hv rfl nofun nofun
  | global id => exact hrecord hv rfl nofun nofun
  | constFloat c => exact ⟨_, rfl, nofun, fun _ _ => rfl, nofun⟩
  | constInt raw =>
    obtain ⟨f, rfl⟩ := Option.isSome_iff_exists.1 (hformat hv)
    obtain ⟨o, ho, habs⟩ := operand_run_constInt (b := b) (s := s) raw f m
    refine ⟨o, ho, fun _ _ _ hf => ?_, nofun, nofun⟩
    cases hf
    exact habs
  | function id => exact hv.elim
  | undef => exact hv.elim

/-- What a phi reads on a visit is bounded by `Y`, or it is the integer constant that it receives on
entry. -/
lemma exists_maxAbsError?_single (hs : ∀ k ∈ known, (s.error? k).isSome) {entry : Value ℝ} {Y : ℝ}
    (hY : 0 ≤ Y) (hentry : b.Reads known i entry) {format : Option Format}
    (hformat : i.scalarInfo?.isSome → format.isSome)
    (hv : (v = entry ∧ ∀ k g, b.keyOf? entry = some k → s.error? k = some g → g.noiseBound ≤ Y) ∨
      ∃ k g, b.keyOf? v = some k ∧ s.error? k = some g ∧ g.noiseBound ≤ Y) (m : Symbol) :
    ∃ x, maxAbsError? (b.operandsWithData s format [v] m).1 = some x ∧ 0 ≤ x ∧
      (x ≤ Y ∨ ∃ raw f, entry = .constInt raw ∧ format = some f ∧ x = |f.roundingError|) := by
  have hsingle {o : Operand ℝ} (ho : ((b.operand s v format).run m).1 = some o) :
      maxAbsError? (b.operandsWithData s format [v] m).1 = some o.absError := by
    have hrun : (b.operandsWithData s format [v] m).1
        = ((b.operand s v format).run m).1.toList ++ [] := rfl
    rw [hrun, ho]
    rfl
  rcases hv with ⟨rfl, hbound⟩ | ⟨k, g, hk, hg, hbound⟩
  · obtain ⟨o, ho, hop⟩ := operand_run hs hentry hformat m
    refine ⟨_, hsingle ho, Affine.noiseBound_nonneg _, ?_⟩
    cases v with
    | constInt raw =>
      obtain ⟨f, rfl⟩ := Option.isSome_iff_exists.1 (hformat hentry)
      exact Or.inr ⟨raw, f, rfl, rfl, hop.constInt raw f rfl rfl⟩
    | constFloat c => exact Or.inl ((hop.constFloat c rfl).trans_le hY)
    | function id => exact hentry.elim
    | undef => exact hentry.elim
    | _ =>
      obtain ⟨g, hg⟩ := Option.isSome_iff_exists.1 (hs _ hentry)
      rw [Operand.absError, hop.error_eq _ g rfl hg]
      exact Or.inl (hbound _ g rfl hg)
  · obtain ⟨r, hrun⟩ := operand_run_of_error? hk hg format m
    exact ⟨g.noiseBound, hsingle (o := ⟨r, g⟩) (by rw [hrun]), g.noiseBound_nonneg, Or.inl hbound⟩

/-- What has been recorded in both runs. -/
lemma isSome_of_splits (hs : s.Splits ε s' known n w L) {k : Key} (hk : k ∈ known) :
    (s.error? k).isSome ∧ (s'.error? k).isSome := by
  obtain ⟨g, z, hg, hz, -⟩ := hs k hk
  rw [hg, hz]
  exact ⟨rfl, rfl⟩

lemma visible_all (b : Body ℝ) (i : Instruction ℝ) (incoming : List (Value ℝ × BlockId)) :
    b.visible i .all incoming = incoming.map Prod.fst := by
  rw [visible, List.filter_eq_self.2]
  rintro ⟨_, pred⟩ _
  dsimp only [reads]
  cases (b.flow.loops.headedBy? i.block).bind b.flow.loops.get? <;> rfl

/-- The largest error that a phi reads from one edge is at most `Y`, or at most the largest one that
it reads from all edges in the other run. -/
lemma operandsWithData_pairs (hs : s.Splits ε s' known n w L) {entry : Value ℝ} {Y : ℝ}
    (hY : 0 ≤ Y) (hentry : b.Reads known i entry)
    (hv : (v = entry ∧ ∀ k g, b.keyOf? entry = some k → s.error? k = some g → g.noiseBound ≤ Y) ∨
      ∃ k g, b.keyOf? v = some k ∧ s.error? k = some g ∧ g.noiseBound ≤ Y)
    {format format' : Option Format}
    (hformat : i.scalarInfo?.isSome → format = format' ∧ format.isSome) {vs : List (Value ℝ)}
    (hmem : entry ∈ vs) :
    Fresh.Pairs n w (b.operandsWithData s format [v]) (b.operandsWithData s' format' vs)
      fun os os' _ _ =>
        ∃ x x', maxAbsError? os = some x ∧ maxAbsError? os' = some x' ∧
          (|x| ≤ Y ∨ |x| ≤ |x'|) := by
  obtain ⟨x, hx, hx0, hbound⟩ := exists_maxAbsError?_single
    (fun k hk => (isSome_of_splits hs hk).1) hY hentry (fun h => (hformat h).2) hv n
  obtain ⟨o, ho, hop⟩ := exists_mem_operandsWithData (P := b.IsOperand s' entry format')
    (operand_run (fun k hk => (isSome_of_splits hs hk).2) hentry fun h =>
      (hformat h).1 ▸ (hformat h).2) hmem w.next
  obtain ⟨x', hx', hle⟩ := exists_maxAbsError? ho
  refine Fresh.pairs_of_le (le_operandsWithData _ _ _ _) (le_operandsWithData _ _ _ _)
    fun _ _ => ⟨x, x', hx, hx', ?_⟩
  rw [abs_of_nonneg hx0]
  refine hbound.imp_right ?_
  -- the constant is read in the other run as well
  rintro ⟨raw, f, rfl, hf, rfl⟩
  rw [hop.constInt raw f rfl ((hformat hentry).1.symm.trans hf)] at hle
  exact hle.trans (le_abs_self x')

/-- Noise of a size that is bounded by `Y` or by the noise of the other run. -/
lemma withError_zero_pairs (hε : ∀ t, |ε t| ≤ 1) {x x' Y : ℝ} (hY : 0 ≤ Y)
    (h : |x| ≤ Y ∨ |x| ≤ |x'|) :
    Fresh.Pairs n w (Affine.withError 0 x) (Affine.withError 0 x') fun g z n' w' =>
      ∃ ℓ, |ℓ| ≤ Y ∧ g.Splits ε z n' w' ℓ := by
  rcases h with hbound | hbound
  · refine (Affine.withError_carried_pairs hε x x').mono fun _ _ _ _ _ _ h => ?_
    obtain ⟨ℓ, hℓ, hsplits⟩ := h
    exact ⟨ℓ, hℓ.trans hbound, hsplits⟩
  · refine (Affine.withError_pairs (ℓ := 0) hε fun d hd => ?_).mono fun _ _ _ _ _ _ h =>
      ⟨0, by rwa [abs_zero], h⟩
    rw [sub_zero]
    exact hd.trans hbound

/-- The error of a phi splits into an amount of at most `Y` and the rest. -/
lemma phi_pairs (hε : ∀ t, |ε t| ≤ 1) (hs : a.store.Splits ε a'.store known n w L)
    {incoming : List (Value ℝ × BlockId)} {entry : Value ℝ} {edges : PhiEdges} {Y : ℝ} (hY : 0 ≤ Y)
    (hentry : b.Reads known i entry) (hmem : entry ∈ incoming.map Prod.fst)
    (hvisible : b.visible i edges incoming = [v])
    (hv : (v = entry ∧
        ∀ k g, b.keyOf? entry = some k → a.store.error? k = some g → g.noiseBound ≤ Y) ∨
      ∃ k g, b.keyOf? v = some k ∧ a.store.error? k = some g ∧ g.noiseBound ≤ Y)
    (hr : i.scalarInfo?.isSome →
      b.resultRange? a.store i = b.resultRange? a'.store i ∧ (b.resultRange? a.store i).isSome) :
    Attempt.Pairs n w (b.phi a i edges incoming) (b.phi a' i .all incoming) fun a₁ a₁' n' w' =>
      ∃ ℓ, |ℓ| ≤ Y ∧ SplitStep ε (b.key i) ℓ a a' a₁ a₁' n' w' := by
  have hformat : i.scalarInfo?.isSome →
      (b.resultRange? a.store i).map Range.format = (b.resultRange? a'.store i).map Range.format ∧
        ((b.resultRange? a.store i).map Range.format).isSome := fun h =>
    ⟨congrArg _ (hr h).1, by rw [Option.isSome_map]; exact (hr h).2⟩
  have hoperands := operandsWithData_pairs hs hY hentry hv hformat hmem
  rw [← hvisible, ← visible_all] at hoperands
  unfold phi
  refine (Attempt.pairs_lift hoperands).bind fun os os' n₁ w₁ _ _ hos => ?_
  obtain ⟨x, x', hx, hx', hbound⟩ := hos
  simp only [hx, hx']
  refine (Attempt.pairs_lift (withError_zero_pairs hε hY hbound)).bind fun g z n₂ w₂ _ _ h =>
    Attempt.pairs_pure ?_
  obtain ⟨ℓ, hℓ, hsplits⟩ := h
  exact ⟨ℓ, hℓ, g, z, writeEstimate_records a i _ g, writeEstimate_records a' i _ z, hsplits⟩

end Body

end Roundoff
