/-
# The moments of a run

A run passes through the moments between its visits.  What holds of the store, and what holds of the
state of the analysis of the whole program, is kept from moment to moment if it is kept by the steps
that transfer rules make and by the answers to calls.  Both may depend on the symbols that have been
taken from the supply, which grow all along.

The moments are those after visits of instructions and closed forms in whatever order, so that they
include those of every run, whatever its schedule.
-/
import Mathlib
import Roundoff.Proofs.Transfer.CallLog
import Roundoff.Proofs.Transfer.Steps
import Roundoff.Proofs.Transfer.Visits

namespace Roundoff

/-! ## Moments -/

/-- At the moment `y`, no earlier than `x`, the store and the state of the analysis are as wanted. -/
structure Moment.Holds {σ : Type} (S : Store ℝ → Symbol → Prop) (W : σ → Symbol → Prop)
    (x y : Moment ℝ σ) : Prop where
  /-- Symbols are only taken from the supply. -/
  le : x.supply ≤ y.supply
  /-- The store is as wanted. -/
  store : S y.state.store y.supply
  /-- The state of the analysis is as wanted. -/
  world : W y.world y.supply

/-- When the call comes up, no earlier than the symbol `n` is drawn, the store of the caller and the
state of the analysis are as wanted. -/
structure Call.Holds {σ : Type} (S : Store ℝ → Symbol → Prop) (W : σ → Symbol → Prop) (n : Symbol)
    (c : Call ℝ σ) : Prop where
  /-- Symbols are only taken from the supply. -/
  le : n ≤ c.supply
  /-- The store of the caller is as wanted. -/
  store : S c.store c.supply
  /-- The state of the analysis is as wanted. -/
  world : W c.world c.supply

namespace Body

section Passes

variable {R σ : Type} [Number R] {b : Body R} {h : CallHandler R σ} {x : Moment R σ}
  {a : Activation R} {w : σ} {n : Symbol}

/-- The moments that a run may pass through from a given one: instructions are visited and loops are
bounded in closed form, in whatever order. -/
inductive Passes (b : Body R) (h : CallHandler R σ) (x : Moment R σ) : Moment R σ → Prop
  /-- A run starts. -/
  | start : Passes b h x x
  /-- An instruction is visited. -/
  | visit {y : Moment R σ} (hy : Passes b h x y) (edges : PhiEdges) {i : Instruction R}
    (hi : i ∈ b.function.insts) :
    Passes b h x (.after (b.visit h edges y.state y.world i y.supply))
  /-- A loop is bounded. -/
  | bounded {y : Moment R σ} (hy : Passes b h x y) {header : BlockId} {k : ℕ} {l : LoopBound R}
    {a : Activation R} {n : Symbol}
    (hbound : (b.closedForm y.state header k).run y.supply = (.ok (l, a), n)) :
    Passes b h x ⟨a, y.world, n⟩
  /-- A loop has no closed form, and all is as before. -/
  | givenUp {y : Moment R σ} (hy : Passes b h x y) {header : BlockId} {k : ℕ} {o : Obstacle R}
    {n : Symbol} (hbound : (b.closedForm y.state header k).run y.supply = (.error o, n)) :
    Passes b h x ⟨y.state, y.world, n⟩

namespace Passes

lemma trans {y z : Moment R σ} (hy : b.Passes h x y) (hz : b.Passes h y z) : b.Passes h x z := by
  induction hz with
  | start => exact hy
  | visit _ edges hi ih => exact ih.visit edges hi
  | bounded _ hbound ih => exact ih.bounded hbound
  | givenUp _ hbound ih => exact ih.givenUp hbound

end Passes

/-- The moments that a run is traced through are among those that it may pass through. -/
lemma Traces.passes {vs : List (InstVisit R)} {y : Moment R σ} (hy : b.Traces h x vs y) :
    b.Passes h x y := by
  induction hy with
  | start => exact .start
  | visit _ edges hi ih => exact ih.visit edges hi
  | bounded _ hbound ih => exact ih.bounded hbound
  | givenUp _ hbound ih => exact ih.givenUp hbound

namespace Passes

/-- The visits of blocks that follow no calls end at a moment that is passed through. -/
lemma visitBlocks {x : Moment R Unit} {a a' : Activation R} {n n' : Symbol}
    (hx : b.Passes CallHandler.none x ⟨a, (), n⟩) {blocks : List BlockId}
    (hblocks : b.visitBlocks a blocks n = (.ok a', n')) :
    b.Passes CallHandler.none x ⟨a', (), n'⟩ := by
  obtain ⟨us, hus⟩ := exists_traces_visitBlocks .start hblocks
  exact hx.trans hus.passes

/-- **A run ends at a moment that it passes through.** -/
theorem runSchedule (hx : b.Passes h x ⟨a, w, n⟩) (schedule : Schedule) :
    b.Passes h x (.after (b.runSchedule h a w schedule n)) :=
  hx.trans (Traces.start.runSchedule schedule).passes

end Passes

end Passes

/-! ## What is kept -/

/-- The error that a call gets is the one recorded for its callee, or the one that the callee has
returned. -/
lemma returnedError?_eq_some {R σ : Type} [Number R] {h : CallHandler R σ} {w : σ} {s : Store R}
    {id : FunctionId} {error : Affine R} {range : Option (Range R)}
    (hreturned : returnedError? h w s id = some (error, range)) :
    (∃ e, s.get? (.function id) = some e ∧ e.error = some error ∧ range = some e.range) ∨
      (h.returned? w id = some error ∧ range = none) := by
  rw [returnedError?] at hreturned
  split at hreturned
  · next o ho =>
    cases hreturned
    obtain ⟨e, he, ho⟩ := Option.bind_eq_some_iff.1 ho
    obtain ⟨g, hg, rfl⟩ := Option.map_eq_some_iff.1 ho
    exact .inl ⟨e, he, hg, rfl⟩
  · obtain ⟨g, hg, heq⟩ := Option.map_eq_some_iff.1 hreturned
    cases heq
    exact .inr ⟨hg, rfl⟩

variable {σ : Type} {b : Body ℝ} {h : CallHandler ℝ σ} {S : Store ℝ → Symbol → Prop}
  {W : σ → Symbol → Prop} {a : Activation ℝ} {w : σ} {n n' : Symbol} {i : Instruction ℝ}
  {x y : Moment ℝ σ} {edges : PhiEdges}

/-- What holds of stores, and of the states of the analysis, is kept by a body and its calls. -/
structure Preserves (b : Body ℝ) (h : CallHandler ℝ σ) (S : Store ℝ → Symbol → Prop)
    (W : σ → Symbol → Prop) : Prop where
  /-- Rules make steps. -/
  step : ∀ s n s' n', Store.Step b.function.id s n s' n' → S s n → S s' n'
  /-- Symbols are taken from the supply. -/
  later : ∀ w n n', n ≤ n' → W w n → W w n'
  /-- The error that a function has returned is recorded for a call of it. -/
  returned : ∀ s w n id e k, Store.belongsTo b.function.id k = true →
    h.returned? w id = some e → S s n → W w n → S (s.setError k e) n
  /-- A call is answered. -/
  answer : ∀ c : Call ℝ σ, S c.store c.supply → W c.world c.supply →
    c.supply ≤ (h.answer c).2 ∧ S (h.answer c).1.1 (h.answer c).2 ∧
      W (h.answer c).1.2 (h.answer c).2

namespace Preserves

variable (hp : b.Preserves h S W) (hs : S a.store n) (hw : W w n)

include hp hs hw

lemma attempt {rule : Attempt (Activation ℝ)} (hrule : b.TakesStep a n rule) :
    Fresh.Attains n (attempt a w rule) fun o n' => S o.state.store n' ∧ W o.world n' := by
  refine Fresh.Attains.bind hrule fun o n' le ho => ?_
  cases o with
  | none =>
    exact Fresh.attains_pure ⟨hp.step _ _ _ _ (.later _ _ le) hs, hp.later _ _ _ le hw⟩
  | some a' => exact Fresh.attains_pure ⟨hp.step _ _ _ _ (ho a' rfl) hs, hp.later _ _ _ le hw⟩

/-- The result of a call gets what is recorded for its callee, or what the callee has returned. -/
lemma functionCall (callee : Function ℝ) (args : List (Value ℝ)) :
    Fresh.Attains n (b.functionCall h a w i callee args) fun r n' =>
      S r.2.1.store n' ∧ W r.2.2 n' := by
  have hanswer : Fresh.Attains n (h.analyse w b.function callee args a.store) fun r n' =>
      S r.1 n' ∧ W r.2 n' :=
    hp.answer ⟨w, b.function, callee, args, a.store, n⟩ hs hw
  have hkey := b.belongsTo_key i
  unfold Body.functionCall
  refine hanswer.bind fun ⟨s, v⟩ n' _ ⟨hs', hw'⟩ => ?_
  dsimp only at hs' hw' ⊢
  cases hreturned : returnedError? h v s callee.id with
  | none => exact Fresh.attains_pure ⟨hs', hw'⟩
  | some e =>
    obtain ⟨error, range⟩ := e
    refine Fresh.attains_pure ⟨?_, hw'⟩
    rcases returnedError?_eq_some hreturned with ⟨e, he, herror, rfl⟩ | ⟨herror, rfl⟩
    · have hwrite (s' : Store ℝ) (hstep : Store.Step b.function.id s n' s' n') :
          Store.Step b.function.id s n' (s'.setError (b.key i) error) n' :=
        ⟨le_rfl, hstep.edits.trans (.setError .refl hkey error), fun hwf =>
          (hstep.wellFormed hwf).setError _ ((hwf.get? he).error error herror)⟩
      cases b.resultRange? s i with
      | none =>
        have hrange : Store.Step b.function.id s n' (s.setRange (b.key i) e.range) n' :=
          .setRange le_rfl hkey fun hwf => (hwf.get? he).lo_le_hi
        exact hp.step _ _ _ _ (hwrite _ hrange) hs'
      | some r => exact hp.step _ _ _ _ (hwrite _ (.later _ _ le_rfl)) hs'
    · have hset := hp.returned s v n' callee.id error (b.key i) hkey herror hs' hw'
      cases b.resultRange? s i with
      | none => exact hset
      | some r => exact hset

lemma call (callee : Callee ℝ) (args : List (Value ℝ)) :
    Fresh.Attains n (b.call h a w i callee args) fun o n' => S o.state.store n' ∧ W o.world n' := by
  rw [Body.call]
  split
  · split
    · exact Fresh.attains_pure ⟨hs, hw⟩
    · exact hp.attempt hs hw (takesStep_libraryCall _ _)
  · split
    · exact Fresh.attains_pure ⟨hs, hw⟩
    · next f _ =>
      exact (hp.functionCall hs hw f args).bind fun r n' _ hr => Fresh.attains_pure hr

lemma operate : Fresh.Attains n (b.operate h edges a w i) fun o n' =>
    S o.state.store n' ∧ W o.world n' := by
  rw [Body.operate]
  cases i.op with
  | binary op lhs rhs => exact hp.attempt hs hw (takesStep_binary op lhs rhs)
  | cast op v => exact hp.attempt hs hw (takesStep_cast op v)
  | icmp _ lhs rhs | fcmp _ lhs rhs => exact hp.attempt hs hw (takesStep_comparison lhs rhs)
  | select _ t f => exact hp.attempt hs hw (takesStep_select t f)
  | phi incoming => exact hp.attempt hs hw (takesStep_phi edges incoming)
  | load ptr => exact hp.attempt hs hw (takesStep_load ptr)
  | store value ptr => exact hp.attempt hs hw (takesStep_store value ptr)
  | element base _ => exact hp.attempt hs hw (takesStep_element base)
  | ret value => exact hp.attempt hs hw (takesStep_ret value)
  | call callee args | invoke callee args _ _ => exact hp.call hs hw callee args
  | br | condBr | unreachable => exact Fresh.attains_pure ⟨hs, hw⟩
  | alloca ty =>
    have hlater (n' : Symbol) (le : n ≤ n') : S a.store n' ∧ W w n' :=
      ⟨hp.step _ _ _ _ (.later _ _ le) hs, hp.later _ _ _ le hw⟩
    refine Fresh.Attains.bind (attains_alloca (b := b) (a := a) (i := i) ty n) fun r n' le hr => ?_
    cases r with
    | error fault => exact Fresh.attains_pure (hlater n' le)
    | ok o =>
      cases o with
      | none => exact Fresh.attains_pure (hlater n' le)
      | some a' =>
        exact Fresh.attains_pure ⟨hp.step _ _ _ _ (hr _ rfl a' rfl) hs, hp.later _ _ _ le hw⟩

/-- **A visit keeps what steps and calls keep.** -/
theorem visit : Fresh.Attains n (b.visit h edges a w i) fun o n' =>
    S o.state.store n' ∧ W o.world n' := by
  rw [Body.visit]
  split
  · exact Fresh.attains_pure ⟨hs, hw⟩
  · split
    · exact hp.operate hs hw
    · next info _ =>
      split
      · exact (attains_seed a.store i info).bind fun s' n' le hstep =>
          Fresh.attains_pure ⟨hp.step _ _ _ _ hstep hs, hp.later _ _ _ le hw⟩
      · have hstep : Store.Step b.function.id a.store n
            (a.store.setRange (b.key i) info.rangeOrZero) n :=
          .setRange le_rfl (b.belongsTo_key i) fun _ => info.lo_le_hi_rangeOrZero
        exact hp.operate (a := { a with store := a.store.setRange (b.key i) info.rangeOrZero })
          (hp.step _ _ _ _ hstep hs) hw

end Preserves

/-- **What is kept holds at every moment that a run passes through.** -/
theorem Passes.holds (hp : b.Preserves h S W) (hxy : b.Passes h x y)
    (hs : S x.state.store x.supply) (hw : W x.world x.supply) : x.Holds S W y := by
  induction hxy with
  | start => exact ⟨le_rfl, hs, hw⟩
  | @visit y _ edges i hi ih =>
    have hvisit : Fresh.Attains y.supply (b.visit h edges y.state y.world i) _ :=
      hp.visit ih.store ih.world
    obtain ⟨le, hs', hw'⟩ := hvisit
    exact ⟨ih.le.trans le, hs', hw'⟩
  | @bounded y _ header k l a n hbound ih =>
    have hclosed := attains_closedForm (b := b) (a := y.state) (n := y.supply) header k
    rw [ExceptT.Attains, Fresh.Attains, hbound] at hclosed
    exact ⟨ih.le.trans hclosed.1, hp.step _ _ _ _ (hclosed.2 _ rfl) ih.store,
      hp.later _ _ _ hclosed.1 ih.world⟩
  | @givenUp y _ header k o n hbound ih =>
    have hclosed := attains_closedForm (b := b) (a := y.state) (n := y.supply) header k
    rw [ExceptT.Attains, Fresh.Attains, hbound] at hclosed
    exact ⟨ih.le.trans hclosed.1, hp.step _ _ _ _ (.later _ _ hclosed.1) ih.store,
      hp.later _ _ _ hclosed.1 ih.world⟩

/-- A run keeps what steps and calls keep. -/
lemma Preserves.runSchedule (hp : b.Preserves h S W) (hs : S a.store n) (hw : W w n)
    (schedule : Schedule) : Moment.Holds S W ⟨a, w, n⟩ (.after (b.runSchedule h a w schedule n)) :=
  Passes.holds hp (Passes.start.runSchedule schedule) hs hw

/-! ## Calls -/

/-- It is kept that the calls in the log are as wanted. -/
lemma Preserves.logged (hp : b.Preserves h S W) (n : Symbol) :
    b.Preserves h.logged S fun v n' => n ≤ n' ∧ W v.1 n' ∧ ∀ c ∈ v.2, c.Holds S W n where
  step := hp.step
  later v n₁ n₂ le hv := ⟨hv.1.trans le, hp.later _ _ _ le hv.2.1, hv.2.2⟩
  returned s v n' id e k hk he hs hv := hp.returned s v.1 n' id e k hk he hs hv.2.1
  answer c hs hv := by
    obtain ⟨le, hs', hw'⟩ := hp.answer ⟨c.world.1, c.caller, c.callee, c.args, c.store, c.supply⟩
      hs hv.2.1
    refine ⟨le, hs', hv.1.trans le, hw', fun d hd => ?_⟩
    rcases List.mem_append.1 hd with hd | hd
    · exact hv.2.2 d hd
    · obtain rfl := List.mem_singleton.1 hd
      exact ⟨hv.1, hs, hv.2.1⟩

/-- **What is kept holds whenever a call comes up.** -/
theorem Preserves.call_holds (hp : b.Preserves h S W) (hs : S a.store n) (hw : W w n)
    {schedule : Schedule} {c : Call ℝ σ} (hc : c ∈ b.callsOf h a w schedule n) : c.Holds S W n :=
  ((hp.logged n).runSchedule hs ⟨le_rfl, hw, by simp⟩ schedule).world.2.2 c hc

end Body

end Roundoff
