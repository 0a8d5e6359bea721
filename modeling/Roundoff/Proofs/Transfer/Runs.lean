/-
# What a run does to a store

A run through a body sets estimates for the instructions and formal parameters of its function, and
where the function returns, it records an error over a new noise symbol for the function.  Whatever
else happens to the store, happens in calls, which the analysis of the whole program answers.  So if
a relation holds between two stores whenever such changes lead from one to the other, and calls
respect it, then it holds between the stores at the beginning and at the end of a run.  There is one
lemma for each rule and for each loop of the analysis; the main result is `runSchedule_respects`.

No other rule than the one for returns records an error for a function.  So if calls keep the error
recorded for a function or replace it by one over new symbols, then a run through a body does so
too.
-/
import Mathlib
import Roundoff.Analysis.Calls
import Roundoff.Proofs.Transfer.Settling

namespace Roundoff

section Runs

variable {R α σ : Type} {n n' : Symbol}

/-! ## New errors -/

/-- The symbols of an error are no older than the symbol `n`. -/
def Affine.IsDrawnFrom (f : Affine R) (n : Symbol) : Prop := ∀ t ∈ f.terms, n ≤ t.1

lemma Affine.IsDrawnFrom.mono {f : Affine R} (hf : f.IsDrawnFrom n') (h : n ≤ n') :
    f.IsDrawnFrom n :=
  fun t ht => h.trans (hf t ht)

lemma Affine.withError_isDrawnFrom [Number R] (c m : R) (n : Symbol) :
    Fresh.EnsuresFrom n (withError c m) fun f => f.IsDrawnFrom n := by
  rw [withError, addNoise]
  split
  · refine ⟨Nat.le_succ n, fun t ht => ?_⟩
    obtain rfl := List.mem_singleton.1 ht
    exact le_rfl
  · exact ⟨le_rfl, fun t ht => absurd ht List.not_mem_nil⟩

/-! ## Relations between stores -/

/-- A relation between a store, the first symbol in supply, and a later store. -/
abbrev Change (R : Type) := Symbol → Store R → Store R → Prop

variable [Number R] {P : Change R} {Q : List (Value R) → Prop}

/-- The changes that a body makes to a store are of the kind `P`. -/
structure Body.Respects (b : Body R) (P : Change R) : Prop where
  /-- Estimates are set for the instructions and formal parameters of the function. -/
  own : ∀ n s s', s.Writes {k | k.owner? = some b.function.id} s' → P n s s'
  /-- An error over new symbols is recorded for the function. -/
  returned : ∀ n s range e, e.IsDrawnFrom n →
    P n s (s.set (.function b.function.id) ⟨range, some e⟩)
  /-- Changes are made one after the other. -/
  trans : ∀ n n' s s' s'', n ≤ n' → P n s s' → P n' s' s'' → P n s s''

lemma Body.Respects.refl {b : Body R} (hP : b.Respects P) (n : Symbol) (s : Store R) : P n s s :=
  hP.own n s s (.refl _ s)

/-- The changes that calls make are of the kind `P`, if their arguments are as wanted. -/
def CallHandler.Respects (h : CallHandler R σ) (m : Module R) (Q : List (Value R) → Prop)
    (P : Change R) : Prop :=
  ∀ world caller callee args s n, callee ∈ m.functions → Q args →
    Fresh.EnsuresFrom n (h.analyse world caller callee args s) fun r => P n s r.1

/-- The arguments of a call are as wanted. -/
def Instruction.CallsWith (i : Instruction R) (Q : List (Value R) → Prop) : Prop :=
  ∀ callee args, i.op.callSite? = some (callee, args) → Q args

/-- The arguments of all calls of a function are as wanted. -/
def Body.CallsWith (b : Body R) (Q : List (Value R) → Prop) : Prop :=
  ∀ i ∈ b.function.insts, i.CallsWith Q

omit [Number R] in
lemma Body.CallsWith.of_mem_blockInsts {b : Body R} {i : Instruction R} (hb : b.CallsWith Q)
    {c : BlockId} (hi : i ∈ b.function.blockInsts c) : i.CallsWith Q := by
  rw [Function.blockInsts] at hi
  split at hi
  · obtain ⟨id, -, hid⟩ := List.mem_filterMap.1 hi
    exact hb i (Array.mem_of_getElem? hid)
  · cases hi

omit [Number R] in
lemma Module.mem_of_calleeBody? {m : Module R} {callee : Callee R} {f : Function R}
    (h : m.calleeBody? callee = some f) : f ∈ m.functions := by
  obtain ⟨hf, -⟩ := Option.filter_eq_some_iff.1 h
  obtain ⟨id, -, hid⟩ := Option.bind_eq_some_iff.1 hf
  exact Array.mem_of_getElem? hid

namespace Body

variable {b : Body R} {h : CallHandler R σ} {a : Activation R} {world : σ} {i : Instruction R}
  {edges : PhiEdges}

/-! ## Visits -/

section Visits

variable (hP : b.Respects P)

include hP

/-- What sets estimates for the function only, makes changes of the kind. -/
lemma Respects.framed {ks : Set Key} (hks : ks ⊆ {k | k.owner? = some b.function.id})
    {m : Fresh (Outcome R σ α)} (hm : m.Ensures (IsFramed a ks)) (n : Symbol) :
    Fresh.EnsuresFrom n m fun o => P n a.store o.state.store :=
  (hm.from n).mono fun _ ho => hP.own _ _ _ (ho.frame.writes.mono hks)

lemma Respects.key {s : Store R} {s' : Store R} (h : s.Writes {b.key i} s') (n : Symbol) :
    P n s s' :=
  hP.own _ _ _ (h.mono (Set.singleton_subset_iff.2 rfl))

/-- A return records an error over a new symbol for its function. -/
lemma Respects.ret (value : Option (Value R)) (n : Symbol) :
    Attempt.EnsuresFrom n (b.ret a i value) fun a' => P n a.store a'.store := by
  have hwrite (o : Operand R) : P n a.store (b.write a i o.error).store :=
    hP.key (write_estimates a i o.error).writes n
  refine (attains_ret (fun v _ => ((ensures_operand _ v _).from n).attains)
    (fun o _ _ _ => hwrite o) fun o n' hn _ _ => ?_).ensuresFrom
  refine (Affine.withError_isDrawnFrom _ _ n').attains.mono fun error _ _ herror => ?_
  exact hP.trans n n' _ _ _ hn (hwrite o) (hP.returned n' _ o.range error herror)

lemma Respects.alloca (ty : Ty) (n : Symbol) :
    ExceptT.EnsuresFrom n (b.alloca a i ty) fun o => ∀ a', o = some a' → P n a.store a'.store :=
  (alloca_estimates ty n).mono fun _ ho _ hr a' ha' =>
    hP.own _ _ _ ((ho _ hr a' ha').writes.mono (Set.empty_subset _))

variable (hh : h.Respects b.module Q P)

include hh

lemma functionCall_respects {callee : Function R} {args : List (Value R)}
    (hcallee : callee ∈ b.module.functions) (hargs : Q args) (n : Symbol) :
    Fresh.EnsuresFrom n (b.functionCall h a world i callee args) fun r =>
      P n a.store r.2.1.store := by
  obtain ⟨hn, hanswer⟩ := hh world b.function callee args a.store n hcallee hargs
  obtain ⟨found, s, hs, heq⟩ := functionCall_eq (b := b) (a := a) (i := i) h callee args n
  rw [Fresh.EnsuresFrom, heq]
  exact ⟨hn, hP.trans n _ _ _ _ hn hanswer (hP.key hs _)⟩

lemma call_respects {callee : Callee R} {args : List (Value R)} (hargs : Q args) (n : Symbol) :
    Fresh.EnsuresFrom n (b.call h a world i callee args) fun o => P n a.store o.state.store := by
  have hkey : ({b.key i} : Set Key) ⊆ {k | k.owner? = some b.function.id} :=
    Set.singleton_subset_iff.2 rfl
  rw [call]
  split
  · split
    · exact Fresh.ensuresFrom_pure (hP.refl n _)
    · exact hP.framed hkey
        ((attempt_estimates (libraryCall_estimates _ _)).mono fun _ h => h.toIsFramed) n
  · split
    · exact Fresh.ensuresFrom_pure (hP.refl n _)
    · next f hf =>
      exact (functionCall_respects hP hh (Module.mem_of_calleeBody? hf) hargs n).bind
        fun r n' _ hr => Fresh.ensuresFrom_pure hr

lemma operate_respects (hi : i.CallsWith Q) (n : Symbol) :
    Fresh.EnsuresFrom n (b.operate h edges a world i) fun o => P n a.store o.state.store := by
  cases hop : i.op with
  | call callee args =>
    rw [operate, hop]
    exact call_respects hP hh (hi callee args (by rw [hop]; rfl)) n
  | invoke callee args normal unwind =>
    rw [operate, hop]
    exact call_respects hP hh (hi callee args (by rw [hop]; rfl)) n
  | ret value =>
    rw [operate, hop]
    change Fresh.EnsuresFrom n ((b.ret a i value).run >>= _) _
    refine Fresh.EnsuresFrom.bind (hP.ret value n) fun o n' _ ho => ?_
    cases o with
    | none => exact Fresh.ensuresFrom_pure (hP.refl n _)
    | some a' => exact Fresh.ensuresFrom_pure (ho a' rfl)
  | alloca ty =>
    rw [operate, hop]
    change Fresh.EnsuresFrom n ((b.alloca a i ty).run >>= _) _
    refine Fresh.EnsuresFrom.bind (hP.alloca ty n) fun r n' _ hr => ?_
    cases r with
    | error fault => exact Fresh.ensuresFrom_pure (hP.refl n _)
    | ok o =>
      cases o with
      | none => exact Fresh.ensuresFrom_pure (hP.refl n _)
      | some a' => exact Fresh.ensuresFrom_pure (hr _ rfl a' rfl)
  | store value ptr =>
    have hlocal : b.IsLocal i := by
      rw [IsLocal, hop]
      trivial
    refine hP.framed ?_ (operate_frame hlocal) n
    rw [written, hop]
    -- a store also writes to the formal parameter behind its address
    rintro k (rfl | ⟨m, -, rfl⟩)
    · rfl
    · rfl
  | _ =>
    have hlocal : b.IsLocal i := by
      rw [IsLocal, hop]
      trivial
    refine hP.framed ?_ (operate_frame hlocal) n
    rw [written, hop]
    exact Set.singleton_subset_iff.2 rfl

lemma visit_respects (hi : i.CallsWith Q) (n : Symbol) :
    Fresh.EnsuresFrom n (b.visit h edges a world i) fun o => P n a.store o.state.store := by
  rw [visit]
  split
  · exact Fresh.ensuresFrom_pure (hP.refl n _)
  · split
    · exact operate_respects hP hh hi n
    · next info _ =>
      split
      · exact ((ensures_seed a.store (b.key i) info).from n).bind fun s n' _ hs =>
          Fresh.ensuresFrom_pure (hP.key hs n)
      · refine (operate_respects hP hh hi n).mono fun o ho => ?_
        exact hP.trans n n _ _ _ le_rfl (hP.key (a.store.writes_setRange _ _) n) ho

lemma visitAll_respects {is : List (Instruction R)} (his : ∀ i ∈ is, i.CallsWith Q) (count : ℕ)
    (n : Symbol) :
    Fresh.EnsuresFrom n (b.visitAll h edges count a world is) fun o =>
      P n a.store o.state.store := by
  induction is generalizing a world count n with
  | nil => exact Fresh.ensuresFrom_pure (hP.refl n _)
  | cons i is ih =>
    rw [visitAll]
    refine (visit_respects hP hh (his i List.mem_cons_self) n).bind fun o n' hn ho => ?_
    split
    · exact Fresh.ensuresFrom_pure ho
    · exact (ih (fun j hj => his j (List.mem_cons_of_mem _ hj)) _ n').mono fun o' ho' =>
        hP.trans n n' _ _ _ hn ho ho'

variable (hb : b.CallsWith Q)

include hb

lemma visitBlock_respects (v : Visit) (n : Symbol) :
    Fresh.EnsuresFrom n (b.visitBlock h v a world) fun o => P n a.store o.state.store :=
  visitAll_respects hP hh (fun _ hi => hb.of_mem_blockInsts hi) 0 n

lemma runVisits_respects (vs : List Visit) (n : Symbol) :
    Fresh.EnsuresFrom n (b.runVisits h a world vs) fun o => P n a.store o.state.store := by
  induction vs generalizing a world n with
  | nil => exact Fresh.ensuresFrom_pure (hP.refl n _)
  | cons v vs ih =>
    rw [runVisits]
    refine (visitBlock_respects hP hh hb v n).bind fun o n' hn ho => ?_
    split
    · exact (ih n').mono fun o' ho' => hP.trans n n' _ _ _ hn ho ho'
    · exact Fresh.ensuresFrom_pure ho

end Visits

/-! ## Loops in closed form -/

/-- The rounding errors of an iteration are found on a store of their own. -/
lemma ensures_visitBlocks (b : Body R) (a : Activation R) (bs : List BlockId) (n : Symbol) :
    Fresh.EnsuresFrom n (b.visitBlocks a bs) fun _ => True := by
  have hP : b.Respects fun _ _ _ => True :=
    ⟨fun _ _ _ _ => trivial, fun _ _ _ _ _ => trivial, fun _ _ _ _ _ _ _ _ => trivial⟩
  have hnone : (CallHandler.none : CallHandler R Unit).Respects b.module (fun _ => True)
      fun _ _ _ => True :=
    fun _ _ _ _ _ _ _ _ => Fresh.ensuresFrom_pure trivial
  induction bs generalizing a n with
  | nil => exact Fresh.ensuresFrom_pure trivial
  | cons c bs ih =>
    rw [visitBlocks]
    -- it is of no interest how this store changes
    refine (visitBlock_respects hP hnone (fun _ _ _ _ _ => trivial) _ n).bind fun o n' _ _ => ?_
    split
    · exact ih _ n'
    · exact Fresh.ensuresFrom_pure trivial

/-- The rounding errors are those that one pass leaves. -/
lemma attains_roundingErrors (b : Body R) (s : Store R) (shape : LoopShape) (system : LoopSystem R)
    (n : Symbol) :
    ExceptT.Attains n (b.roundingErrors s shape system) fun r _ =>
      ∃ a', (b.visitBlocks { store := s.zeroed } shape.blocks n).1 = .ok a' ∧
        r = system.column fun symbol => boundOrZero a'.store symbol.key := by
  unfold roundingErrors
  have hvisits : Fresh.Attains n (b.visitBlocks { store := s.zeroed } shape.blocks) fun r _ =>
      (b.visitBlocks { store := s.zeroed } shape.blocks n).1 = r :=
    ⟨(b.ensures_visitBlocks _ _ n).1, rfl⟩
  refine (ExceptT.attains_lift hvisits).bind fun r n' _ hr => ?_
  cases r with
  | ok a' => exact ExceptT.attains_pure ⟨a', hr, rfl⟩
  | error fault => exact ExceptT.attains_throw

/-- **How a closed form succeeds.** -/
lemma attains_settling (header : BlockId) (k : ℕ) (n : Symbol) :
    ExceptT.Attains n (b.closedForm a header k) fun r n' =>
      ∃ system K a' middle, b.Settling a header k n system K a' middle r.1 r.2 n' := by
  unfold closedForm
  refine ExceptT.attains_ofExcept.bind fun shape n₁ _ ⟨hshape, hn₁⟩ => ?_
  refine ExceptT.attains_ofExcept.bind fun system n₂ _ ⟨hsystem, hn₂⟩ => ?_
  dsimp only
  split
  · exact (ExceptT.attains_throw (P := fun _ _ => False)).bind fun _ _ _ h => h.elim
  refine ExceptT.attains_ofExcept.bind fun K n₃ _ ⟨hK, hn₃⟩ => ?_
  obtain rfl : n₃ = n := hn₃.trans (hn₂.trans hn₁)
  refine (b.attains_roundingErrors _ _ _ n₃).bind fun rounding n₄ hn₄ ⟨a', hpass, hrounding⟩ => ?_
  subst hrounding
  have hkept := keptBySettling_settles b a
  -- what is settled is of interest here only as far as no symbol is put back
  have hsymbols : Fresh.Attains n₄ (b.pinSymbols shape (b.closedErrors a a' system K k) a)
      fun middle n₅ => b.pinSymbols shape (b.closedErrors a a' system K k) a n₄ = (middle, n₅) ∧
        b.Settles a middle :=
    have h := hkept.pinSymbols (n := n₄) (.refl b a) hsystem (b.closedErrors a a' system K k)
    ⟨h.1, rfl, h.2⟩
  refine (ExceptT.attains_lift hsymbols).bind fun middle n₅ _ ⟨hmiddle, hsettles⟩ => ?_
  have hexits : Fresh.Attains n₅ (b.pinExits shape system (b.closedErrors a a' system K k) middle
      (b.function.phis shape.exit)) fun r n₆ =>
        b.pinExits shape system (b.closedErrors a a' system K k) middle
          (b.function.phis shape.exit) n₅ = (r, n₆) :=
    ⟨(hkept.pinExits hsettles _ fun i => mem_insts_of_mem_phis).1, rfl⟩
  refine (ExceptT.attains_lift hexits).bind fun r n₆ _ hr => ?_
  exact ExceptT.attains_pure ⟨system, K, a', middle, eq_ok_of_mapError_eq_ok hshape, hsystem, hK,
    hpass, n₄, hn₄, n₅, hmiddle, hr⟩

lemma exists_settling {header : BlockId} {k : ℕ} {bound : LoopBound R} {settled : Activation R}
    (h : (b.closedForm a header k).run n = (.ok (bound, settled), n')) :
    ∃ system K a' middle, b.Settling a header k n system K a' middle bound settled n' := by
  have hsettling := (attains_settling (b := b) (a := a) header k n).2
  rw [h] at hsettling
  exact hsettling _ rfl

section Kept

variable {Q : Activation R → Symbol → Prop} (hQ : b.KeptBySettling Q) (ha : Q a n)

include hQ ha

/-- **What is kept whenever an error is settled is kept by a closed form.** -/
theorem KeptBySettling.attains_closedForm (header : BlockId) (k : ℕ) :
    ExceptT.Attains n (b.closedForm a header k) fun r n' => Q r.2 n' :=
  (attains_settling header k n).mono fun _ _ ⟨_, _, _, _, h⟩ => h.kept hQ ha

lemma KeptBySettling.of_closedForm {header : BlockId} {k : ℕ} {bound : LoopBound R}
    {settled : Activation R}
    (h : (b.closedForm a header k).run n = (.ok (bound, settled), n')) : Q settled n' := by
  obtain ⟨_, _, _, _, hsettling⟩ := exists_settling h
  exact hsettling.kept hQ ha

end Kept

/-- **A closed form settles errors of the function.** -/
lemma settles_of_closedForm {header : BlockId} {k : ℕ} {l : LoopBound R} {a' : Activation R}
    (h : (b.closedForm a header k).run n = (.ok (l, a'), n')) : b.Settles a a' :=
  (keptBySettling_settles b a).of_closedForm (.refl b a) h

lemma closedForm_respects (hP : b.Respects P) (header : BlockId) (k : ℕ) (n : Symbol) :
    ExceptT.EnsuresFrom n (b.closedForm a header k) fun r => P n a.store r.2.store :=
  ((keptBySettling_settles b a).attains_closedForm (.refl b a) header k).mono fun _ _ hr =>
    hP.own _ _ _ hr.writes

/-! ## Runs -/

variable (hP : b.Respects P) (hh : h.Respects b.module Q P) (hb : b.CallsWith Q)

include hP hh hb

lemma runItem_respects (item : ScheduleItem) (n : Symbol) :
    Fresh.EnsuresFrom n (b.runItem h a world item) fun o => P n a.store o.state.store := by
  cases item with
  | visit v => exact runVisits_respects hP hh hb [v] n
  | closedForm header tripCount fallback =>
    rw [runItem]
    refine Fresh.EnsuresFrom.bind (closedForm_respects hP header _ n) fun r n' hn hr => ?_
    split
    · next bound a' =>
      exact Fresh.ensuresFrom_pure (hr _ rfl)
    · -- the loop is unrolled after all, starting from the store from before
      exact (runVisits_respects hP hh hb fallback n').mono fun o ho =>
        hP.trans n n' _ _ _ hn (hP.refl n _) ho

/-- **A run changes a store as its body and the calls do.** -/
theorem runSchedule_respects (schedule : Schedule) (n : Symbol) :
    Fresh.EnsuresFrom n (b.runSchedule h a world schedule) fun o =>
      P n a.store o.state.store := by
  induction schedule generalizing a world n with
  | nil => exact Fresh.ensuresFrom_pure (hP.refl n _)
  | cons item items ih =>
    rw [runSchedule]
    refine (runItem_respects hP hh hb item n).bind fun o n' hn ho => ?_
    split
    · exact (ih n').mono fun o' ho' => hP.trans n n' _ _ _ hn ho ho'
    · exact Fresh.ensuresFrom_pure ho

end Body

end Runs

section Renewal

variable {R σ : Type} {n n' : Symbol}

/-! ## What is recorded for a function -/

/-- The error recorded for the function `g` is kept, or it is replaced by one over new symbols. -/
def Store.Renews (n : Symbol) (g : FunctionId) (s s' : Store R) : Prop :=
  ∀ e, s'.error? (.function g) = some e → s.error? (.function g) = some e ∨ e.IsDrawnFrom n

namespace Store.Renews

variable {g : FunctionId} {s s' s'' : Store R}

lemma of_eq (h : s'.error? (.function g) = s.error? (.function g)) : s.Renews n g s' :=
  fun _ he => Or.inl (h ▸ he)

lemma trans (hn : n ≤ n') (h : s.Renews n g s') (h' : s'.Renews n' g s'') : s.Renews n g s'' := by
  intro e he
  rcases h' e he with he | he
  · exact h e he
  · exact Or.inr (he.mono hn)

end Store.Renews

/-! ## Functions as arguments -/

/-- The function `g` is not among the arguments of an instruction. -/
def Instruction.Spares (i : Instruction R) (g : FunctionId) : Prop :=
  ∀ callee args, i.op.callSite? = some (callee, args) → .function g ∉ args

/-- No instruction of the function passes the function `g` on as an argument. -/
def Body.Spares (b : Body R) (g : FunctionId) : Prop := ∀ i ∈ b.function.insts, i.Spares g

/-! ## Renewal in a run -/

variable [Number R]

/-- Calls keep the error recorded for the function `g`, or replace it by one over new symbols,
unless the function is itself an argument. -/
def CallHandler.Renews (h : CallHandler R σ) (m : Module R) (g : FunctionId) : Prop :=
  ∀ world caller callee args s n, callee ∈ m.functions → .function g ∉ args →
    Fresh.EnsuresFrom n (h.analyse world caller callee args s) fun r => s.Renews n g r.1

namespace Body

variable {b : Body R} {h : CallHandler R σ} {g : FunctionId} {a : Activation R} {world : σ}

/-- A body records no error for a function other than its own, and for this one an error over new
symbols. -/
lemma respects_renews (b : Body R) (g : FunctionId) :
    b.Respects fun n s s' => s.Renews n g s' where
  own n s s' h := .of_eq (h.error?_eq nofun)
  returned n s range e he := by
    intro e' he'
    rw [Store.error?_set] at he'
    split at he'
    · cases he'
      exact .inr he
    · exact .inl he'
  trans _ _ _ _ _ hn h h' := h.trans hn h'

/-- **A run through a body keeps the error recorded for a function, or replaces it by one over new
symbols.** -/
theorem runSchedule_renews (hh : h.Renews b.module g) (hb : b.Spares g) (schedule : Schedule)
    (n : Symbol) :
    Fresh.EnsuresFrom n (b.runSchedule h a world schedule) fun o =>
      a.store.Renews n g o.state.store :=
  runSchedule_respects (b.respects_renews g) hh hb schedule n

end Body

end Renewal

end Roundoff
