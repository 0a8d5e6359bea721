/-
# The system of a loop simulates the loop

A run of a loop over the numbers is described by the values at the end of each iteration: arithmetic
instructions combine their operands, shifts and conversions stand for their operand, and the phis of
the condition block hand values on from one iteration to the next.

Over one iteration, the search for the symbols of a loop reads every value as an expression that has
the value, if the symbols have the values with which they come in (`loopSystem_hasValue`).  Whether
the updates then simulate the whole run depends on how the run starts.  A value is one symbol,
however many phis it is handed on to, and whether or not it comes from outside the loop: the phis
have to start with the same value, and that of the value from outside (`StartsTogether`).  If they
do, the updates simulate the run, iteration by iteration (`loopSystem_simulates`).
-/
import Mathlib
import Roundoff.Proofs.Expr.Value
import Roundoff.Proofs.Loop.Symbols
import Roundoff.Proofs.Program.Positions

namespace Roundoff

variable {L y : Key → ℝ} {keys keys' : List Key} {ℓ ℓ' : ℝ}

/-! ## Values of expressions -/

namespace Expr

/-- If each symbol has the value that `y` says for its key, then the expression has the value `ℓ`. -/
def HasValue (e : Expr ℝ) (keys : List Key) (y : Key → ℝ) (ℓ : ℝ) : Prop :=
  ∀ x : ℕ → ℝ, (∀ n k, keys[n]? = some k → x n = y k) → e.value x = ℓ

variable {a b e : Expr ℝ}

/-- Further symbols make no difference. -/
lemma HasValue.mono (h : e.HasValue keys y ℓ) (hkeys : keys <+: keys') : e.HasValue keys' y ℓ := by
  intro x hx
  refine h x fun n k hn => hx n k ?_
  obtain ⟨more, rfl⟩ := hkeys
  rw [List.getElem?_append_left (List.getElem?_eq_some_iff.1 hn).1, hn]

lemma hasValue_const (c : ℝ) : (const c).HasValue keys y c := fun _ _ => rfl

lemma hasValue_symbol {n : ℕ} {k : Key} (hn : keys[n]? = some k) :
    (symbol n).HasValue keys y (y k) := fun _ hx => hx n k hn

lemma HasValue.op (o : Arith) (ha : a.HasValue keys y ℓ) (hb : b.HasValue keys y ℓ') :
    (op o a b).HasValue keys y (o.apply ℓ ℓ') := by
  intro x hx
  rw [value_op, ha x hx, hb x hx]

lemma HasValue.simplify (h : e.HasValue keys y ℓ) : e.simplify.HasValue keys y ℓ := by
  intro x hx
  rw [value_simplify, h x hx]

end Expr

namespace Body

variable {b : Body ℝ} {store : Store ℝ} {shape : LoopShape} {S : List (PendingSymbol ℝ)}
  {i : Instruction ℝ} {id : InstId} {v : Value ℝ} {k : Key}

/-! ## Runs over the numbers -/

/-- The number that an operand stands for, if values are as `L` says.  Integer constants are read in
the given format. -/
def number {R : Type} [Number R] (b : Body R) (format : Option Format) (L : Key → R) : Value R → R
  | .constInt raw =>
    match format with
    | some f => f.interpret raw
    | none => Number.ofInt raw.toInt
  | .constFloat x => x
  | v => ((b.keyOf? v).map L).getD 0

lemma number_of_keyOf? (hv : b.keyOf? v = some k) (format : Option Format) :
    b.number format L v = L k := by
  have hkey : ((b.keyOf? v).map L).getD 0 = L k := by rw [hv]; rfl
  cases v with
  | constInt | constFloat => cases hv
  | _ => exact hkey

/-- Whether the value is computed by an instruction of the loop. -/
def IsComputed (b : Body ℝ) (shape : LoopShape) (v : Value ℝ) : Prop :=
  ∃ id i, v = .inst id ∧ b.function.inst? id = some i ∧ shape.contains i.block

/-- Whether the instruction is a phi of the condition block that receives `v` from an iteration. -/
def Receives (b : Body ℝ) (shape : LoopShape) (id : InstId) (v : Value ℝ) : Prop :=
  ∃ i incoming, b.function.inst? id = some i ∧ i.block = shape.cond ∧ i.op = .phi incoming ∧
    incomingFrom? incoming shape.body = some v

/-- The instructions that compute have the values of their expressions. -/
structure Computes (b : Body ℝ) (store : Store ℝ) (shape : LoopShape) (L : Key → ℝ) : Prop where
  /-- An arithmetic operation on two operands. -/
  arith : ∀ id i o u v, b.function.inst? id = some i → shape.contains i.block →
    i.op.reading = .arith o u v → L (.inst b.function.id id) =
      o.apply (b.number (b.constantFormat? store i) L u) (b.number (b.constantFormat? store i) L v)
  /-- An operation that stands for its operand. -/
  operand : ∀ id i v, b.function.inst? id = some i → shape.contains i.block →
    i.op.reading = .operand v →
      L (.inst b.function.id id) = b.number (b.constantFormat? store i) L v

/-- A run over the numbers of a loop that is left from its header: `σ t` has the values at the end
of iteration `t`, from zero on. -/
structure IsRun (b : Body ℝ) (store : Store ℝ) (shape : LoopShape) (σ : ℕ → Key → ℝ) : Prop where
  /-- The instructions of an iteration have their values. -/
  computes : ∀ t, b.Computes store shape (σ t)
  /-- Values from outside the loop do not change. -/
  outside : ∀ t v k, b.keyOf? v = some k → ¬ b.IsComputed shape v → σ t k = σ 0 k
  /-- In the first iteration a phi has the value that it receives on entry. -/
  entry : ∀ id i incoming v, b.function.inst? id = some i → i.block = shape.cond →
    i.op = .phi incoming → incomingFrom? incoming shape.preheader = some v →
      σ 0 (.inst b.function.id id) = b.number (b.constantFormat? store i) (σ 0) v
  /-- In later iterations a phi has the value that it receives from the iteration before. -/
  latch : ∀ t id v k, b.Receives shape id v → b.keyOf? v = some k →
    σ (t + 1) (.inst b.function.id id) = σ t k

/-- One iteration: the values at its end are `L`, and a value that is a symbol comes in as `y`. -/
structure IsIteration (b : Body ℝ) (store : Store ℝ) (shape : LoopShape) (L y : Key → ℝ) : Prop
    extends b.Computes store shape L where
  /-- A value from outside comes in as it is. -/
  outside : ∀ v k, b.keyOf? v = some k → ¬ b.IsComputed shape v → y k = L k
  /-- A phi has the value with which the symbol comes in that it receives. -/
  phi : ∀ id v k, b.Receives shape id v → b.keyOf? v = some k → L (.inst b.function.id id) = y k

/-! ## The search -/

/-- Where a symbol gets its initial value from: a value from outside from itself, and a value that
is handed on to a phi from what the phi receives on entry. -/
inductive ComesIn (b : Body ℝ) (shape : LoopShape) (L : Key → ℝ) (k : Key) :
    Option (Value ℝ) → ℝ → Prop
  | outside {v : Value ℝ} (hk : b.keyOf? v = some k) (hv : ¬ b.IsComputed shape v) :
    ComesIn b shape L k (some v) (L k)
  | carried {id : InstId} {i : Instruction ℝ} {incoming : List (Value ℝ × BlockId)} {v : Value ℝ}
    (hi : b.function.inst? id = some i) (hblock : i.block = shape.cond) (hop : i.op = .phi incoming)
    (hv : incomingFrom? incoming shape.body = some v) (hk : b.keyOf? v = some k) :
    ComesIn b shape L k (incomingFrom? incoming shape.preheader) (L (.inst b.function.id id))

/-- The initial operand has the initial value. -/
lemma ComesIn.exists_number {σ : ℕ → Key → ℝ} {init : Option (Value ℝ)} {x : ℝ}
    (h : b.ComesIn shape (σ 0) k init x) (hrun : b.IsRun store shape σ) (hv : init = some v) :
    ∃ format, x = b.number format (σ 0) v := by
  cases h with
  | outside hk =>
    cases hv
    exact ⟨none, (number_of_keyOf? hk none).symm⟩
  | carried hi hblock hop => exact ⟨_, hrun.entry _ _ _ v hi hblock hop hv⟩

/-- A value that is handed on to no phi comes from outside. -/
lemma ComesIn.eq_value {init : Option (Value ℝ)} {x : ℝ} (h : b.ComesIn shape L k init x)
    (hv : b.keyOf? v = some k) (hnone : ∀ id, ¬ b.Receives shape id v) : init = some v := by
  cases h with
  | outside hk => rw [keyOf?_inj hk hv]
  | @carried id i incoming u hi hblock hop hu hk =>
    rw [keyOf?_inj hk hv] at hu
    exact absurd ⟨i, incoming, hi, hblock, hop, hu⟩ (hnone id)

/-- What is known of a symbol during the search. -/
structure Simulated (b : Body ℝ) (shape : LoopShape) (L y : Key → ℝ) (keys : List Key)
    (s : PendingSymbol ℝ) : Prop where
  /-- The initial value, as far as it is known; an update comes with one. -/
  initial : (s.expr = none ∧ s.initial = none) ∨ ∃ x, b.ComesIn shape L s.key s.initial x
  /-- The update, as far as it is known, has the value of the symbol. -/
  expr : ∀ e, s.expr = some e → e.HasValue keys y (L s.key)

lemma Simulated.mono {s : PendingSymbol ℝ} (hkeys : keys <+: keys')
    (h : b.Simulated shape L y keys s) : b.Simulated shape L y keys' s :=
  ⟨h.initial, fun e he => (h.expr e he).mono hkeys⟩

/-- Nothing is known of a symbol that is new. -/
lemma Simulated.of_lookedUp {s : PendingSymbol ℝ}
    (hs : s = { key := s.key, value := v } ∨ b.Simulated shape L y keys s) :
    b.Simulated shape L y keys s := by
  rcases hs with h | h
  · rw [h]
    exact ⟨Or.inl ⟨rfl, rfl⟩, nofun⟩
  · exact h

/-- Over one iteration the search reads every operand as an expression that has its value. -/
lemma keptBySearch_simulated (hiter : b.IsIteration store shape L y)
    (hplaced : ∀ i ∈ b.function.blockInsts shape.cond, i.block = shape.cond) :
    b.KeptBySearch store shape (fun _ => True) (b.Simulated shape L y) fun keys format v e =>
      e.HasValue keys y (b.number format L v) where
  mono _ _ _ hkeys h := h.mono hkeys
  mono_expr _ _ _ _ _ hkeys h := h.mono hkeys
  constInt _ _ _ := Expr.hasValue_const _
  constFloat _ _ x := Expr.hasValue_const x
  external keys n v s _ hout hk hat hs := by
    have hv : ¬ b.IsComputed shape v := by
      rintro ⟨id, i, rfl, hi, hblock⟩
      exact hout i hi hblock
    have hyk := hiter.outside v s.key hk hv
    refine ⟨?_, fun format => ?_⟩
    · split
      · refine ⟨Or.inr ⟨_, .outside hk hv⟩, fun e he => ?_⟩
        cases he
        rw [← hyk]
        exact Expr.hasValue_symbol hat
      · exact .of_lookedUp hs
    · rw [number_of_keyOf? hk, ← hyk]
      exact Expr.hasValue_symbol hat
  phi keys n id i incoming latch s _ hi _ hblock hop hlatch hk hat hs := by
    have hs : b.Simulated shape L y keys s := .of_lookedUp hs
    refine ⟨?_, fun format => ?_⟩
    · split
      · exact ⟨Or.inr ⟨_, .carried hi hblock hop hlatch hk⟩, hs.expr⟩
      · exact hs
    · change (Expr.symbol n).HasValue keys y (L (.inst b.function.id id))
      rw [hiter.phi id latch s.key ⟨i, incoming, hi, hblock, hop, hlatch⟩ hk]
      exact Expr.hasValue_symbol hat
  arith id i o u v _ hi hblock hread := by
    refine ⟨trivial, trivial, fun keys format e e' he he' => ?_⟩
    change (Expr.op o e e').HasValue keys y (L (.inst b.function.id id))
    rw [hiter.arith id i o u v hi hblock hread]
    exact he.op o he'
  operand id i v _ hi hblock hread := by
    refine ⟨trivial, fun keys format e he => ?_⟩
    change e.HasValue keys y (L (.inst b.function.id id))
    rwa [hiter.operand id i v hi hblock hread]
  collect i incoming latch hi hop hlatch := by
    refine ⟨trivial, fun keys e s hk he hs => ?_⟩
    have hmem := List.takeWhile_subset _ hi
    obtain ⟨id, hid⟩ := Function.exists_inst?_of_mem_blockInsts hmem
    refine ⟨Or.inr ⟨_, .carried hid (hplaced i hmem) hop hlatch hk⟩, fun e' he' => ?_⟩
    cases he'
    rw [← number_of_keyOf? (L := L) hk none]
    exact he.simplify

/-! ## The system -/

/-- What the system says of a symbol over one iteration. -/
structure Follows (b : Body ℝ) (shape : LoopShape) (L y : Key → ℝ) (keys : List Key)
    (s : LoopSymbol ℝ) : Prop where
  /-- The initial value. -/
  initial : ∃ x, b.ComesIn shape L s.key s.initial x
  /-- The update has the value of the symbol. -/
  expr : s.expr.HasValue keys y (L s.key)

/-- **The updates of a loop compute its iterations.**  If each symbol has the value with which it
comes in, then its update has the value at the end of the iteration. -/
theorem loopSystem_follows (hiter : b.IsIteration store shape L y)
    (hplaced : ∀ i ∈ b.function.blockInsts shape.cond, i.block = shape.cond)
    {system : LoopSystem ℝ} (h : b.loopSystem store shape = .ok system) :
    ∀ s ∈ system, b.Follows shape L y (system.map LoopSymbol.key) s := by
  intro t ht
  have hsim := ((keptBySearch_simulated hiter hplaced).loopSystem h).all t ht
  exact ⟨hsim.initial.resolve_left fun hnew => (nomatch hnew.1), hsim.expr _ rfl⟩

/-! ## Runs -/

/-- The phis start together: those that receive the same value from an iteration start with the same
value, and one that receives a value from outside starts with that value. -/
structure StartsTogether (b : Body ℝ) (shape : LoopShape) (L : Key → ℝ) : Prop where
  /-- Two phis that receive the same value. -/
  shared : ∀ id id' v v' k, b.Receives shape id v → b.Receives shape id' v' → b.keyOf? v = some k →
    b.keyOf? v' = some k → L (.inst b.function.id id) = L (.inst b.function.id id')
  /-- A phi that receives a value from outside. -/
  outside : ∀ id v k, b.Receives shape id v → b.keyOf? v = some k → ¬ b.IsComputed shape v →
    L (.inst b.function.id id) = L k

/-- If the phis start together, a symbol has only one initial value. -/
lemma StartsTogether.comesIn_unique {init init' : Option (Value ℝ)} {x x' : ℝ}
    (hstart : b.StartsTogether shape L) (h : b.ComesIn shape L k init x)
    (h' : b.ComesIn shape L k init' x') : x = x' := by
  cases h with
  | outside hk hv =>
    cases h' with
    | outside => rfl
    | @carried id i incoming v' hi hblock hop hlatch hk' =>
      exact (hstart.outside id v' k ⟨i, incoming, hi, hblock, hop, hlatch⟩ hk'
        (keyOf?_inj hk hk' ▸ hv)).symm
  | @carried id i incoming v hi hblock hop hlatch hk =>
    cases h' with
    | outside hk' hv' =>
      exact hstart.outside id v k ⟨i, incoming, hi, hblock, hop, hlatch⟩ hk
        (keyOf?_inj hk' hk ▸ hv')
    | @carried id' i' incoming' v' hi' hblock' hop' hlatch' hk' =>
      exact hstart.shared id id' v v' k ⟨i, incoming, hi, hblock, hop, hlatch⟩
        ⟨i', incoming', hi', hblock', hop', hlatch'⟩ hk hk'

/-- The value with which a symbol enters a run whose first iteration ends with the values `L`. -/
noncomputable def start (b : Body ℝ) (shape : LoopShape) (L : Key → ℝ) (k : Key) : ℝ :=
  open Classical in
  if h : ∃ x init, b.ComesIn shape L k init x then h.choose else L k

lemma StartsTogether.start_eq {init : Option (Value ℝ)} {x : ℝ} (hstart : b.StartsTogether shape L)
    (h : b.ComesIn shape L k init x) : b.start shape L k = x := by
  have hexists : ∃ x init, b.ComesIn shape L k init x := ⟨x, init, h⟩
  rw [start, dif_pos hexists]
  exact hstart.comesIn_unique hexists.choose_spec.choose_spec h

variable {σ : ℕ → Key → ℝ}

/-- The values with which the symbols come into an iteration of a run. -/
noncomputable def incoming (b : Body ℝ) (shape : LoopShape) (σ : ℕ → Key → ℝ) : ℕ → Key → ℝ
  | 0 => b.start shape (σ 0)
  | t + 1 => σ t

lemma IsRun.isIteration (hrun : b.IsRun store shape σ) (hstart : b.StartsTogether shape (σ 0))
    (t : ℕ) : b.IsIteration store shape (σ t) (b.incoming shape σ t) where
  toComputes := hrun.computes t
  outside v k hk hv := by
    cases t with
    | zero => exact hstart.start_eq (.outside hk hv)
    | succ t => exact (hrun.outside t v k hk hv).trans (hrun.outside (t + 1) v k hk hv).symm
  phi id v k hv hk := by
    cases t with
    | zero =>
      obtain ⟨i, incoming, hi, hblock, hop, hlatch⟩ := hv
      exact (hstart.start_eq (.carried hi hblock hop hlatch hk)).symm
    | succ t => exact hrun.latch t id v k hv hk

/-- The updates of a system simulate a run: `v t` has the values of the symbols after `t`
iterations. -/
structure Simulates (b : Body ℝ) (shape : LoopShape) (σ : ℕ → Key → ℝ) (system : LoopSystem ℝ)
    (v : ℕ → ℕ → ℝ) : Prop where
  /-- A symbol starts with the value of its initial operand. -/
  initial : ∀ (n : ℕ) (s : LoopSymbol ℝ) u, system[n]? = some s → s.initial = some u →
    ∃ format, v 0 n = b.number format (σ 0) u
  /-- The initial operand of a value that is handed on to no phi is the value itself. -/
  itself : ∀ (n : ℕ) (s : LoopSymbol ℝ), system[n]? = some s →
    (∀ id, ¬ b.Receives shape id s.value) →
    s.initial = some s.value
  /-- After an iteration a symbol has the value at the end of the iteration. -/
  carried : ∀ (t n : ℕ) (s : LoopSymbol ℝ), system[n]? = some s → v (t + 1) n = σ t s.key
  /-- The update computes the value from the values after the iteration before. -/
  update : ∀ (t n : ℕ) (s : LoopSymbol ℝ), system[n]? = some s → v (t + 1) n = s.expr.value (v t)

/-- **The system of a loop simulates the loop.**  For every run over the numbers of a loop that is
left from its header, if the phis start together, then the values of the symbols before the first
iteration and after each iteration follow the updates. -/
theorem loopSystem_simulates (hvalid : b.module.bodyDefect? b.function = none)
    {system : LoopSystem ℝ} (h : b.loopSystem store shape = .ok system)
    (hrun : b.IsRun store shape σ) (hstart : b.StartsTogether shape (σ 0)) :
    ∃ v, b.Simulates shape σ system v := by
  have hfollows : ∀ t, ∀ s ∈ system, b.Follows shape (σ t) (b.incoming shape σ t)
      (system.map LoopSymbol.key) s := fun t =>
    loopSystem_follows (hrun.isIteration hstart t) (fun i hi => block_eq_of_bodyDefect? hvalid hi) h
  let v : ℕ → ℕ → ℝ := fun t n => ((system[n]?).map fun s => b.incoming shape σ t s.key).getD 0
  have hv : ∀ t n s, system[n]? = some s → v t n = b.incoming shape σ t s.key := by
    intro t n s hs
    simp only [v, hs, Option.map_some, Option.getD_some]
  refine ⟨v, ?_, ?_, fun t n s hs => hv (t + 1) n s hs, ?_⟩
  · intro n s u hs hu
    obtain ⟨x, hx⟩ := (hfollows 0 s (List.mem_of_getElem? hs)).initial
    rw [hv 0 n s hs, incoming, hstart.start_eq hx]
    exact hx.exists_number hrun hu
  · intro n s hs hnone
    have hmem := List.mem_of_getElem? hs
    obtain ⟨x, hx⟩ := (hfollows 0 s hmem).initial
    exact hx.eq_value (keyOf?_of_mem_loopSystem h s hmem) hnone
  · intro t n s hs
    rw [hv (t + 1) n s hs]
    refine ((hfollows t s (List.mem_of_getElem? hs)).expr (v t) fun m k hm => ?_).symm
    rw [List.getElem?_map] at hm
    obtain ⟨s', hs', rfl⟩ := Option.map_eq_some_iff.1 hm
    exact hv t m s' hs'

end Body

/-! ## A sum that grows -/

namespace Accumulating

/-- A loop that adds the first parameter to a sum in each iteration, from the parameter on. -/
def function : Function ℝ where
  id := ⟨0⟩
  name := "accumulate"
  params := #[⟨"step", .float 64, none⟩, ⟨"again", .int 1, none⟩]
  retTy := .float 64
  blocks := #[⟨⟨0⟩, "entry", [⟨0⟩], none, none⟩, ⟨⟨1⟩, "loop", [⟨1⟩, ⟨2⟩, ⟨3⟩], none, none⟩,
    ⟨⟨2⟩, "exit", [⟨4⟩], none, none⟩]
  insts := #[⟨⟨0⟩, ⟨0⟩, "", .void, .br ⟨1⟩, none, none⟩,
    ⟨⟨1⟩, ⟨1⟩, "sum", .float 64, .phi [(.arg 0, ⟨0⟩), (.inst ⟨2⟩, ⟨1⟩)], none, none⟩,
    ⟨⟨2⟩, ⟨1⟩, "next", .float 64, .binary .fadd (.inst ⟨1⟩) (.arg 0), none, none⟩,
    ⟨⟨3⟩, ⟨1⟩, "", .void, .condBr (.arg 1) ⟨1⟩ ⟨2⟩, none, none⟩,
    ⟨⟨4⟩, ⟨2⟩, "", .void, .ret (some (.inst ⟨2⟩)), none, none⟩]
  maxRecursion := none
  entryPoint := true

/-- The module of the function. -/
def program : Module ℝ := ⟨"m", #[function], #[], #[]⟩

/-- The function, as it is analysed. -/
def body : Body ℝ := .of program {} function

/-- The loop. -/
def shape : LoopShape := ⟨⟨1⟩, ⟨0⟩, ⟨1⟩, ⟨1⟩, ⟨2⟩⟩

/-- The sum is carried from one iteration to the next, and the parameter does not change. -/
def system : LoopSystem ℝ :=
  [⟨.inst ⟨0⟩ ⟨2⟩, .inst ⟨2⟩, body.nameOf (.inst ⟨2⟩), .op .add (.symbol 0) (.symbol 1),
      some (.arg 0), false⟩,
    ⟨.arg ⟨0⟩ 0, .arg 0, body.nameOf (.arg 0), .symbol 1, some (.arg 0), true⟩]

lemma loopSystem_eq : body.loopSystem (.forModule program) shape = .ok system := by
  with_unfolding_all rfl

/-- The values at the end of an iteration, if the parameter is 1. -/
def values (t : ℕ) (k : Key) : ℝ :=
  if k = .inst ⟨0⟩ ⟨1⟩ then t + 1 else if k = .inst ⟨0⟩ ⟨2⟩ then t + 1 + 1 else 1

/-- Only the phi and the addition are read. -/
lemma inst?_cases {id : InstId} {i : Instruction ℝ} (h : body.function.inst? id = some i) :
    (id = ⟨1⟩ ∧ i.op = .phi [(.arg 0, ⟨0⟩), (.inst ⟨2⟩, ⟨1⟩)]) ∨
    (id = ⟨2⟩ ∧ i.op = .binary .fadd (.inst ⟨1⟩) (.arg 0)) ∨ i.op.reading = .unsupported := by
  obtain ⟨n⟩ := id
  obtain ⟨hn, rfl⟩ := Array.getElem?_eq_some_iff.1 h
  change n.toNat < 5 at hn
  have hcases : n = 0 ∨ n = 1 ∨ n = 2 ∨ n = 3 ∨ n = 4 := by
    simp only [← UInt32.toNat_inj, UInt32.reduceToNat]
    omega
  obtain rfl | rfl | rfl | rfl | rfl := hcases
  · exact .inr (.inr rfl)
  · exact .inl ⟨rfl, rfl⟩
  · exact .inr (.inl ⟨rfl, rfl⟩)
  · exact .inr (.inr rfl)
  · exact .inr (.inr rfl)

/-- There is only one phi. -/
lemma phi_eq {id : InstId} {i : Instruction ℝ} {incoming : List (Value ℝ × BlockId)}
    (h : body.function.inst? id = some i) (hop : i.op = .phi incoming) :
    id = ⟨1⟩ ∧ incoming = [(.arg 0, ⟨0⟩), (.inst ⟨2⟩, ⟨1⟩)] := by
  obtain ⟨hid, hphi⟩ | ⟨-, hadd⟩ | hread := inst?_cases h
  · exact ⟨hid, Operation.phi.inj (hop.symm.trans hphi)⟩
  · cases hop.symm.trans hadd
  · rw [hop] at hread
    cases hread

lemma receives_eq {id : InstId} {v : Value ℝ} (h : body.Receives shape id v) :
    id = ⟨1⟩ ∧ v = .inst ⟨2⟩ := by
  obtain ⟨i, incoming, hi, -, hop, hv⟩ := h
  obtain ⟨rfl, rfl⟩ := phi_eq hi hop
  exact ⟨rfl, (Option.some.inj hv).symm⟩

lemma isRun_values : body.IsRun (.forModule program) shape values where
  computes t := by
    refine ⟨fun id i o u v hi _ hop => ?_, fun id i v hi _ hop => ?_⟩
    · obtain ⟨-, h⟩ | ⟨rfl, h⟩ | h := inst?_cases hi
      · rw [h] at hop
        cases hop
      · rw [h] at hop
        cases hop
        rfl
      · cases h.symm.trans hop
    · obtain ⟨-, h⟩ | ⟨-, h⟩ | h := inst?_cases hi
      · rw [h] at hop
        cases hop
      · rw [h] at hop
        cases hop
      · cases h.symm.trans hop
  outside t v k hk hv := by
    have hne {id : InstId} {i : Instruction ℝ} (hi : body.function.inst? id = some i)
        (hblock : shape.contains i.block) : k ≠ .inst ⟨0⟩ id := by
      rintro rfl
      exact hv ⟨id, i, Body.keyOf?_inj hk rfl, hi, hblock⟩
    have hphi : k ≠ .inst ⟨0⟩ ⟨1⟩ := hne rfl rfl
    have hnext : k ≠ .inst ⟨0⟩ ⟨2⟩ := hne rfl rfl
    rw [values, values, if_neg hphi, if_neg hnext, if_neg hphi, if_neg hnext]
  entry id i incoming v hi _ hop hv := by
    obtain ⟨rfl, rfl⟩ := phi_eq hi hop
    cases hv
    rw [Body.number_of_keyOf? rfl]
    simp [values, body, function]
  latch t id v k hv hk := by
    obtain ⟨rfl, rfl⟩ := receives_eq hv
    cases hk
    simp [values]

/-- The phi receives a value of the loop. -/
lemma startsTogether : body.StartsTogether shape (values 0) where
  shared id id' v v' k hv hv' _ _ := by
    rw [(receives_eq hv).1, (receives_eq hv').1]
  outside id v k hv _ hcomputed := by
    obtain ⟨-, rfl⟩ := receives_eq hv
    exact absurd ⟨⟨2⟩, _, rfl, rfl, rfl⟩ hcomputed

/-- The system simulates the sum. -/
theorem exists_simulates : ∃ v, body.Simulates shape values system v :=
  Body.loopSystem_simulates (by with_unfolding_all rfl) loopSystem_eq isRun_values startsTogether

end Accumulating

end Roundoff
