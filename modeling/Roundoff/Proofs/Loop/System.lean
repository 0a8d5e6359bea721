/-
# The updates of linear code

The system of a loop describes linear code as it is: along every line on which the symbols move with
the amounts that come from what the loop carries, the update of a symbol changes at a constant rate,
which is the amount of the value that the symbol stands for.

The search for the symbols reads operands that come from outside the loop or are recorded in it, and
keeps what `Found` says of a symbol (`IsLinearLoop.keptBySearch`).  The main result is
`loopSystem_describes`.
-/
import Mathlib
import Roundoff.Proofs.Expr.Derivative
import Roundoff.Proofs.Expr.Simplification
import Roundoff.Proofs.Loop.Pass
import Roundoff.Proofs.Loop.Symbols

namespace Roundoff

variable {L y : Key → ℝ} {keys keys' : List Key} {ℓ ℓ' : ℝ}

/-! ## Rates -/

namespace Expr

/-- Along every line on which each symbol moves as fast as `y` says for its key, the value of the
expression changes at the rate `ℓ`. -/
structure HasRate (e : Expr ℝ) (keys : List Key) (y : Key → ℝ) (ℓ : ℝ) : Prop where
  /-- There are no zero divisors. -/
  isDefinedAt : ∀ x, e.IsDefinedAt x
  /-- The rate is constant. -/
  value_line : ∀ x d t, (∀ n k, keys[n]? = some k → d n = y k) →
    e.value (line x d t) = e.value x + t * ℓ

variable {a b e : Expr ℝ}

/-- Further symbols make no difference. -/
lemma HasRate.mono (h : e.HasRate keys y ℓ) (hkeys : keys <+: keys') : e.HasRate keys' y ℓ where
  isDefinedAt := h.isDefinedAt
  value_line x d t hd := by
    refine h.value_line x d t fun n k hn => hd n k ?_
    obtain ⟨more, rfl⟩ := hkeys
    rw [List.getElem?_append_left (List.getElem?_eq_some_iff.1 hn).1, hn]

lemma hasRate_const (c : ℝ) : (const c).HasRate keys y 0 where
  isDefinedAt _ := trivial
  value_line x d t _ := by rw [value_const, value_const, mul_zero, add_zero]

lemma hasRate_symbol {n : ℕ} {k : Key} (hn : keys[n]? = some k) :
    (symbol n).HasRate keys y (y k) where
  isDefinedAt _ := trivial
  value_line x d t hd := by rw [value_symbol, value_symbol, line, hd n k hn]

lemma HasRate.add (ha : a.HasRate keys y ℓ) (hb : b.HasRate keys y ℓ') :
    (op .add a b).HasRate keys y (ℓ + ℓ') where
  isDefinedAt x := ⟨ha.isDefinedAt x, hb.isDefinedAt x, nofun⟩
  value_line x d t hd := by
    rw [value_op, value_op, ha.value_line x d t hd, hb.value_line x d t hd]
    simp only [Arith.apply]
    ring

lemma HasRate.sub (ha : a.HasRate keys y ℓ) (hb : b.HasRate keys y ℓ') :
    (op .sub a b).HasRate keys y (ℓ - ℓ') where
  isDefinedAt x := ⟨ha.isDefinedAt x, hb.isDefinedAt x, nofun⟩
  value_line x d t hd := by
    rw [value_op, value_op, ha.value_line x d t hd, hb.value_line x d t hd]
    simp only [Arith.apply]
    ring

lemma HasRate.const_mul (c : ℝ) (hb : b.HasRate keys y ℓ) :
    (op .mul (const c) b).HasRate keys y (c * ℓ) where
  isDefinedAt x := ⟨trivial, hb.isDefinedAt x, nofun⟩
  value_line x d t hd := by
    rw [value_op, value_op, value_const, value_const, hb.value_line x d t hd]
    simp only [Arith.apply]
    ring

lemma HasRate.mul_const (ha : a.HasRate keys y ℓ) (c : ℝ) :
    (op .mul a (const c)).HasRate keys y (c * ℓ) where
  isDefinedAt x := ⟨ha.isDefinedAt x, trivial, nofun⟩
  value_line x d t hd := by
    rw [value_op, value_op, value_const, value_const, ha.value_line x d t hd]
    simp only [Arith.apply]
    ring

lemma HasRate.simplify (h : e.HasRate keys y ℓ) : e.simplify.HasRate keys y ℓ where
  isDefinedAt x := (h.isDefinedAt x).simplify
  value_line x d t hd := by rw [value_simplify, value_simplify, h.value_line x d t hd]

end Expr

namespace Body

variable {b : Body ℝ} {shape : LoopShape} {outside : Set Key} {S S' : List (PendingSymbol ℝ)}
  {i : Instruction ℝ} {v entry latch : Value ℝ} {k : Key} {n : ℕ}

/-- What comes in with the symbols of a loop: with a value from outside its own amount, and with a
value that an iteration hands on to a phi the amount of the phi. -/
structure Brings (b : Body ℝ) (shape : LoopShape) (outside : Set Key) (L y : Key → ℝ) : Prop where
  /-- A value from outside. -/
  outside_eq : ∀ k ∈ outside, y k = L k
  /-- A value that is handed on to a phi. -/
  latch_eq : ∀ i entry latch k, b.Carries shape i entry latch → b.keyOf? latch = some k →
    y k = L (b.key i)

/-- Where a symbol gets its initial error from: a value from outside from itself, and a value that
an iteration hands on to a phi from what the phi receives on entry. -/
inductive EntersFrom (b : Body ℝ) (shape : LoopShape) (outside : Set Key) (k : Key) :
    Option (Value ℝ) → Prop
  | outside {v : Value ℝ} (hk : k ∈ outside) (hv : b.keyOf? v = some k) :
    EntersFrom b shape outside k (some v)
  | carried {i : Instruction ℝ} {entry latch : Value ℝ} (hcarries : b.Carries shape i entry latch)
    (hk : b.keyOf? latch = some k) : EntersFrom b shape outside k (some entry)

/-- What is known of a symbol during the search: an update changes at the rate of the amount. -/
structure Found (b : Body ℝ) (shape : LoopShape) (outside : Set Key) (keys : List Key)
    (L y : Key → ℝ) (s : PendingSymbol ℝ) : Prop where
  /-- The key is that of the value. -/
  keyOf_eq : b.keyOf? s.value = some s.key
  /-- The initial error. -/
  initial : b.EntersFrom shape outside s.key s.initial
  /-- The update, as far as it is known. -/
  expr : ∀ e, s.expr = some e → e.HasRate keys y (L s.key)

lemma Found.mono {s : PendingSymbol ℝ} (h : b.Found shape outside keys L y s)
    (hkeys : keys <+: keys') : b.Found shape outside keys' L y s :=
  ⟨h.keyOf_eq, h.initial, fun e he => (h.expr e he).mono hkeys⟩

/-- What is known of a symbol that has just been looked up: it may be new. -/
lemma Found.of_lookedUp {s : PendingSymbol ℝ} (hv : b.keyOf? v = some s.key)
    (hs : s = { key := s.key, value := v } ∨ b.Found shape outside keys L y s) :
    b.keyOf? s.value = some s.key ∧ ∀ e, s.expr = some e → e.HasRate keys y (L s.key) := by
  rcases hs with h | h
  · rw [h]
    exact ⟨hv, nofun⟩
  · exact ⟨h.keyOf_eq, h.expr⟩

/-! ## Linear loops -/

/-- What the update of a loop is made of: an instruction is silent, forms a combination of what is
known, or carries a value. -/
lemma LinearCode.of_mem {known : Set Key} {is : List (Instruction ℝ)}
    (hcode : b.LinearCode shape outside known is) (hi : i ∈ is) :
    i.op.IsSilent ∨ (∃ α x β y, i.op.Forms α x β y ∧ b.Reads (known ∪ b.recordedKeys is) i x ∧
      b.Reads (known ∪ b.recordedKeys is) i y) ∨
      ∃ entry latch, b.Carries shape i entry latch := by
  induction hcode with
  | nil => cases hi
  | silent hop hfresh his ih =>
    rcases List.mem_cons.1 hi with rfl | hi
    · exact Or.inl hop
    · rw [recordedKeys_cons_silent hop]
      exact ih hi
  | @linear known j is α β x y hforms hfresh hround hx hy hkey his ih =>
    rcases List.mem_cons.1 hi with rfl | hi
    · exact Or.inr (Or.inl ⟨α, x, β, y, hforms, hx.mono Set.subset_union_left,
        hy.mono Set.subset_union_left⟩)
    · rw [recordedKeys_cons hforms.not_silent, Set.union_insert, ← Set.insert_union]
      exact ih hi
  | phi hcarries hfresh hentry hlatch hkey his ih =>
    rcases List.mem_cons.1 hi with rfl | hi
    · exact Or.inr (Or.inr ⟨_, _, hcarries⟩)
    · rw [recordedKeys_cons hcarries.not_silent, Set.union_insert, ← Set.insert_union]
      exact ih hi

/-- A loop whose blocks hold linear code. -/
structure IsLinearLoop (b : Body ℝ) (shape : LoopShape) (outside : Set Key) : Prop where
  /-- The loop is left from its header. -/
  cond_eq : shape.cond = shape.header
  /-- The code is linear. -/
  code : b.LinearCode shape outside outside (b.loopInsts shape)
  /-- The blocks list their instructions. -/
  inst_iff : ∀ id i, b.function.inst? id = some i →
    i.id = id ∧ (shape.contains i.block ↔ i ∈ b.loopInsts shape)
  /-- The phis after the loop do not belong to it. -/
  exits : ∀ i ∈ b.function.phis shape.exit, ¬ shape.contains i.block
  /-- What is handed on to a phi is computed in the loop. -/
  latch_mem : ∀ i entry latch, b.Carries shape i entry latch →
    ∃ k ∈ b.recordedKeys (b.loopInsts shape), b.keyOf? latch = some k
  /-- No value is handed on to two phis. -/
  latch_inj : ∀ i j entry entry' latch latch', b.Carries shape i entry latch →
    b.Carries shape j entry' latch' → b.keyOf? latch = b.keyOf? latch' → b.key i = b.key j

lemma IsLinearLoop.inst?_of_mem_blockInsts (hloop : b.IsLinearLoop shape outside) {block : BlockId}
    (hi : i ∈ b.function.blockInsts block) : b.function.inst? i.id = some i := by
  rw [Function.blockInsts] at hi
  split at hi
  · obtain ⟨id, -, hid⟩ := List.mem_filterMap.1 hi
    rw [(hloop.inst_iff id i hid).1, hid]
  · cases hi

lemma IsLinearLoop.inst?_of_mem (hloop : b.IsLinearLoop shape outside)
    (hi : i ∈ b.loopInsts shape) : b.function.inst? i.id = some i := by
  obtain ⟨block, -, hi⟩ := List.mem_flatMap.1 hi
  exact hloop.inst?_of_mem_blockInsts hi

/-- The amounts of linear code follow the combinations that its instructions form. -/
lemma Flows.amount_eq {Y : Key → ℝ} (h : b.Flows shape Y L i) {α β : ℝ} {x y : Value ℝ}
    (hforms : i.op.Forms α x β y) :
    L (b.key i) = α * x.amount b.function.id L + β * y.amount b.function.id L := by
  rcases h with hsilent | ⟨α', x', β', y', hforms', heq⟩ | ⟨entry, latch, hcarries, -⟩
  · exact absurd hsilent hforms.not_silent
  · rw [heq]
    exact hforms'.amount_eq hforms _ _
  · exact absurd hforms hcarries.not_forms

/-- The amount of a phi is bounded. -/
lemma Flows.abs_le {Y : Key → ℝ} (h : b.Flows shape Y L i)
    (hcarries : b.Carries shape i entry latch) : |L (b.key i)| ≤ Y (b.key i) := by
  rcases h with hsilent | ⟨α, x, β, y, hforms, -⟩ | ⟨_, _, -, hle⟩
  · exact absurd hsilent hcarries.not_silent
  · exact absurd hforms hcarries.not_forms
  · exact hle

lemma mem_loopInsts_of_mem_phis (hi : i ∈ b.function.phis shape.cond) : i ∈ b.loopInsts shape := by
  refine List.mem_flatMap.2 ⟨shape.cond, ?_, List.takeWhile_subset _ hi⟩
  rw [LoopShape.blocks]
  split_ifs <;> simp

/-- A phi of the loop carries a value. -/
lemma IsLinearLoop.exists_carries (hloop : b.IsLinearLoop shape outside)
    (hi : i ∈ b.loopInsts shape) {incoming : List (Value ℝ × BlockId)} (hop : i.op = .phi incoming)
    (hlatch : incomingFrom? incoming shape.body = some latch) :
    ∃ entry, incomingFrom? incoming shape.preheader = some entry ∧
      b.Carries shape i entry latch := by
  rcases hloop.code.of_mem hi with hsilent | ⟨α, x, β, y, hforms, -⟩ | ⟨entry, latch', hcarries⟩
  · rw [hop] at hsilent
    exact hsilent.elim
  · rcases hforms.binary_or_cast with ⟨_, _, _, h⟩ | ⟨_, h, -⟩ <;>
      rw [h] at hop <;> cases hop
  · obtain ⟨incoming', hop', hpre, hbody, -⟩ := hcarries.incoming
    cases hop.symm.trans hop'
    obtain rfl : latch = latch' := Option.some.inj (hlatch.symm.trans hbody)
    exact ⟨entry, hpre, hcarries⟩

/-! ## The search -/

/-- The operand comes from outside the loop or is recorded in it, or is a constant. -/
def InScope (b : Body ℝ) (shape : LoopShape) (outside : Set Key) (v : Value ℝ) : Prop :=
  ∀ k, b.keyOf? v = some k → k ∈ outside ∪ b.recordedKeys (b.loopInsts shape)

/-- What is in scope and not defined in the loop comes from outside. -/
lemma IsLinearLoop.mem_outside (hloop : b.IsLinearLoop shape outside)
    (hv : b.InScope shape outside v) (hk : b.keyOf? v = some k)
    (hout : ∀ i, b.function.definition? v = some i → ¬ shape.contains i.block) : k ∈ outside := by
  refine (hv k hk).resolve_right ?_
  rintro ⟨i, hi, -, rfl⟩
  have hid := hloop.inst?_of_mem hi
  cases v with
  | inst id =>
    cases hk
    exact hout i hid ((hloop.inst_iff i.id i hid).2.2 hi)
  | _ => cases hk

lemma reading_of_isSilent {o : Operation ℝ} (h : o.IsSilent) : o.reading = .unsupported := by
  cases o with
  | icmp | fcmp | br | condBr | unreachable => rfl
  | _ => exact h.elim

lemma amount_of_keyOf? (hk : b.keyOf? v = some k) : v.amount b.function.id L = L k := by
  rw [Value.amount, ← keyOf?, hk]
  rfl

/-- An instruction of the loop that is read as arithmetic or as its operand forms a combination of
values in scope, and its amount is that of the combination. -/
lemma IsLinearLoop.exists_forms (hloop : b.IsLinearLoop shape outside) {Y : Key → ℝ}
    (hL : ∀ i ∈ b.loopInsts shape, b.Flows shape Y L i) {id : InstId}
    (hi : b.function.inst? id = some i) (hblock : shape.contains i.block)
    (hread : i.op.reading ≠ .unsupported) (hphi : ∀ incoming, i.op.reading ≠ .phi incoming) :
    ∃ α x β z, i.op.Forms α x β z ∧ b.InScope shape outside x ∧ b.InScope shape outside z ∧
      (Value.inst id).amount b.function.id L
        = α * x.amount b.function.id L + β * z.amount b.function.id L := by
  obtain ⟨hid, hmem⟩ := hloop.inst_iff id i hi
  rcases hloop.code.of_mem (hmem.1 hblock) with
    hsilent | ⟨α, x, β, z, hforms, hx, hz⟩ | ⟨entry, latch, hcarries⟩
  · exact absurd (reading_of_isSilent hsilent) hread
  · have hkey : b.keyOf? (.inst id) = some (b.key i) := by rw [key, hid]; rfl
    refine ⟨α, x, β, z, hforms, fun _ hk => hx.mem_of_keyOf? hk,
      fun _ hk => hz.mem_of_keyOf? hk, ?_⟩
    rw [amount_of_keyOf? hkey]
    exact (hL i (hmem.1 hblock)).amount_eq hforms
  · obtain ⟨incoming, hop, -⟩ := hcarries.incoming
    exact absurd (by rw [hop]; rfl) (hphi incoming)

/-- The search reads every operand as an expression that changes at the rate of its amount. -/
lemma IsLinearLoop.keptBySearch (hloop : b.IsLinearLoop shape outside) {Y : Key → ℝ}
    (hL : ∀ i ∈ b.loopInsts shape, b.Flows shape Y L i) (hy : b.Brings shape outside L y)
    (store : Store ℝ) :
    b.KeptBySearch store shape (b.InScope shape outside)
      (fun keys => b.Found shape outside keys L y) fun keys _ v e =>
        e.HasRate keys y (v.amount b.function.id L) ∧ ∀ c, v = .constFloat c → e = .const c where
  mono _ _ _ hkeys h := h.mono hkeys
  mono_expr _ _ _ _ _ hkeys h := ⟨h.1.mono hkeys, h.2⟩
  constInt _ _ _ := ⟨Expr.hasRate_const _, nofun⟩
  constFloat _ _ c := ⟨Expr.hasRate_const c, fun _ h => by rw [Value.constFloat.inj h]⟩
  external keys n v s hv hout hk hat hs := by
    have hmem := hloop.mem_outside hv hk hout
    obtain ⟨hkey, hexpr⟩ := Found.of_lookedUp hk hs
    refine ⟨?_, fun format => ⟨?_, fun c hc => by subst hc; cases hk⟩⟩
    · split
      · refine ⟨hkey, .outside hmem hk, fun e he => ?_⟩
        cases he
        rw [← hy.outside_eq _ hmem]
        exact Expr.hasRate_symbol hat
      · next hsome => exact hs.resolve_left fun hnew => hsome (by rw [hnew]; rfl)
    · rw [amount_of_keyOf? hk, ← hy.outside_eq _ hmem]
      exact Expr.hasRate_symbol hat
  phi keys n id i incoming latch s _ hi hblock _ hop hlatch hk hat hs := by
    obtain ⟨hid, hmem⟩ := hloop.inst_iff id i hi
    obtain ⟨entry, hentry, hcarries⟩ := hloop.exists_carries (hmem.1 hblock) hop hlatch
    obtain ⟨hkey, hexpr⟩ := Found.of_lookedUp hk hs
    refine ⟨?_, fun format => ⟨?_, nofun⟩⟩
    · split
      · exact ⟨hkey, hentry ▸ .carried hcarries hk, hexpr⟩
      · next hsome => exact hs.resolve_left fun hnew => hsome (by rw [hnew]; rfl)
    · rw [amount_of_keyOf? (k := b.key i) (by rw [key, hid]; rfl),
        ← hy.latch_eq i entry latch s.key hcarries hk]
      exact Expr.hasRate_symbol hat
  arith id i o u v _ hi hblock hread := by
    obtain ⟨α, x, β, z, hforms, hx, hz, hamount⟩ :=
      hloop.exists_forms hL hi hblock (by rw [hread]; nofun) (by rw [hread]; nofun)
    have hconst (c : ℝ) : b.InScope shape outside (.constFloat c) := nofun
    rw [hamount]
    cases hforms with
    | add h =>
      cases h.symm.trans hread
      refine ⟨hx, hz, fun keys format e e' he he' => ⟨?_, nofun⟩⟩
      rw [one_mul, one_mul]
      exact he.1.add he'.1
    | sub h =>
      cases h.symm.trans hread
      refine ⟨hx, hz, fun keys format e e' he he' => ⟨?_, nofun⟩⟩
      rw [one_mul, neg_one_mul, ← sub_eq_add_neg]
      exact he.1.sub he'.1
    | mulLeft h =>
      cases h.symm.trans hread
      refine ⟨hconst α, hx, fun keys format e e' he he' => ⟨?_, nofun⟩⟩
      rw [zero_mul, add_zero, he.2 α rfl]
      exact he'.1.const_mul α
    | mulRight h =>
      cases h.symm.trans hread
      refine ⟨hx, hconst α, fun keys format e e' he he' => ⟨?_, nofun⟩⟩
      rw [zero_mul, add_zero, he'.2 α rfl]
      exact he.1.mul_const α
    | operand h => cases h.symm.trans hread
  operand id i v _ hi hblock hread := by
    obtain ⟨α, x, β, z, hforms, hx, -, hamount⟩ :=
      hloop.exists_forms hL hi hblock (by rw [hread]; nofun) (by rw [hread]; nofun)
    rw [hamount]
    cases hforms with
    | operand h =>
      cases h.symm.trans hread
      refine ⟨hx, fun keys format e he => ⟨?_, nofun⟩⟩
      rw [one_mul, zero_mul, add_zero]
      exact he.1
    | _ h => cases h.symm.trans hread
  collect i incoming latch hi hop hlatch := by
    obtain ⟨entry, hentry, hcarries⟩ :=
      hloop.exists_carries (mem_loopInsts_of_mem_phis hi) hop hlatch
    obtain ⟨k, hmem, hk⟩ := hloop.latch_mem i entry latch hcarries
    refine ⟨fun l hl => .inr (Option.some.inj (hk.symm.trans hl) ▸ hmem),
      fun keys e s hs he h => ?_⟩
    refine ⟨(Found.of_lookedUp hs h).1, hentry ▸ .carried hcarries hs, fun e' he' => ?_⟩
    cases he'
    rw [← amount_of_keyOf? (L := L) hs]
    exact he.1.simplify

/-! ## The system -/

/-- The system of a loop describes linear code. -/
structure Describes (b : Body ℝ) (shape : LoopShape) (outside : Set Key) (L y : Key → ℝ)
    (system : LoopSystem ℝ) : Prop where
  /-- No value has two symbols. -/
  nodup : (system.map LoopSymbol.key).Nodup
  /-- The key of a symbol is that of its value. -/
  keyOf_eq : ∀ s ∈ system, b.keyOf? s.value = some s.key
  /-- Where a symbol gets its initial error from. -/
  initial : ∀ s ∈ system, b.EntersFrom shape outside s.key s.initial
  /-- The update of a symbol changes at the rate of its amount. -/
  expr : ∀ s ∈ system, s.expr.HasRate (system.map LoopSymbol.key) y (L s.key)
  /-- Every value that is handed on to a phi has a symbol. -/
  latch_mem : ∀ i entry latch k, b.Carries shape i entry latch → b.keyOf? latch = some k →
    k ∈ system.map LoopSymbol.key

/-- **The system of a loop describes linear code.**  Whatever amounts follow the code, the updates
change at the rates of the amounts. -/
theorem loopSystem_describes (hloop : b.IsLinearLoop shape outside) {store : Store ℝ}
    {system : LoopSystem ℝ} (h : b.loopSystem store shape = .ok system) {Y : Key → ℝ}
    (hL : ∀ i ∈ b.loopInsts shape, b.Flows shape Y L i) (hy : b.Brings shape outside L y) :
    b.Describes shape outside L y system := by
  have hkeeps := (hloop.keptBySearch hL hy store).loopSystem h
  refine ⟨hkeeps.nodup, fun t ht => (hkeeps.all t ht).keyOf_eq,
    fun t ht => (hkeeps.all t ht).initial, fun t ht => (hkeeps.all t ht).expr _ rfl,
    fun i entry latch k hcarries hk => ?_⟩
  obtain ⟨incoming, hop, -, hlatch, -⟩ := hcarries.incoming
  exact hkeeps.latch_mem i hcarries.mem_phis incoming latch k (by rw [hop]; rfl) hlatch hk

end Body

end Roundoff
