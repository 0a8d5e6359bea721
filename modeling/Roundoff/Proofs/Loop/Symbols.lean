/-
# The search for the symbols of a loop

The search goes from instruction to instruction and stops at the first obstacle.  `Collect.Finds`
says what it finds if there is none.  Symbols are only added and completed on the way, so they keep
their numbers and their keys.

`KeptBySearch` lists what has to be shown of a property of symbols, and of the expressions that are
read, so that it holds of all that the search finds (`KeptBySearch.loopSystem`).  In particular each
symbol has the key of its value, and an instruction of the loop becomes a symbol only if it can be
read as an expression.
-/
import Mathlib
import Roundoff.ClosedForm.System

namespace Roundoff

variable {R : Type}

/-! ## The search -/

lemma forall₂_of_mapM {ε α β : Type} {f : α → Except ε β} {xs : List α} {ys : List β}
    (h : xs.mapM f = .ok ys) : List.Forall₂ (fun x y => f x = .ok y) xs ys := by
  induction xs generalizing ys with
  | nil =>
    cases h
    exact .nil
  | cons x xs ih =>
    rw [List.mapM_cons] at h
    cases hx : f x with
    | error e =>
      rw [hx] at h
      cases h
    | ok y =>
      cases hxs : xs.mapM f with
      | error e =>
        rw [hx, hxs] at h
        cases h
      | ok ys' =>
        rw [hx, hxs] at h
        cases h
        exact .cons hx (ih hxs)

namespace Collect

variable {α β : Type} {S S' : List (PendingSymbol R)}

/-- If the search succeeds from the symbols `S`, then what it finds is as wanted. -/
def Finds (S : List (PendingSymbol R)) (m : Collect R α)
    (P : α → List (PendingSymbol R) → Prop) : Prop :=
  ∀ a S', m.run S = .ok (a, S') → P a S'

variable {P : α → List (PendingSymbol R) → Prop} {Q : β → List (PendingSymbol R) → Prop}

lemma finds_pure {a : α} (h : P a S) : Finds S (pure a) P := by
  intro a' S' h'
  cases h'
  exact h

lemma finds_throw (o : Obstacle R) : Finds S (throw o) P := by
  intro a' S' h'
  cases h'

lemma finds_lift {x : Except (Obstacle R) α} (h : ∀ a, x = .ok a → P a S) :
    Finds S (liftM x) P := by
  intro a' S' h'
  cases x with
  | error o => cases h'
  | ok a =>
    cases h'
    exact h _ rfl

lemma Finds.bind {m : Collect R α} {f : α → Collect R β} (hm : Finds S m P)
    (hf : ∀ a S', P a S' → Finds S' (f a) Q) : Finds S (m >>= f) Q := by
  intro c S'' h
  rw [StateT.run_bind] at h
  cases hrun : m.run S with
  | error o =>
    rw [hrun] at h
    cases h
  | ok r =>
    rw [hrun] at h
    exact hf r.1 r.2 (hm r.1 r.2 hrun) c S'' h

lemma Finds.mono {P' : α → List (PendingSymbol R) → Prop} {m : Collect R α} (hm : Finds S m P)
    (h : ∀ a S', P a S' → P' a S') : Finds S m P' :=
  fun a S' hrun => h a S' (hm a S' hrun)

end Collect

namespace Operation

variable {o : Operation R} {incoming : List (Value R × BlockId)}

lemma eq_phi_of_incoming? (h : o.incoming? = some incoming) : o = .phi incoming := by
  cases o with
  | phi => exact congrArg phi (Option.some.inj h)
  | _ => cases h

lemma eq_phi_of_reading (h : o.reading = .phi incoming) : o = .phi incoming := by
  cases o with
  | phi => exact congrArg phi (Reading.phi.inj h)
  | binary op => cases op <;> cases h
  | cast op => cases op <;> cases h
  | _ => cases h

end Operation

/-- A symbol of a system as the search has found it. -/
def LoopSymbol.pending (t : LoopSymbol R) : PendingSymbol R :=
  ⟨t.key, t.value, some t.expr, t.initial⟩

/-- The keys of the symbols that have been found. -/
def keysOf (S : List (PendingSymbol R)) : List Key := S.map PendingSymbol.key

namespace Body

variable {b : Body R} {shape : LoopShape} {S : List (PendingSymbol R)} {i : Instruction R}
  {v : Value R} {k : Key}

/-- After the look-up of a key the symbols `S` have become `S₁`, where
the key has the number `n`. -/
inductive LookedUp (S : List (PendingSymbol R)) (k : Key) (v : Value R) :
    ℕ → List (PendingSymbol R) → Prop
  | known {n : ℕ} {s : PendingSymbol R} (hs : S[n]? = some s) (hk : s.key = k) :
    LookedUp S k v n S
  | new (hk : k ∉ keysOf S) : LookedUp S k v S.length (S ++ [{ key := k, value := v }])

lemma finds_symbol (k : Key) (v : Value R) :
    Collect.Finds S (Collect.symbol k v) (LookedUp S k v) := by
  refine Collect.Finds.bind (P := fun T S' => S = T ∧ S = S') ?_ ?_
  · intro T S' h
    cases h
    exact ⟨rfl, rfl⟩
  · rintro _ _ ⟨rfl, rfl⟩
    split
    · next n hn =>
      obtain ⟨hlt, hkey, -⟩ := List.findIdx?_eq_some_iff_getElem.1 hn
      exact Collect.finds_pure (.known (List.getElem?_eq_getElem hlt) (eq_of_beq hkey))
    · next hn =>
      intro n S' h
      cases h
      refine .new fun hmem => ?_
      obtain ⟨s, hs, rfl⟩ := List.mem_map.1 hmem
      have hne := List.findIdx?_eq_none_iff.1 hn s hs
      rw [beq_self_eq_true] at hne
      cases hne

lemma finds_symbolKey (v : Value R) :
    Collect.Finds S (liftM (b.symbolKey v)) fun k S' => b.keyOf? v = some k ∧ S = S' := by
  refine Collect.finds_lift fun k hk => ?_
  rw [symbolKey] at hk
  split at hk
  · next h =>
    cases hk
    exact ⟨h, rfl⟩
  · cases hk

lemma finds_carried (shape : LoopShape) (i : Instruction R)
    (incoming : List (Value R × BlockId)) :
    Collect.Finds S (liftM (carried shape i incoming)) fun p S' =>
      p.1 = incomingFrom? incoming shape.preheader ∧
        incomingFrom? incoming shape.body = some p.2 ∧ S = S' := by
  refine Collect.finds_lift fun p hp => ?_
  rw [carried] at hp
  split at hp
  · next h =>
    cases hp
    exact ⟨rfl, h, rfl⟩
  · cases hp

/-- Symbols keep their numbers when one of them is completed. -/
lemma keysOf_modify {f : PendingSymbol R → PendingSymbol R} (n : ℕ)
    (hkey : ∀ s, (f s).key = s.key) : keysOf (S.modify n f) = keysOf S := by
  refine List.ext_getElem? fun m => ?_
  rw [keysOf, keysOf, List.getElem?_map, List.getElem?_map, List.getElem?_modify]
  split
  · cases S[m]? with
    | none => rfl
    | some s => exact congrArg some (hkey s)
  · cases S[m]? <;> rfl

/-- What the search has reached, if `P` is wanted of each symbol, given the keys of all of them: the
symbols found before have kept their numbers, and all symbols are as wanted. -/
structure Extends (P : List Key → PendingSymbol R → Prop) (S S' : List (PendingSymbol R)) :
    Prop where
  /-- Symbols are only added at the end. -/
  isPrefix : keysOf S <+: keysOf S'
  /-- No key gets a second symbol. -/
  nodup : (keysOf S).Nodup → (keysOf S').Nodup
  /-- The symbols are as wanted. -/
  all : ∀ s ∈ S', P (keysOf S') s

section Extends

variable {P : List Key → PendingSymbol R → Prop} {S' S'' S₁ : List (PendingSymbol R)} {n : ℕ}

lemma Extends.refl (hS : ∀ s ∈ S, P (keysOf S) s) : Extends P S S :=
  ⟨List.prefix_refl _, id, hS⟩

lemma Extends.trans (h : Extends P S S') (h' : Extends P S' S'') : Extends P S S'' :=
  ⟨h.isPrefix.trans h'.isPrefix, h'.nodup ∘ h.nodup, h'.all⟩

namespace LookedUp

lemma isPrefix (h : LookedUp S k v n S₁) : keysOf S <+: keysOf S₁ := by
  cases h with
  | known => exact List.prefix_refl _
  | new =>
    rw [keysOf, keysOf, List.map_append]
    exact List.prefix_append _ _

lemma nodup (h : LookedUp S k v n S₁) (hS : (keysOf S).Nodup) : (keysOf S₁).Nodup := by
  cases h with
  | known => exact hS
  | new hk =>
    rw [keysOf, List.map_append, List.map_singleton]
    refine List.nodup_append.2 ⟨hS, List.nodup_singleton _, fun k hk' l hl => ?_⟩
    rw [List.mem_singleton.1 hl]
    rintro rfl
    exact hk hk'

lemma getElem?_keysOf (h : LookedUp S k v n S₁) : (keysOf S₁)[n]? = some k := by
  cases h with
  | known hs hk => rw [keysOf, List.getElem?_map, hs, Option.map_some, hk]
  | new => rw [keysOf, List.getElem?_map, List.getElem?_concat_length, Option.map_some]

/-- The symbol of the key may be new; the other ones have been known. -/
lemma eq_or_mem (h : LookedUp S k v n S₁) {m : ℕ} {s : PendingSymbol R} (hs : S₁[m]? = some s) :
    m = n ∧ s = { key := k, value := v } ∨ s ∈ S := by
  cases h with
  | known => exact Or.inr (List.mem_of_getElem? hs)
  | new =>
    rw [List.getElem?_append] at hs
    split at hs
    · exact Or.inr (List.mem_of_getElem? hs)
    · next hlt =>
      rw [List.getElem?_singleton] at hs
      split at hs
      · next hm =>
        cases hs
        exact Or.inl ⟨by omega, rfl⟩
      · cases hs

/-- The symbol that has been looked up is completed. -/
lemma finds_change_extends (h : LookedUp S k v n S₁)
    (hmono : ∀ keys keys' s, keys <+: keys' → P keys s → P keys' s)
    (hS : ∀ s ∈ S, P (keysOf S) s) {f : PendingSymbol R → PendingSymbol R}
    (hkey : ∀ s, (f s).key = s.key)
    (hf : ∀ keys s, keysOf S <+: keys → keys[n]? = some k → s.key = k →
      s = { key := k, value := v } ∨ P keys s → P keys (f s)) :
    Collect.Finds S₁ (Collect.change n f) fun _ S' =>
      Extends P S S' ∧ keysOf S' = keysOf S₁ := by
  have hchange : Collect.Finds S₁ (Collect.change n f) fun _ S' => S' = S₁.modify n f := by
    intro u S' h
    cases h
    rfl
  refine hchange.mono ?_
  rintro - _ rfl
  have hkeys := keysOf_modify (S := S₁) n hkey
  refine ⟨⟨hkeys ▸ h.isPrefix, fun hnodup => hkeys ▸ h.nodup hnodup, fun t ht => ?_⟩, hkeys⟩
  rw [hkeys]
  have hold : ∀ s ∈ S, P (keysOf S₁) s := fun s hs => hmono _ _ s h.isPrefix (hS s hs)
  obtain ⟨m, hm⟩ := List.getElem?_of_mem ht
  rw [List.getElem?_modify] at hm
  obtain ⟨s, hs, rfl⟩ := Option.map_eq_some_iff.1 hm
  split
  · next hnm =>
    subst hnm
    have hsk : s.key = k := by
      have hget := h.getElem?_keysOf
      rw [keysOf, List.getElem?_map, hs] at hget
      exact Option.some.inj hget
    exact hf _ s h.isPrefix h.getElem?_keysOf hsk
      ((h.eq_or_mem hs).imp (fun hnew => hnew.2) fun hmem => hold s hmem)
  · next hnm => exact hold s ((h.eq_or_mem hs).resolve_left fun hnew => hnm hnew.1.symm)

end LookedUp

end Extends

/-- The expression of an instruction whose operands have the expressions that `operand` finds. -/
def readExpr (b : Body R) (shape : LoopShape) (i : Instruction R)
    (operand : Value R → Collect R (Expr R)) : Collect R (Expr R) :=
  match i.op.reading with
  | .arith o x y => do
    let left ← operand x
    let right ← operand y
    return .op o left right
  | .operand x => operand x
  | .phi incoming => b.phiSymbol shape i incoming
  | .unsupported => throw (.unsupportedOperation i.name i.op.name)

variable [Number R]

lemma exprOf_inst {id : InstId} (hi : b.function.inst? id = some i) (store : Store R) (steps : ℕ)
    (format : Option Format) :
    b.exprOf store shape (steps + 1) format (.inst id) =
      if shape.contains i.block then
        b.readExpr shape i (b.exprOf store shape steps (b.constantFormat? store i))
      else b.externalSymbol (.inst id) := by
  cases hop : i.op.reading <;> simp [exprOf, hi, readExpr, hop]

/-! ## What the search keeps -/

/-- The search reads operands in the scope `V` only, `P` holds of each symbol that it finds, given
the keys of all symbols, and `E` of each expression, given the operand that it is read from and the
format of integer constants. -/
structure KeptBySearch (b : Body R) (store : Store R) (shape : LoopShape) (V : Value R → Prop)
    (P : List Key → PendingSymbol R → Prop)
    (E : List Key → Option Format → Value R → Expr R → Prop) : Prop where
  /-- Further symbols make no difference to a symbol. -/
  mono : ∀ keys keys' s, keys <+: keys' → P keys s → P keys' s
  /-- Further symbols make no difference to an expression. -/
  mono_expr : ∀ keys keys' format v e, keys <+: keys' → E keys format v e → E keys' format v e
  /-- Integer constants. -/
  constInt : ∀ keys format raw, E keys format (.constInt raw)
    (.const (match format with | some f => f.interpret raw | none => Number.ofInt raw.toInt))
  /-- Floating-point constants. -/
  constFloat : ∀ keys format x, E keys format (.constFloat x) (.const x)
  /-- A value from outside the loop, whose symbol may be new. -/
  external : ∀ keys n v s, V v →
    (∀ i, b.function.definition? v = some i → ¬ shape.contains i.block) →
    b.keyOf? v = some s.key → keys[n]? = some s.key →
    (s = { key := s.key, value := v } ∨ P keys s) →
      P keys (if s.expr.isNone then { s with expr := some (.symbol n), initial := some v } else s) ∧
        ∀ format, E keys format v (.symbol n)
  /-- A phi of the condition block inside an expression: it stands for the symbol of the value that
  it receives from an iteration. -/
  phi : ∀ keys n id i incoming latch s, V (.inst id) → b.function.inst? id = some i →
    shape.contains i.block → i.block = shape.cond → i.op = .phi incoming →
    incomingFrom? incoming shape.body = some latch →
    b.keyOf? latch = some s.key → keys[n]? = some s.key →
    (s = { key := s.key, value := latch } ∨ P keys s) →
      P keys (if s.initial.isNone then
        { s with initial := incomingFrom? incoming shape.preheader } else s) ∧
        ∀ format, E keys format (.inst id) (.symbol n)
  /-- Arithmetic in the loop. -/
  arith : ∀ id i o u v, V (.inst id) → b.function.inst? id = some i → shape.contains i.block →
    i.op.reading = .arith o u v → V u ∧ V v ∧ ∀ keys format e e',
      E keys (b.constantFormat? store i) u e → E keys (b.constantFormat? store i) v e' →
        E keys format (.inst id) (.op o e e')
  /-- An operation in the loop that stands for its operand. -/
  operand : ∀ id i v, V (.inst id) → b.function.inst? id = some i → shape.contains i.block →
    i.op.reading = .operand v → V v ∧ ∀ keys format e,
      E keys (b.constantFormat? store i) v e → E keys format (.inst id) e
  /-- A phi at the top of the condition block gives the value that it receives from an iteration a
  symbol with an update. -/
  collect : ∀ i incoming latch, i ∈ b.function.phis shape.cond → i.op = .phi incoming →
    incomingFrom? incoming shape.body = some latch → V latch ∧ ∀ keys e s,
      b.keyOf? latch = some s.key → E keys none latch e →
      (s = { key := s.key, value := latch } ∨ P keys s) →
        P keys { s with
          expr := some e.simplify, initial := incomingFrom? incoming shape.preheader }

namespace KeptBySearch

variable {store : Store R} {V : Value R → Prop} {P : List Key → PendingSymbol R → Prop}
  {E : List Key → Option Format → Value R → Expr R → Prop} (hK : b.KeptBySearch store shape V P E)
  (hS : ∀ s ∈ S, P (keysOf S) s)

include hK hS

lemma finds_externalSymbol (hv : V v)
    (hout : ∀ i, b.function.definition? v = some i → ¬ shape.contains i.block)
    (format : Option Format) :
    Collect.Finds S (b.externalSymbol v) fun e S' => Extends P S S' ∧ E (keysOf S') format v e := by
  refine (finds_symbolKey v).bind ?_
  rintro k _ ⟨hk, rfl⟩
  refine (finds_symbol k v).bind fun n S₁ hn => ?_
  refine (hn.finds_change_extends hK.mono hS (fun s => by split <;> rfl) ?_).bind
    fun _ S' h => Collect.finds_pure ⟨h.1, ?_⟩
  · rintro keys s - hat rfl hs
    exact (hK.external keys n v s hv hout hk hat hs).1
  · exact (hK.external _ n v { key := k, value := v } hv hout hk (h.2 ▸ hn.getElem?_keysOf)
      (.inl rfl)).2 format

lemma finds_phiSymbol {id : InstId} {incoming : List (Value R × BlockId)} (hv : V (.inst id))
    (hi : b.function.inst? id = some i) (hblock : shape.contains i.block)
    (hop : i.op = .phi incoming) (format : Option Format) :
    Collect.Finds S (b.phiSymbol shape i incoming) fun e S' =>
      Extends P S S' ∧ E (keysOf S') format (.inst id) e := by
  unfold phiSymbol
  split
  · exact Collect.finds_throw _
  next hcond =>
  refine (finds_carried shape i incoming).bind ?_
  rintro ⟨entry, latch⟩ _ ⟨rfl, hlatch, rfl⟩
  refine (finds_symbolKey latch).bind ?_
  rintro k _ ⟨hk, rfl⟩
  refine (finds_symbol k latch).bind fun n S₁ hn => ?_
  have hphi keys s := hK.phi keys n id i incoming latch s hv hi hblock (not_not.1 hcond) hop hlatch
  refine (hn.finds_change_extends hK.mono hS (fun s => by split <;> rfl) ?_).bind
    fun _ S' h => Collect.finds_pure ⟨h.1, ?_⟩
  · rintro keys s - hat rfl hs
    exact (hphi keys s hk hat hs).1
  · exact (hphi _ { key := k, value := latch } hk (h.2 ▸ hn.getElem?_keysOf) (.inl rfl)).2 format

/-- What is read from an operand in scope is as wanted. -/
lemma finds_exprOf (steps : ℕ) (format : Option Format) (hv : V v) :
    Collect.Finds S (b.exprOf store shape steps format v) fun e S' =>
      Extends P S S' ∧ E (keysOf S') format v e := by
  induction steps generalizing S v format with
  | zero => exact Collect.finds_throw _
  | succ steps ih =>
    cases v with
    | constInt raw => exact Collect.finds_pure ⟨.refl hS, hK.constInt _ _ _⟩
    | constFloat x => exact Collect.finds_pure ⟨.refl hS, hK.constFloat _ _ _⟩
    | function | undef => exact Collect.finds_throw _
    | arg | global => exact hK.finds_externalSymbol hS hv (fun i hi => by cases hi) format
    | inst id =>
      cases hi : b.function.inst? id with
      | none =>
        rw [exprOf, hi]
        exact Collect.finds_throw _
      | some i =>
        rw [exprOf_inst hi]
        split
        · next hblock =>
          rw [readExpr]
          cases hread : i.op.reading with
          | arith o x y =>
            obtain ⟨hx, hy, hop⟩ := hK.arith id i o x y hv hi hblock hread
            refine (ih hS _ hx).bind fun e S₁ h₁ => (ih h₁.1.all _ hy).bind fun e' S₂ h₂ => ?_
            refine Collect.finds_pure ⟨h₁.1.trans h₂.1, hop _ format e e' ?_ h₂.2⟩
            exact hK.mono_expr _ _ _ _ _ h₂.1.isPrefix h₁.2
          | operand x =>
            obtain ⟨hx, hop⟩ := hK.operand id i x hv hi hblock hread
            exact (ih hS _ hx).mono fun e S₁ h₁ => ⟨h₁.1, hop _ format e h₁.2⟩
          | phi incoming =>
            exact hK.finds_phiSymbol hS hv hi hblock (Operation.eq_phi_of_reading hread) format
          | unsupported => exact Collect.finds_throw _
        · next hblock =>
          refine hK.finds_externalSymbol hS hv (fun j hj => ?_) format
          obtain rfl : i = j := Option.some.inj (hi.symm.trans hj)
          exact hblock

/-- A phi is collected: the value that it receives from an iteration has a symbol. -/
lemma finds_collectPhi (hi : i ∈ b.function.phis shape.cond) :
    Collect.Finds S (b.collectPhi store shape i) fun _ S' => Extends P S S' ∧
      ∀ incoming latch k, i.op.incoming? = some incoming →
        incomingFrom? incoming shape.body = some latch → b.keyOf? latch = some k →
          k ∈ keysOf S' := by
  unfold collectPhi
  cases hop : i.op.incoming? with
  | none => exact Collect.finds_throw _
  | some incoming =>
    refine (finds_carried shape i incoming).bind ?_
    rintro ⟨entry, latch⟩ _ ⟨rfl, hlatch, rfl⟩
    obtain ⟨hv, hcollect⟩ :=
      hK.collect i incoming latch hi (Operation.eq_phi_of_incoming? hop) hlatch
    refine (finds_symbolKey latch).bind ?_
    rintro k _ ⟨hk, rfl⟩
    have hmem {S' : List (PendingSymbol R)} (h : k ∈ keysOf S') : ∀ incoming' latch' k',
        some incoming = some incoming' → incomingFrom? incoming' shape.body = some latch' →
          b.keyOf? latch' = some k' → k' ∈ keysOf S' := by
      intro incoming' latch' k' hincoming hlatch' hk'
      obtain rfl : incoming = incoming' := Option.some.inj hincoming
      obtain rfl : latch = latch' := Option.some.inj (hlatch.symm.trans hlatch')
      obtain rfl : k = k' := Option.some.inj (hk.symm.trans hk')
      exact h
    refine Collect.Finds.bind (P := fun T S' => S = T ∧ S = S') ?_ ?_
    · intro T S' h
      cases h
      exact ⟨rfl, rfl⟩
    rintro _ _ ⟨rfl, rfl⟩
    dsimp only
    split
    · next hany =>
      obtain ⟨s, hs, hkey⟩ := List.any_eq_true.1 hany
      refine Collect.finds_pure ⟨.refl hS, hmem ?_⟩
      rw [← eq_of_beq (Bool.and_eq_true_iff.1 hkey).1]
      exact List.mem_map_of_mem hs
    · refine (hK.finds_exprOf hS _ none hv).bind fun e S₁ he => ?_
      refine (finds_symbol k latch).bind fun n S₂ hn => ?_
      refine (hn.finds_change_extends hK.mono he.1.all ?_ ?_).mono fun _ S' h => ?_
      · exact fun _ => rfl
      · rintro keys s hkeys - rfl hs
        exact hcollect keys e s hk (hK.mono_expr _ _ _ _ _ hkeys he.2) hs
      · exact ⟨he.1.trans h.1, hmem (h.2 ▸ List.mem_of_getElem? hn.getElem?_keysOf)⟩

lemma finds_collectPhis {is : List (Instruction R)} (his : is ⊆ b.function.phis shape.cond) :
    Collect.Finds S (is.forM (b.collectPhi store shape)) fun _ S' => Extends P S S' ∧
      ∀ i ∈ is, ∀ incoming latch k, i.op.incoming? = some incoming →
        incomingFrom? incoming shape.body = some latch → b.keyOf? latch = some k →
          k ∈ keysOf S' := by
  induction is generalizing S with
  | nil => exact Collect.finds_pure ⟨.refl hS, fun i hi => absurd hi List.not_mem_nil⟩
  | cons i is ih =>
    refine (hK.finds_collectPhi hS (his List.mem_cons_self)).bind fun _ S₁ h₁ => ?_
    refine (ih h₁.1.all fun j hj => his (List.mem_cons_of_mem _ hj)).mono fun _ S₂ h₂ => ?_
    refine ⟨h₁.1.trans h₂.1, fun j hj incoming latch k hop hlatch hk => ?_⟩
    rcases List.mem_cons.1 hj with rfl | hj
    · exact h₂.1.isPrefix.subset (h₁.2 incoming latch k hop hlatch hk)
    · exact h₂.2 j hj incoming latch k hop hlatch hk

end KeptBySearch

/-! ## The system -/

/-- A finished symbol is the one that has been found. -/
lemma finishSymbol_eq_ok {n : ℕ} {s : PendingSymbol R} {t : LoopSymbol R}
    (h : b.finishSymbol n s = .ok t) : t.pending = s := by
  rw [finishSymbol] at h
  split at h
  · next e he =>
    cases h
    rw [LoopSymbol.pending, ← he]
  · cases h

/-- The symbols of a system are those that have been found. -/
lemma map_pending_system {system : LoopSystem R}
    (h : S.zipIdx.mapM (fun p => b.finishSymbol p.2 p.1) = .ok system) :
    system.map LoopSymbol.pending = S := by
  have hpairs : List.Forall₂ (· = ·) (S.zipIdx.map Prod.fst) (system.map LoopSymbol.pending) := by
    rw [List.forall₂_map_left_iff, List.forall₂_map_right_iff]
    exact (forall₂_of_mapM h).imp fun p t h => (finishSymbol_eq_ok h).symm
  rw [List.forall₂_eq_eq_eq] at hpairs
  rw [← hpairs, List.zipIdx_map_fst]

/-- What is known of a system if `P` is kept by the search. -/
structure SystemKeeps (b : Body R) (shape : LoopShape) (P : List Key → PendingSymbol R → Prop)
    (system : LoopSystem R) : Prop where
  /-- No two symbols have the same key. -/
  nodup : (system.map LoopSymbol.key).Nodup
  /-- The symbols are as wanted. -/
  all : ∀ t ∈ system, P (system.map LoopSymbol.key) t.pending
  /-- What the phis of the condition block receive from an iteration has symbols. -/
  latch_mem : ∀ i ∈ b.function.phis shape.cond, ∀ incoming latch k,
    i.op.incoming? = some incoming → incomingFrom? incoming shape.body = some latch →
      b.keyOf? latch = some k → k ∈ system.map LoopSymbol.key

/-- **What the search keeps holds of the system of a loop.** -/
theorem KeptBySearch.loopSystem {store : Store R} {V : Value R → Prop}
    {P : List Key → PendingSymbol R → Prop}
    {E : List Key → Option Format → Value R → Expr R → Prop}
    (hK : b.KeptBySearch store shape V P E) {system : LoopSystem R}
    (h : b.loopSystem store shape = .ok system) : b.SystemKeeps shape P system := by
  rw [Body.loopSystem] at h
  cases hrun : ((b.function.phis shape.cond).forM (b.collectPhi store shape)).run [] with
  | error o =>
    rw [hrun] at h
    cases h
  | ok r =>
    obtain ⟨u, S⟩ := r
    rw [hrun] at h
    obtain ⟨hS, hmem⟩ := hK.finds_collectPhis (fun s hs => absurd hs List.not_mem_nil)
      (List.Subset.refl _) u S hrun
    have hsystem := map_pending_system h
    have hkeys : system.map LoopSymbol.key = keysOf S := by
      rw [keysOf, ← hsystem, List.map_map]
      rfl
    refine ⟨hkeys ▸ hS.nodup List.nodup_nil, fun t ht => ?_, hkeys ▸ hmem⟩
    rw [hkeys]
    exact hS.all _ (hsystem ▸ List.mem_map_of_mem ht)

/-! ## Symbols that are well formed -/

omit [Number R] in
lemma keyOf?_inj {v v' : Value R} (hv : b.keyOf? v = some k) (hv' : b.keyOf? v' = some k) :
    v = v' := by
  cases v <;> cases hv <;> cases v' <;> cases hv' <;> rfl

/-- A symbol has the key of its value, and an update only if the value is one that the search can
read, or comes from outside the loop. -/
structure Formed (b : Body R) (shape : LoopShape) (s : PendingSymbol R) : Prop where
  /-- The key is that of the value. -/
  keyOf?_value : b.keyOf? s.value = some s.key
  /-- An instruction of the loop that has an update can be read. -/
  reading_ne : s.expr.isSome → ∀ i, b.function.definition? s.value = some i →
    shape.contains i.block → i.op.reading ≠ .unsupported

omit [Number R] in
/-- The symbol of a value that is looked up is well formed. -/
lemma Formed.of_lookedUp {s : PendingSymbol R} (hv : b.keyOf? v = some s.key)
    (hs : s = { key := s.key, value := v } ∨ b.Formed shape s) :
    b.Formed shape s ∧ s.value = v := by
  have hformed : b.Formed shape s := by
    rcases hs with h | h
    · rw [h]
      exact ⟨hv, nofun⟩
    · exact h
  exact ⟨hformed, keyOf?_inj hformed.keyOf?_value hv⟩

/-- The search reads no instruction of the loop that has no counterpart. -/
lemma keptBySearch_formed (b : Body R) (store : Store R) (shape : LoopShape) :
    b.KeptBySearch store shape (fun _ => True) (fun _ => b.Formed shape) fun _ _ v _ =>
      ∀ i, b.function.definition? v = some i → shape.contains i.block →
        i.op.reading ≠ .unsupported where
  mono _ _ _ _ h := h
  mono_expr _ _ _ _ _ _ h := h
  constInt _ _ _ i hi := by cases hi
  constFloat _ _ _ i hi := by cases hi
  external keys n v s _ hout hk _ hs := by
    obtain ⟨hs, hvalue⟩ := Formed.of_lookedUp hk hs
    refine ⟨?_, fun _ i hi hblock => absurd hblock (hout i hi)⟩
    split
    · exact ⟨hs.keyOf?_value, fun _ i hi hblock => absurd hblock (hout i (hvalue ▸ hi))⟩
    · exact hs
  phi keys n id i incoming latch s _ hi _ _ hop _ hk _ hs := by
    obtain ⟨hs, -⟩ := Formed.of_lookedUp hk hs
    refine ⟨?_, fun _ j hj _ => ?_⟩
    · split
      · exact ⟨hs.keyOf?_value, hs.reading_ne⟩
      · exact hs
    · obtain rfl : i = j := Option.some.inj (hi.symm.trans hj)
      rw [hop]
      exact nofun
  arith id i o u v _ hi _ hread := by
    refine ⟨trivial, trivial, fun _ _ _ _ _ _ j hj _ => ?_⟩
    obtain rfl : i = j := Option.some.inj (hi.symm.trans hj)
    rw [hread]
    exact nofun
  operand id i v _ hi _ hread := by
    refine ⟨trivial, fun _ _ _ _ j hj _ => ?_⟩
    obtain rfl : i = j := Option.some.inj (hi.symm.trans hj)
    rw [hread]
    exact nofun
  collect i incoming latch _ _ _ := by
    refine ⟨trivial, fun keys e s hk he hs => ?_⟩
    obtain ⟨hs, hvalue⟩ := Formed.of_lookedUp hk hs
    exact ⟨hs.keyOf?_value, fun _ => hvalue ▸ he⟩

variable {store : Store R} {system : LoopSystem R}

/-- **The symbols of a loop** have the keys of their values, and those that the loop computes can be
read. -/
theorem formed_of_mem_loopSystem (h : b.loopSystem store shape = .ok system) :
    ∀ t ∈ system, b.keyOf? t.value = some t.key ∧ ∀ i, b.function.definition? t.value = some i →
      shape.contains i.block → i.op.reading ≠ .unsupported := by
  intro t ht
  have hformed := ((keptBySearch_formed b store shape).loopSystem h).all t ht
  exact ⟨hformed.keyOf?_value, hformed.reading_ne rfl⟩

lemma keyOf?_of_mem_loopSystem (h : b.loopSystem store shape = .ok system) :
    ∀ t ∈ system, b.keyOf? t.value = some t.key :=
  fun t ht => (formed_of_mem_loopSystem h t ht).1

/-- **No two symbols of a loop have the same key.** -/
theorem nodup_keys_loopSystem (h : b.loopSystem store shape = .ok system) :
    (system.map LoopSymbol.key).Nodup :=
  ((keptBySearch_formed b store shape).loopSystem h).nodup

end Body

end Roundoff
