/-
# Computations that draw symbols

A computation takes symbols from the supply one after the other, and so leaves off at a symbol that
is no smaller than the one from which it starts.  `Fresh.EnsuresFrom` says this and what the result
is like if the computation starts from a given symbol, and `Fresh.Ensures` if it starts anywhere.
The same is said of computations that may lack data or meet an obstacle, for the case that they do
not.  `Fresh.Attains` also knows the symbol at which the computation leaves off.
-/
import Mathlib
import Roundoff.Transfer.Operand

namespace Roundoff

variable {α β ε : Type} {n : Symbol} {P : α → Prop} {Q : β → Prop}

/-! ## From a given symbol on -/

/-- From the symbol `n` on, the computation only takes symbols from the supply, and its result is as
wanted. -/
def Fresh.EnsuresFrom (n : Symbol) (m : Fresh α) (P : α → Prop) : Prop := n ≤ (m n).2 ∧ P (m n).1

namespace Fresh

lemma ensuresFrom_pure {a : α} (h : P a) : EnsuresFrom n (pure a) P := ⟨le_rfl, h⟩

lemma EnsuresFrom.bind {m : Fresh α} {f : α → Fresh β} (hm : EnsuresFrom n m P)
    (hf : ∀ a n', n ≤ n' → P a → EnsuresFrom n' (f a) Q) : EnsuresFrom n (m >>= f) Q := by
  obtain ⟨hle, hP⟩ := hm
  obtain ⟨hle', hQ⟩ := hf _ _ hle hP
  exact ⟨hle.trans hle', hQ⟩

lemma EnsuresFrom.mono {P' : α → Prop} {m : Fresh α} (hm : EnsuresFrom n m P)
    (h : ∀ a, P a → P' a) :
    EnsuresFrom n m P' :=
  ⟨hm.1, h _ hm.2⟩

end Fresh

/-- The same for a computation that may lack data: if it has them, its result is as wanted. -/
def Attempt.EnsuresFrom (n : Symbol) (m : Attempt α) (P : α → Prop) : Prop :=
  Fresh.EnsuresFrom n m.run fun o => ∀ a, o = some a → P a

namespace Attempt

lemma EnsuresFrom.bind {m : Attempt α} {f : α → Attempt β} (hm : EnsuresFrom n m P)
    (hf : ∀ a n', n ≤ n' → P a → EnsuresFrom n' (f a) Q) : EnsuresFrom n (m >>= f) Q := by
  rw [Attempt.EnsuresFrom, OptionT.run_bind, Option.elimM]
  refine Fresh.EnsuresFrom.bind hm fun o n' hn ho => ?_
  cases o with
  | none => exact Fresh.ensuresFrom_pure nofun
  | some a => exact hf a n' hn (ho a rfl)

lemma ensuresFrom_lift {m : Fresh α} (hm : Fresh.EnsuresFrom n m P) :
    EnsuresFrom n (OptionT.lift m) P :=
  hm.bind fun a _ _ ha => Fresh.ensuresFrom_pure fun b hb => by
    cases hb
    exact ha

end Attempt

/-- The same for a computation that may meet an obstacle: if it meets
none, its result is as wanted. -/
def ExceptT.EnsuresFrom (n : Symbol) (m : ExceptT ε Fresh α) (P : α → Prop) : Prop :=
  Fresh.EnsuresFrom n m.run fun r => ∀ a, r = .ok a → P a

/-! ## From any symbol on -/

/-- From any symbol on, the computation only takes symbols from the supply, and its result is as
wanted. -/
def Fresh.Ensures (m : Fresh α) (P : α → Prop) : Prop := ∀ n, EnsuresFrom n m P

namespace Fresh

lemma Ensures.from {m : Fresh α} (hm : m.Ensures P) (n : Symbol) : EnsuresFrom n m P := hm n

lemma ensures_pure {a : α} (h : P a) : Ensures (pure a) P := fun _ => ensuresFrom_pure h

lemma Ensures.bind {m : Fresh α} {f : α → Fresh β} (hm : m.Ensures P)
    (hf : ∀ a, P a → (f a).Ensures Q) : (m >>= f).Ensures Q :=
  fun n => (hm n).bind fun a n' _ ha => hf a ha n'

lemma Ensures.mono {P' : α → Prop} {m : Fresh α} (hm : m.Ensures P) (h : ∀ a, P a → P' a) :
    m.Ensures P' :=
  fun n => (hm n).mono h

/-- What follows a computation whose result does not matter. -/
lemma Ensures.andThen {m : Fresh α} {f : α → Fresh β} (hm : m.Ensures fun _ => True)
    (hf : ∀ a, (f a).Ensures Q) : (m >>= f).Ensures Q :=
  hm.bind fun a _ => hf a

/-- What every step of a loop keeps, the loop keeps. -/
lemma ensures_foldlM {f : β → α → Fresh β} {as : List α}
    (hf : ∀ b, ∀ a ∈ as, Q b → (f b a).Ensures Q) {b : β} (hb : Q b) :
    (as.foldlM f b).Ensures Q := by
  induction as generalizing b with
  | nil => exact ensures_pure hb
  | cons a as ih =>
    rw [List.foldlM_cons]
    exact (hf b a List.mem_cons_self hb).bind fun b' hb' =>
      ih (fun b'' a' ha' => hf b'' a' (List.mem_cons_of_mem _ ha')) hb'

end Fresh

/-- The same for a computation that may lack data: if it has them, its result is as wanted. -/
def Attempt.Ensures (m : Attempt α) (P : α → Prop) : Prop :=
  Fresh.Ensures m.run fun o => ∀ a, o = some a → P a

namespace Attempt

lemma Ensures.from {m : Attempt α} (hm : m.Ensures P) (n : Symbol) : EnsuresFrom n m P := hm n

lemma ensures_pure {a : α} (h : P a) : Ensures (pure a) P :=
  Fresh.ensures_pure fun b hb => by
    cases hb
    exact h

lemma ensures_failure : Ensures (failure : Attempt α) P := Fresh.ensures_pure nofun

lemma ensures_lift {m : Fresh α} (hm : m.Ensures P) : Ensures (OptionT.lift m) P :=
  fun n => ensuresFrom_lift (hm n)

lemma ensures_mk {m : Fresh (Option α)} (hm : m.Ensures fun _ => True) :
    Ensures (OptionT.mk m) fun _ => True :=
  hm.mono fun _ _ _ _ => trivial

lemma Ensures.bind {m : Attempt α} {f : α → Attempt β} (hm : m.Ensures P)
    (hf : ∀ a, P a → (f a).Ensures Q) : (m >>= f).Ensures Q :=
  fun n => EnsuresFrom.bind (hm n) fun a n' _ ha => hf a ha n'

lemma Ensures.mono {P' : α → Prop} {m : Attempt α} (hm : m.Ensures P) (h : ∀ a, P a → P' a) :
    m.Ensures P' :=
  Fresh.Ensures.mono hm fun _ ho a ha => h a (ho a ha)

lemma Ensures.andThen {m : Attempt α} {f : α → Attempt β} (hm : m.Ensures fun _ => True)
    (hf : ∀ a, (f a).Ensures Q) : (m >>= f).Ensures Q :=
  hm.bind fun a _ => hf a

lemma ensures_orElse {x y : Attempt α} (hx : x.Ensures P) (hy : y.Ensures P) :
    (x <|> y).Ensures P := by
  rw [Attempt.Ensures, OptionT.run_orElse, Option.elimM]
  refine Fresh.Ensures.bind hx fun o ho => ?_
  cases o with
  | none => exact hy
  | some a => exact Fresh.ensures_pure ho

lemma ensures_both {x : Attempt α} {y : Attempt β} (hx : x.Ensures fun _ => True)
    (hy : y.Ensures fun _ => True) : (both x y).Ensures fun _ => True := by
  refine Fresh.Ensures.bind hx fun o _ => Fresh.Ensures.bind hy fun p _ => ?_
  exact Fresh.ensures_pure fun _ _ => trivial

end Attempt

/-! ## What is left in supply -/

section Attains

variable {P : α → Symbol → Prop} {Q : β → Symbol → Prop}

/-- From the symbol `n` on, the computation only takes symbols from the supply, and its result and
the first symbol that is left are as wanted. -/
def Fresh.Attains (n : Symbol) (m : Fresh α) (P : α → Symbol → Prop) : Prop :=
  n ≤ (m n).2 ∧ P (m n).1 (m n).2

namespace Fresh

lemma attains_pure {a : α} (h : P a n) : Attains n (pure a) P := ⟨le_rfl, h⟩

lemma Attains.bind {m : Fresh α} {f : α → Fresh β} (hm : Attains n m P)
    (hf : ∀ a n', n ≤ n' → P a n' → Attains n' (f a) Q) : Attains n (m >>= f) Q := by
  obtain ⟨hle, hP⟩ := hm
  obtain ⟨hle', hQ⟩ := hf _ _ hle hP
  exact ⟨hle.trans hle', hQ⟩

lemma Attains.mono {P' : α → Symbol → Prop} {m : Fresh α} (hm : Attains n m P)
    (h : ∀ a n', n ≤ n' → P a n' → P' a n') : Attains n m P' :=
  ⟨hm.1, h _ _ hm.1 hm.2⟩

/-- What is wanted only under a condition may be shown under the condition. -/
lemma Ensures.attains {m : Fresh α} (hm : m.Ensures fun _ => True) {p : Prop}
    (h : p → Attains n m P) : Attains n m fun a n' => p → P a n' :=
  ⟨(hm n).1, fun hp => (h hp).2⟩

/-- What a computation ensures whatever symbols it takes. -/
lemma EnsuresFrom.attains {m : Fresh α} {P : α → Prop} (hm : EnsuresFrom n m P) :
    Attains n m fun a _ => P a := hm

/-- What every step of a loop keeps, the loop keeps. -/
lemma attains_foldlM {f : β → α → Fresh β} {as : List α}
    (hf : ∀ b n', n ≤ n' → ∀ a ∈ as, Q b n' → Attains n' (f b a) Q) {b : β} (hb : Q b n) :
    Attains n (as.foldlM f b) Q := by
  induction as generalizing b n with
  | nil => exact attains_pure hb
  | cons a as ih =>
    rw [List.foldlM_cons]
    exact (hf b n le_rfl a List.mem_cons_self hb).bind fun b' n' hn hb' =>
      ih (fun b'' n'' hn' a' ha' => hf b'' n'' (hn.trans hn') a' (List.mem_cons_of_mem _ ha')) hb'

end Fresh

/-- The same for a computation that may lack data: if it has them, its result is as wanted. -/
def Attempt.Attains (n : Symbol) (m : Attempt α) (P : α → Symbol → Prop) : Prop :=
  Fresh.Attains n m.run fun o n' => ∀ a, o = some a → P a n'

namespace Attempt

lemma attains_pure {a : α} (h : P a n) : Attains n (pure a) P :=
  Fresh.attains_pure fun b hb => by
    cases hb
    exact h

lemma attains_failure : Attains n (failure : Attempt α) P := Fresh.attains_pure nofun

lemma Attains.bind {m : Attempt α} {f : α → Attempt β} (hm : Attains n m P)
    (hf : ∀ a n', n ≤ n' → P a n' → Attains n' (f a) Q) : Attains n (m >>= f) Q := by
  rw [Attempt.Attains, OptionT.run_bind, Option.elimM]
  refine Fresh.Attains.bind hm fun o n' hn ho => ?_
  cases o with
  | none => exact Fresh.attains_pure nofun
  | some a => exact hf a n' hn (ho a rfl)

lemma attains_lift {m : Fresh α} (hm : Fresh.Attains n m P) : Attains n (OptionT.lift m) P :=
  hm.bind fun a _ _ ha => Fresh.attains_pure fun b hb => by
    cases hb
    exact ha

/-- What is wanted only under a condition may be shown under the condition. -/
lemma Ensures.attains {m : Attempt α} (hm : m.Ensures fun _ => True) {p : Prop}
    (h : p → Attains n m P) : Attains n m fun a n' => p → P a n' :=
  ⟨(hm n).1, fun a ha hp => (h hp).2 a ha⟩

/-- What a computation ensures whatever symbols it takes. -/
lemma EnsuresFrom.attains {m : Attempt α} {P : α → Prop} (hm : EnsuresFrom n m P) :
    Attains n m fun a _ => P a := hm

lemma Attains.ensuresFrom {m : Attempt α} {P : α → Prop} (hm : Attains n m fun a _ => P a) :
    EnsuresFrom n m P := hm

lemma attains_orElse {x y : Attempt α} (hx : Attains n x P)
    (hy : ∀ n', n ≤ n' → Attains n' y P) : Attains n (x <|> y) P := by
  rw [Attempt.Attains, OptionT.run_orElse, Option.elimM]
  refine Fresh.Attains.bind hx fun o n' hn ho => ?_
  cases o with
  | none => exact hy n' hn
  | some a => exact Fresh.attains_pure ho

end Attempt

/-- The same for a computation that may meet an obstacle: if it meets none, its result is as
wanted. -/
def ExceptT.Attains (n : Symbol) (m : ExceptT ε Fresh α) (P : α → Symbol → Prop) : Prop :=
  Fresh.Attains n m.run fun r n' => ∀ a, r = .ok a → P a n'

namespace ExceptT

lemma attains_pure {a : α} (h : P a n) : Attains n (pure a : ExceptT ε Fresh α) P :=
  Fresh.attains_pure fun b hb => by
    cases hb
    exact h

lemma attains_throw {e : ε} : Attains n (throw e : ExceptT ε Fresh α) P := Fresh.attains_pure nofun

lemma attains_lift {m : Fresh α} (hm : Fresh.Attains n m P) :
    Attains n (ExceptT.lift m : ExceptT ε Fresh α) P :=
  Fresh.Attains.bind (Q := fun (r : Except ε α) n' => ∀ a, r = .ok a → P a n') hm
    fun a n' _ ha => Fresh.attains_pure fun b hb => by
      cases hb
      exact ha

lemma Attains.bind {m : ExceptT ε Fresh α} {f : α → ExceptT ε Fresh β} (hm : Attains n m P)
    (hf : ∀ a n', n ≤ n' → P a n' → Attains n' (f a) Q) : Attains n (m >>= f) Q := by
  change Fresh.Attains n (m.run >>= ExceptT.bindCont f) _
  refine Fresh.Attains.bind hm fun r n' hn hr => ?_
  cases r with
  | ok a => exact hf a n' hn (hr a rfl)
  | error e => exact Fresh.attains_pure nofun

lemma Attains.mono {P' : α → Symbol → Prop} {m : ExceptT ε Fresh α} (hm : Attains n m P)
    (h : ∀ a n', P a n' → P' a n') : Attains n m P' :=
  Fresh.Attains.mono hm fun _ n' _ hr a ha => h a n' (hr a ha)

lemma Attains.ensuresFrom {m : ExceptT ε Fresh α} {P : α → Prop} (hm : Attains n m fun a _ => P a) :
    EnsuresFrom n m P := hm

/-- Nothing is drawn for what is known beforehand. -/
lemma attains_ofExcept {r : Except ε α} :
    Attains n (MonadExcept.ofExcept r : ExceptT ε Fresh α) fun a n' => r = .ok a ∧ n' = n := by
  cases r with
  | ok a => exact attains_pure ⟨rfl, rfl⟩
  | error e => exact attains_throw

end ExceptT

end Attains

/-- Another name for the obstacle does not matter if there is none. -/
lemma eq_ok_of_mapError_eq_ok {ε' : Type} {x : Except ε α} {f : ε → ε'} {a : α}
    (h : x.mapError f = .ok a) : x = .ok a := by
  cases x with
  | error e => cases h
  | ok a' =>
    cases h
    rfl

end Roundoff
