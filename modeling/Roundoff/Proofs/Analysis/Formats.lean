/-
# Formats in the course of an analysis

The ranges that are recorded when a module is analysed have the formats of its annotations, or none,
and so have the results of divisions.  A constant dividend is read with twice as many fractional
bits as the result has.  These are counted modulo `2 ^ 32`, so they are twice as many if and only if
the result has less than `2 ^ 31` of them.  If all annotated formats have less, then no division of
an analysis miscounts; but annotations may ask for more, and then one does.
-/
import Mathlib
import Roundoff.Proofs.Analysis.Activations
import Roundoff.Proofs.Analysis.Stack
import Roundoff.Proofs.Transfer.Formats

namespace Roundoff

variable {R σ : Type} [Number R] {m : Module R} {settings : Settings}

/-! ## The formats of a module -/

namespace Module

/-- An annotation occurs in a module. -/
inductive HasInfo (m : Module R) : ValueInfo R → Prop
  /-- A formal parameter. -/
  | param {f : Function R} {p : Param R} {v : ValueInfo R} (hf : f ∈ m.functions)
    (hp : p ∈ f.params) (hv : p.info = some v) : HasInfo m v
  /-- The result of an instruction. -/
  | inst {f : Function R} {i : Instruction R} {v : ValueInfo R} (hf : f ∈ m.functions)
    (hi : i ∈ f.insts) (hv : i.info = some v) : HasInfo m v
  /-- A global variable. -/
  | global {g : Global R} {v : ValueInfo R} (hg : g ∈ m.globals) (hv : g.info = some v) :
    HasInfo m v

/-- The formats of the annotations of a module, and the one that stands for no representation. -/
def formats (m : Module R) : Set Format :=
  insert Format.none {format | ∃ v, m.HasInfo v ∧ ∃ si, v.Mentions si ∧ si.format = format}

omit [Number R] in
lemma none_mem_formats (m : Module R) : Format.none ∈ m.formats := Set.mem_insert _ _

omit [Number R] in
lemma HasInfo.format_mem {v : ValueInfo R} (hv : m.HasInfo v) {si : ScalarInfo R}
    (hsi : v.Mentions si) : si.format ∈ m.formats := .inr ⟨v, hv, si, hsi, rfl⟩

omit [Number R] in
lemma annotatesIn_formats {f : Function R} (hf : f ∈ m.functions) : f.AnnotatesIn m.formats where
  params _ hp _ hv _ hsi := (HasInfo.param hf hp hv).format_mem hsi
  insts _ hi _ hv _ hsi := (HasInfo.inst hf hi hv).format_mem hsi

end Module

/-! ## Activations -/

namespace Plan

variable {h : CallHandler R (Findings R)} {f : Function R} {x : Start R} {xs : List (Start R)}
  {c : Call R (Findings R)} {s : Session R} {n : Symbol}

/-- The moment from which an activation runs through its schedule. -/
def outset (p : Plan R) (x : Start R) : Moment R (Findings R) :=
  ⟨x.state, (p.prepared x.function x.findings).2, x.supply⟩

/-- A run through the body of a function of the module keeps to its formats. -/
lemma keepsTo_of_passes {h : CallHandler R σ} {W : σ → Prop} (hf : f ∈ m.functions)
    (hh : h.KeepsTo m m.formats W) {y z : Moment R σ} (hy : y.state.store.KeepsTo m.formats)
    (hw : W y.world) (hz : ((Plan.of m settings).body f).Passes h y z) :
    z.state.store.KeepsTo m.formats ∧ W z.world := by
  obtain ⟨f', hf', hbody⟩ := exists_body_eq hf settings
  rw [hbody] at hz
  exact hz.keepsTo m.none_mem_formats (Module.annotatesIn_formats hf') hh hy hw

lemma outcome_keepsTo (settings : Settings) (hh : h.KeepsTo m m.formats fun _ => True)
    (hx : x.function ∈ m.functions) (hs : x.state.store.KeepsTo m.formats) :
    ((Plan.of m settings).outcome h x).1.state.store.KeepsTo m.formats := by
  rw [outcome, run_eq]
  exact (keepsTo_of_passes (y := (Plan.of m settings).outset x) hx hh hs trivial
    (Body.Passes.start.runSchedule _)).1

/-- The activation for a call begins with the formats of the caller and of the annotations. -/
lemma begin_keepsTo (settings : Settings) (hcallee : c.callee ∈ m.functions)
    (hs : c.store.KeepsTo m.formats) :
    ((Plan.of m settings).begin c).state.store.KeepsTo m.formats := by
  have hbegin := Store.All.attains_atCall (n := c.supply) Estimate.lasts_format
    (fun _ => Estimate.isPartwise_format m.none_mem_formats) hs m c.caller
    (fun p hp v hv si hsi => ScalarInfo.attains_format m.none_mem_formats
      ((Module.HasInfo.param hcallee hp hv).format_mem hsi)) c.args
  exact hbegin.2

/-- **The answers to calls keep to the formats.** -/
theorem follow_keepsTo (m : Module R) (settings : Settings) (depth : ℕ) :
    ((Plan.of m settings).follow depth).KeepsTo m m.formats fun _ => True := by
  -- the calls of an activation are followed to a smaller depth
  induction depth with
  | zero => exact fun c _ hs _ => ⟨hs, trivial⟩
  | succ depth ih =>
    intro c hcallee hs _
    refine ⟨?_, trivial⟩
    rw [answer_follow_succ, respond]
    split
    · have hend := outcome_keepsTo settings ih hcallee (begin_keepsTo settings hcallee hs)
      rw [conclude, merged]
      split
      · exact hs
      · refine hs.afterCall (Estimate.isPartwise_format m.none_mem_formats) ?_ _ _ _ _
        exact hend.withObjects hend.objects
    · exact hs

/-- So do the calls of an activation. -/
lemma calls_keepsTo (m : Module R) (settings : Settings) :
    (Plan.of m settings).calls.KeepsTo m m.formats fun _ => True :=
  follow_keepsTo m settings (Plan.of m settings).depth

/-- The calls that come up in an activation are made with stores that keep to the formats. -/
lemma call_keepsTo (hx : x.function ∈ m.functions) (hs : x.state.store.KeepsTo m.formats)
    (hc : c ∈ (Plan.of m settings).callsOf x) :
    c.callee ∈ m.functions ∧ c.store.KeepsTo m.formats := by
  let y : Moment R (Findings R × List (Call R (Findings R))) :=
    ⟨x.state, (((Plan.of m settings).outset x).world, []), x.supply⟩
  have hrun : ((Plan.of m settings).body x.function).Passes (Plan.of m settings).calls.logged y _ :=
    Body.Passes.start.runSchedule ((Plan.of m settings).prepared x.function x.findings).1
  exact (keepsTo_of_passes hx (calls_keepsTo m settings).logged hs (by simp [y]) hrun).2 c hc

/-! ## Sessions -/

lemma beginEntry_keepsTo (settings : Settings) (n : Symbol) (hf : f ∈ m.functions)
    (hs : s.globals.KeepsTo m.formats) :
    ((Plan.of m settings).beginEntry s f n).state.store.KeepsTo m.formats := by
  have hbegin := Store.All.attains_seedArguments (n := n) Estimate.lasts_format hs m
    (fun p hp v hv si hsi => ScalarInfo.attains_format m.none_mem_formats
      ((Module.HasInfo.param hf hp hv).format_mem hsi))
  exact hbegin.2

/-- Between the analyses of functions, what is known of global variables keeps to the formats. -/
lemma Between.keepsTo (hs : (Plan.of m settings).Between s n) : s.globals.KeepsTo m.formats := by
  induction hs with
  | start n =>
    have hglobals := Store.All.attains_seedGlobals (n := n) Estimate.lasts_format
      (Store.all_forModule (P := fun e => e.range.format ∈ m.formats) m)
      fun g hg v hv si hsi => ScalarInfo.attains_format m.none_mem_formats
        ((Module.HasInfo.global hg hv).format_mem hsi)
    exact hglobals.2
  | @next s n _ id ih =>
    rw [analyse]
    cases hf : (Plan.of m settings).module.function? id with
    | none => exact ih
    | some f =>
      dsimp only
      split
      · exact ih
      · have hmem : f ∈ m.functions := mem_functions_of_function? hf
        have hend := outcome_keepsTo settings (calls_keepsTo m settings) hmem
          (beginEntry_keepsTo settings n hmem ih)
        rw [analyseFunction_eq]
        dsimp only
        split
        · exact ih
        · exact (ih.mergeGlobals hend).mergeTargets _

/-- An activation begins with the formats of the module. -/
lemma IsStack.keepsTo (hx : (Plan.of m settings).IsStack x xs) :
    x.function ∈ m.functions ∧ x.state.store.KeepsTo m.formats := by
  induction hx with
  | entry hs hf _ =>
    have hmem := mem_functions_of_function? hf
    exact ⟨hmem, beginEntry_keepsTo settings _ hmem hs.keepsTo⟩
  | call _ hc _ ih =>
    obtain ⟨hcallee, hstore⟩ := call_keepsTo ih.1 ih.2 hc
    exact ⟨hcallee, begin_keepsTo settings hcallee hstore⟩

/-- Rules are applied in the state `a` in the course of the activation `x`. -/
inductive AppliesIn (p : Plan R) (x : Start R) : Activation R → Prop
  /-- The activation passes through the state. -/
  | passes {y : Moment R (Findings R)} (hy : (p.body x.function).Passes p.calls (p.outset x) y) :
    AppliesIn p x y.state
  /-- In a copy with zero errors the rounding errors of a loop are found. -/
  | zeroed {y : Moment R (Findings R)} {z : Moment R Unit}
    (hy : (p.body x.function).Passes p.calls (p.outset x) y)
    (hz : (p.body x.function).Passes CallHandler.none
      ⟨{ store := y.state.store.zeroed }, (), y.supply⟩ z) : AppliesIn p x z.state

/-- **Wherever rules are applied, the recorded formats are those of the module.** -/
theorem AppliesIn.keepsTo {a : Activation R} (hx : (Plan.of m settings).IsStack x xs)
    (ha : (Plan.of m settings).AppliesIn x a) : a.store.KeepsTo m.formats := by
  obtain ⟨hmem, hstart⟩ := hx.keepsTo
  have hpasses {y : Moment R (Findings R)} (hy : ((Plan.of m settings).body x.function).Passes
      (Plan.of m settings).calls ((Plan.of m settings).outset x) y) :
      y.state.store.KeepsTo m.formats :=
    (keepsTo_of_passes hmem (calls_keepsTo m settings) hstart trivial hy).1
  cases ha with
  | passes hy => exact hpasses hy
  | zeroed hy hz =>
    have hzeroed := (hpasses hy).zeroed (Estimate.isPartwise_format m.none_mem_formats)
    exact (keepsTo_of_passes hmem .none hzeroed trivial hz).1

end Plan

/-! ## Constant dividends -/

namespace Body

variable {b : Body R} {a : Activation R} {i : Instruction R} {f g : Format} {F : Set Format}

/-- The range of an annotated result has the annotated format. -/
lemma format_annotatedStore {info : ScalarInfo R} (hinfo : i.scalarInfo? = some info)
    (s : Store R) :
    (b.resultRange? (b.annotatedStore s i) i).map Range.format = some info.format := by
  rw [annotatedStore, hinfo, resultRange?, Store.range?, Store.get?_setRange, if_pos rfl]
  exact congrArg some info.format_rangeOrZero

/-- The rule for divisions is applied to the instruction `i` in the state `a`.  The dividend is a
constant, which is read in the format `g`, and `f` is the format of the result. -/
structure ReadsDividend (b : Body R) (a : Activation R) (i : Instruction R) (f g : Format) :
    Prop where
  /-- The result is not settled by a closed form. -/
  pinned : a.pinned.contains i.id = false
  /-- The error of the result is not given by an annotation. -/
  given : i.isGiven = false
  /-- The range recorded for the result says in which format the constant is read. -/
  read : ∃ op raw rhs, i.op = .binary op (.constInt raw) rhs ∧ (op = .sdiv ∨ op = .udiv) ∧
    (b.resultRange? (b.annotatedStore a.store i) i).map Range.format = some f ∧
    op.firstFormat (.constInt raw : Value R) (some f) = some g

namespace ReadsDividend

variable (h : b.ReadsDividend a i f g)

include h

/-- The number of fractional bits is doubled. -/
lemma fracBits_eq : g.fracBits = f.fracBits * 2 := by
  obtain ⟨op, raw, rhs, -, rfl | rfl, -, hformat⟩ := h.read
  · exact congrArg Format.fracBits (Option.some.inj hformat).symm
  · exact congrArg Format.fracBits (Option.some.inj hformat).symm

/-- The double is counted modulo `2 ^ 32`. -/
theorem toNat_fracBits : g.fracBits.toNat = 2 * f.fracBits.toNat % 2 ^ 32 := by
  rw [h.fracBits_eq, UInt32.toNat_mul, Nat.mul_comm]
  rfl

/-- **The double is counted exactly** if and only if it is below `2 ^ 32`. -/
theorem toNat_fracBits_eq_iff :
    g.fracBits.toNat = 2 * f.fracBits.toNat ↔ f.fracBits.toNat < 2 ^ 31 := by
  have hcount := h.toNat_fracBits
  have hlt := g.fracBits.toNat_lt
  constructor
  · intro hexact
    omega
  · intro hsmall
    rw [hcount, Nat.mod_eq_of_lt (by omega)]

/-- The result has a format that is annotated or recorded. -/
lemma mem_formats (hF : Format.none ∈ F) (ha : a.store.KeepsTo F)
    (hi : ∀ v, i.info = some v → ∀ si, v.Mentions si → si.format ∈ F) : f ∈ F := by
  obtain ⟨-, -, -, -, -, hf, -⟩ := h.read
  exact mem_of_resultFormat (annotatedStore_keepsTo hF ha hi) f hf

end ReadsDividend

end Body

namespace Plan

variable {x : Start R} {xs : List (Start R)} {a : Activation R} {i : Instruction R} {f g : Format}

/-- Wherever a constant is divided in the course of the analysis of a module, it is read with
exactly twice as many fractional bits as the result has. -/
def DoublesExactly (m : Module R) (settings : Settings) : Prop :=
  ∀ x xs, (Plan.of m settings).IsStack x xs → ∀ a, (Plan.of m settings).AppliesIn x a →
    ∀ i ∈ ((Plan.of m settings).body x.function).function.insts, ∀ f g,
      ((Plan.of m settings).body x.function).ReadsDividend a i f g →
        g.fracBits.toNat = 2 * f.fracBits.toNat

/-- The results of these divisions have formats of the module. -/
theorem format_mem_of_readsDividend (hx : (Plan.of m settings).IsStack x xs)
    (ha : (Plan.of m settings).AppliesIn x a)
    (hi : i ∈ ((Plan.of m settings).body x.function).function.insts)
    (h : ((Plan.of m settings).body x.function).ReadsDividend a i f g) : f ∈ m.formats := by
  have hstore := ha.keepsTo hx
  obtain ⟨f', hf', hbody⟩ := exists_body_eq hx.keepsTo.1 settings
  rw [hbody] at hi h
  exact h.mem_formats m.none_mem_formats hstore ((Module.annotatesIn_formats hf').insts i hi)

/-- **No division miscounts** if the annotated formats have less than `2 ^ 31` fractional bits. -/
theorem doublesExactly (hm : ∀ φ ∈ m.formats, φ.fracBits.toNat < 2 ^ 31) (settings : Settings) :
    DoublesExactly m settings := fun _ _ hx _ ha _ hi f _ h =>
  h.toNat_fracBits_eq_iff.2 (hm f (format_mem_of_readsDividend hx ha hi h))

end Plan

/-! ## A quotient of fixed-point numbers -/

namespace FixedQuotient

variable (R) (bits : UInt32)

/-- The format of the program. -/
def format : Format := ⟨32, bits, true⟩

/-- One is divided by the parameter. -/
def quotient : Instruction R :=
  ⟨⟨0⟩, ⟨0⟩, "q", .int 32, .binary .sdiv (.constInt 1) (.arg 0),
    some (.scalar ⟨format bits, some (0, 1), none⟩), none⟩

/-- The function that divides one by its parameter, which is between one and two. -/
def function : Function R where
  id := ⟨0⟩
  name := "f"
  params := #[⟨"x", .int 32,
    some (.scalar ⟨format bits, some (1, 1 + 1), some (Number.ofDecimal 25 (-2))⟩)⟩]
  retTy := .int 32
  blocks := #[⟨⟨0⟩, "entry", [⟨0⟩, ⟨1⟩], none, none⟩]
  insts := #[quotient R bits, ⟨⟨1⟩, ⟨0⟩, "", .void, .ret (some (.inst ⟨0⟩)), none, none⟩]
  maxRecursion := none
  entryPoint := false

/-- The module of the function. -/
def program : Module R := ⟨"m", #[function R bits], #[], #[]⟩

lemma validate_program : (program R bits).validate = .ok () := rfl

/-- The activation from which the analysis starts. -/
def first (settings : Settings) : Start R :=
  (Plan.of (program R bits) settings).beginEntry (Session.start (program R bits) 0).1
    (function R bits) 0

lemma isStack_first (settings : Settings) :
    (Plan.of (program R bits) settings).IsStack (first R bits settings) [] := by
  have hf : (Plan.of (program R bits) settings).module.function? ⟨0⟩ = some (function R bits) := rfl
  exact .entry (.start 0) hf rfl

/-- All that is annotated has the format of the program. -/
lemma format_of_hasInfo {v : ValueInfo R} (hv : (program R bits).HasInfo v)
    {si : ScalarInfo R} (hsi : v.Mentions si) : si.format = format bits := by
  have hscalar {info : ScalarInfo R} (hv : some (.scalar info) = some v) : si = info := by
    cases hv
    cases hsi
    rfl
  cases hv with
  | @param f p v hf hp hv =>
    obtain rfl : f = function R bits := by simpa [program] using hf
    obtain rfl := List.mem_singleton.1 (Array.mem_toList_iff.2 hp)
    rw [hscalar hv]
  | @inst f i v hf hi hv =>
    obtain rfl : f = function R bits := by simpa [program] using hf
    rcases List.mem_cons.1 (Array.mem_toList_iff.2 hi) with rfl | hi
    · rw [hscalar hv]
    · obtain rfl := List.mem_singleton.1 hi
      cases hv
  | global hg => simp [program] at hg

/-- The quotient is read from the annotations alone. -/
lemma readsDividend_first (settings : Settings) :
    ((Plan.of (program R bits) settings).body (function R bits)).ReadsDividend
      (first R bits settings).state (quotient R bits) (format bits)
      ((format bits).withFracBits (bits * 2)) := by
  have hinfo : (quotient R bits).scalarInfo? = some ⟨format bits, some (0, 1), none⟩ := rfl
  exact ⟨rfl, rfl, .sdiv, 1, .arg 0, rfl, .inl rfl, Body.format_annotatedStore hinfo _, rfl⟩

/-- **The quotient is computed as intended** if and only if the format has less than `2 ^ 31`
fractional bits, so the number of them cannot be left to the annotations. -/
theorem doublesExactly_iff (settings : Settings) :
    Plan.DoublesExactly (program R bits) settings ↔ bits.toNat < 2 ^ 31 := by
  constructor
  · intro hexact
    have hreads := readsDividend_first R bits settings
    have hbody : (Plan.of (program R bits) settings).body (function R bits)
        = Body.of (program R bits) settings (function R bits) :=
      Plan.body_eq_of_validate (validate_program R bits) (Array.mem_singleton.2 rfl)
    have hmem : quotient R bits ∈
        ((Plan.of (program R bits) settings).body (function R bits)).function.insts :=
      hbody ▸ Array.mem_toList_iff.1 List.mem_cons_self
    exact hreads.toNat_fracBits_eq_iff.1 (hexact _ _ (isStack_first R bits settings) _
      (.passes .start) _ hmem _ _ hreads)
  · intro hbits
    refine Plan.doublesExactly (fun φ hφ => ?_) settings
    rcases hφ with rfl | ⟨v, hv, si, hsi, rfl⟩
    · exact Nat.two_pow_pos 31
    · rw [format_of_hasInfo R bits hv hsi]
      exact hbits

end FixedQuotient

end Roundoff
