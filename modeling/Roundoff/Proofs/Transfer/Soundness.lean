/-
# Soundness of the analysis of straight-line arithmetic

The errors recorded while a block of arithmetic is visited are one affine description of an
execution.  The formal parameters are set up with their initial errors, every visit keeps what
`Store.Describes` says, and so does a whole block by induction on its instructions.

The main result is `Body.visitFirst_sound`.
-/
import Mathlib
import Roundoff.Proofs.Transfer.Frame
import Roundoff.Proofs.Transfer.Rules

namespace Roundoff

variable {w : Supply} {s : Store ℝ} {k : Key}

/-! ## Visits -/

namespace Body

variable {σ : Type} {h : CallHandler ℝ σ} {edges : PhiEdges} {world : σ} {b : Body ℝ}
  {is : List (Instruction ℝ)} {e : Execution b.function is} {a : Activation ℝ} {i : Instruction ℝ}

/-- A rule that describes the execution as far as it has data leaves a state that describes it. -/
lemma attempt_yields {rule : Attempt (Activation ℝ)} (ha : a.store.Describes e w)
    (hrule : Attempt.Yields w rule fun a' w' => a'.store.Describes e w') :
    Fresh.Yields w (attempt a world rule) fun o w' =>
      (∃ found, o.answer = .ok found) ∧ o.state.store.Describes e w' := by
  unfold attempt
  refine Fresh.Yields.bind hrule fun result w' hw hresult => ?_
  cases result with
  | none => exact Fresh.yields_pure ⟨⟨_, rfl⟩, ha.mono hw⟩
  | some a' => exact Fresh.yields_pure ⟨⟨_, rfl⟩, hresult a' rfl⟩

lemma operate_yields (ha : a.store.Describes e w) (hi : i ∈ is) (hrange : b.HasRange a i)
    (harith : i.IsArithmetic is) :
    Fresh.Yields w (b.operate h edges a world i) fun o w' =>
      (∃ found, o.answer = .ok found) ∧ o.state.store.Describes e w' := by
  unfold operate
  cases hop : i.op with
  | binary op lhs rhs => exact attempt_yields ha (binary_yields ha hi hrange hop harith)
  | cast op v => exact attempt_yields ha (cast_yields ha hi hrange hop harith)
  | ret u => exact attempt_yields ha (ret_yields ha hi hrange hop harith)
  | _ =>
    rw [Instruction.IsArithmetic, hop] at harith
    exact harith.elim

/-- Visiting an instruction. -/
lemma visit_yields (ha : a.store.Describes e w) (hi : i ∈ is) (harith : i.IsArithmetic is) :
    Fresh.Yields w (b.visit h edges a world i) fun o w' =>
      (∃ found, o.answer = .ok found) ∧ o.state.store.Describes e w' := by
  unfold visit
  split
  · exact Fresh.yields_pure ⟨⟨_, rfl⟩, ha⟩
  · split
    · next hinfo =>
      refine operate_yields ha hi (fun info h => ?_) harith
      rw [hinfo] at h
      cases h
    · next info hinfo =>
      have hadmits := e.inst_admits i hi info hinfo
      split
      · exact (ha.seed_yields hadmits (.inst i.id)).bind fun _ _ _ hs =>
          Fresh.yields_pure ⟨⟨_, rfl⟩, hs⟩
      · refine operate_yields (ha.setRange hadmits.range) hi (fun info' h => ?_) harith
        obtain rfl : info = info' := Option.some.inj (hinfo.symm.trans h)
        rw [resultRange?, Store.range?, Store.get?_setRange, if_pos rfl]
        rfl

/-- Visiting instructions one after the other. -/
lemma visitAll_yields {js : List (Instruction ℝ)} (ha : a.store.Describes e w)
    (hjs : ∀ i ∈ js, i ∈ is ∧ i.IsArithmetic is) (count : ℕ) :
    Fresh.Yields w (b.visitAll h edges count a world js) fun o w' =>
      (∃ n, o.answer = .ok n) ∧ o.state.store.Describes e w' := by
  induction js generalizing w a world count with
  | nil => exact Fresh.yields_pure ⟨⟨_, rfl⟩, ha⟩
  | cons i js ih =>
    obtain ⟨hi, harith⟩ := hjs i List.mem_cons_self
    rw [visitAll]
    refine (visit_yields ha hi harith).bind fun o w' _ ho => ?_
    obtain ⟨⟨found, hfound⟩, hstate⟩ := ho
    rw [hfound]
    exact ih hstate (fun j hj => hjs j (List.mem_cons_of_mem _ hj)) _

end Body

/-! ## Formal parameters -/

variable {f : Function ℝ} {is : List (Instruction ℝ)} {e : Execution f is}

/-- The symbols that a computation draws may stand for anything. -/
lemma Fresh.Ensures.yields {α : Type} {P : α → Prop} {m : Fresh α} (hm : m.Ensures P) (w : Supply) :
    Fresh.Yields w m fun a _ => P a :=
  ⟨⟨(m w.next).2, w.noise, w.abs_noise_le⟩, ⟨(hm w.next).1, fun _ _ => rfl⟩, rfl, (hm w.next).2⟩

namespace Store

/-- Setting up a value whose annotation holds. -/
lemma Describes.seedValue_yields (hs : s.Describes e w) {m : Module ℝ} {ty : Option StructId}
    {info : Option (ValueInfo ℝ)}
    (hadmits : ∀ i, info = some (.scalar i) → i.Admits (e.ideal k) (e.computed k))
    (hk : e.Deviation k (e.computed k - e.ideal k)) :
    Fresh.Yields w (s.seedValue m k ty info) fun s' w' => s'.Describes e w' := by
  unfold seedValue
  split
  · exact Fresh.yields_pure hs
  · next i => exact hs.seed_yields (hadmits i rfl) hk
  · split
    · exact Fresh.yields_pure hs
    · -- trees keep errors of their own, which no rule of straight-line arithmetic reads
      exact ((Objects.ensures_seed _ m k _ _).yields w).bind fun o w' hw _ =>
        Fresh.yields_pure ⟨hs.range, (hs.mono hw).error⟩

/-- The store without entries describes every execution. -/
lemma forModule_describes (m : Module ℝ) : (Store.forModule m).Describes e w where
  range _ _ h := by cases h
  error _ _ h := by cases h

/-- Setting up the formal parameters. -/
lemma seedArguments_yields (m : Module ℝ) (hs : s.Describes e w) :
    Fresh.Yields w (s.seedArguments m f) fun s' w' => s'.Describes e w' := by
  unfold seedArguments
  have hparams : ∀ pn ∈ f.params.toList.zipIdx, f.params[pn.2]? = some pn.1 := by
    intro pn hpn
    simpa using List.mem_zipIdx_iff_getElem?.1 hpn
  generalize f.params.toList.zipIdx = pns at hparams
  induction pns generalizing s w with
  | nil => exact Fresh.yields_pure hs
  | cons pn pns ih =>
    obtain ⟨p, n⟩ := pn
    rw [List.foldlM_cons]
    exact (hs.seedValue_yields (fun i hi => e.param_admits n p i
      (hparams (p, n) List.mem_cons_self) hi) (.arg _)).bind fun s' w' _ hs' =>
        ih hs' fun pn hpn => hparams pn (List.mem_cons_of_mem _ hpn)

end Store

/-! ## Soundness -/

/-- Visit a block right after the formal parameters have been set up. -/
def Body.visitFirst {R σ : Type} [Number R] (b : Body R) (h : CallHandler R σ) (v : Visit)
    (world : σ) : Fresh (Outcome R σ ℕ) := do
  let s ← (Store.forModule b.module).seedArguments b.module b.function
  b.visitBlock h v { store := s } world

/-- **The analysis of straight-line arithmetic is sound.**  Visiting a block of annotated arithmetic
succeeds.  For every execution of the block there are values of the noise symbols between -1 and 1
under which every recorded error is the deviation that it stands for; so the noise bound of a
recorded error bounds the deviation. -/
theorem Body.visitFirst_sound {σ : Type} (b : Body ℝ) (h : CallHandler ℝ σ) (v : Visit) (world : σ)
    (next : Symbol)
    (harith : ∀ i ∈ b.function.blockInsts v.block, i.IsArithmetic (b.function.blockInsts v.block))
    (e : Execution b.function (b.function.blockInsts v.block)) :
    (∃ n, (b.visitFirst h v world next).1.answer = .ok n) ∧
      ∃ ε : Symbol → ℝ, (∀ s, |ε s| ≤ 1) ∧
        ∀ k g, (b.visitFirst h v world next).1.state.store.error? k = some g →
          ∃ d, e.Deviation k d ∧ g.value ε = d ∧ |d| ≤ g.noiseBound := by
  let w : Supply := ⟨next, fun _ => 0, by simp⟩
  have hrun : Fresh.Yields w (b.visitFirst h v world) fun o w' =>
      (∃ n, o.answer = .ok n) ∧ o.state.store.Describes e w' :=
    (Store.seedArguments_yields b.module (Store.forModule_describes b.module)).bind
      fun _ _ _ hs => Body.visitAll_yields hs (fun i hi => ⟨hi, harith i hi⟩) 0
  obtain ⟨w', -, -, hanswer, hdescribes⟩ := hrun
  refine ⟨hanswer, w'.noise, w'.abs_noise_le, fun k g hg => ?_⟩
  obtain ⟨d, hd, hg⟩ := hdescribes.error k g hg
  exact ⟨d, hd, hg.value_eq, hg.abs_le_noiseBound⟩

/-! ## A shifted square -/

namespace ShiftedSquare

/-- Numbers between 0 and 1 with eight fractional bits. -/
noncomputable def unitInfo (initialError : Option ℝ) : ScalarInfo ℝ :=
  ⟨⟨32, 8, true⟩, some (0, 1), initialError⟩

/-- The square of the formal parameter. -/
noncomputable def square : Instruction ℝ :=
  ⟨⟨0⟩, ⟨0⟩, "y", .int 32, .binary .mul (.arg 0) (.arg 0), some (.scalar (unitInfo none)), none⟩

/-- The shift of the square. -/
noncomputable def shift : Instruction ℝ :=
  ⟨⟨1⟩, ⟨0⟩, "z", .int 32, .binary .ashr (.inst ⟨0⟩) (.constInt 1),
    some (.scalar (unitInfo none)), none⟩

/-- The return of the shifted square. -/
def result : Instruction ℝ := ⟨⟨2⟩, ⟨0⟩, "", .void, .ret (some (.inst ⟨1⟩)), none, none⟩

/-- The function that squares a number and shifts the square. -/
noncomputable def function : Function ℝ where
  id := ⟨0⟩
  name := "shifted_square"
  params := #[⟨"x", .int 32, some (.scalar (unitInfo (some (1 / 256))))⟩]
  retTy := .int 32
  blocks := #[⟨⟨0⟩, "entry", [⟨0⟩, ⟨1⟩, ⟨2⟩], none, none⟩]
  insts := #[square, shift, result]
  maxRecursion := none
  entryPoint := false

/-- The body of the function. -/
noncomputable def body : Body ℝ := Body.of ⟨"m", #[function], #[], #[]⟩ default function

lemma mem_blockInsts {i : Instruction ℝ} (hi : i ∈ function.blockInsts ⟨0⟩) :
    i = square ∨ i = shift ∨ i = result := by
  have hinsts : function.blockInsts ⟨0⟩ = [square, shift, result] := rfl
  rw [hinsts] at hi
  simpa using hi

lemma isArithmetic {i : Instruction ℝ} (hi : i ∈ function.blockInsts ⟨0⟩) :
    i.IsArithmetic (function.blockInsts ⟨0⟩) := by
  have hfirst : (Value.inst ⟨0⟩ : Value ℝ).IsScalar (function.blockInsts ⟨0⟩) := by
    intro j hj hid
    rcases mem_blockInsts hj with rfl | rfl | rfl
    · rfl
    · rfl
    · exact absurd hid (by decide)
  have hsecond : (Value.inst ⟨1⟩ : Value ℝ).IsScalar (function.blockInsts ⟨0⟩) := by
    intro j hj hid
    rcases mem_blockInsts hj with rfl | rfl | rfl
    · rfl
    · rfl
    · exact absurd hid (by decide)
  rcases mem_blockInsts hi with rfl | rfl | rfl
  · exact ⟨rfl, rfl, trivial, trivial⟩
  · exact ⟨rfl, rfl, hfirst, trivial⟩
  · rintro _ ⟨⟩
    exact hsecond

/-- One half is squared.  The erroneous execution is off by one unit in the last place at the start
and again after the shift. -/
noncomputable def execution : Execution function (function.blockInsts ⟨0⟩) where
  ideal
    | .arg _ _ => 128 / 256
    | _ => 1 / 4
  computed
    | .arg _ _ => 129 / 256
    | .inst _ ⟨0⟩ => 129 / 256 * (129 / 256)
    | _ => 129 / 256 * (129 / 256) + 1 / 256
  param_admits n p info hp hinfo := by
    cases n with
    | zero =>
      cases hp
      cases hinfo
      refine ⟨?_, fun m hm => ?_⟩
      · exact Range.mem_of (by norm_num) (by norm_num)
      · cases hm
        norm_num
    | succ n => cases hp
  inst_admits i hi info hinfo := by
    rcases mem_blockInsts hi with rfl | rfl | rfl
    · cases hinfo
      exact ⟨Range.mem_of (by norm_num) (by norm_num), nofun⟩
    · cases hinfo
      exact ⟨Range.mem_of (by norm_num) (by norm_num), nofun⟩
    · cases hinfo
  ideal_computes i hi := by
    rcases mem_blockInsts hi with rfl | rfl | rfl
    · rintro _ ⟨⟩
      change |(1 / 4 : ℝ) - 128 / 256 * (128 / 256)| ≤ 0
      norm_num
    · rintro _ ⟨⟩
      change |(1 / 4 : ℝ) - 1 / 4| ≤ 0
      norm_num
    · rfl
  computed_computes i hi := by
    rcases mem_blockInsts hi with rfl | rfl | rfl
    · rintro _ ⟨⟩
      change |(129 / 256 * (129 / 256) : ℝ) - 129 / 256 * (129 / 256)| ≤ 0
      norm_num
    · rintro _ ⟨⟩
      change |(129 / 256 * (129 / 256) + 1 / 256 : ℝ) - 129 / 256 * (129 / 256)|
        ≤ 2 ^ (-(8 : ℤ))
      norm_num
    · rfl

/-- The error recorded for the shifted square bounds its deviation. -/
theorem abs_deviation_le :
    (∀ i ∈ function.blockInsts ⟨0⟩, i.IsArithmetic (function.blockInsts ⟨0⟩)) ∧
      ∃ g, (body.visitFirst .none ⟨⟨0⟩, .all⟩ () 0).1.state.store.error? (.inst ⟨0⟩ ⟨1⟩) = some g ∧
        |(129 / 256 * (129 / 256) + 1 / 256 - 1 / 4 : ℝ)| ≤ g.noiseBound := by
  refine ⟨fun i hi => isArithmetic hi, ?_⟩
  obtain ⟨-, ε, -, hε⟩ := Body.visitFirst_sound body .none ⟨⟨0⟩, .all⟩ () 0
    (fun i hi => isArithmetic hi) execution
  have hrecorded : ((body.visitFirst .none ⟨⟨0⟩, .all⟩ () 0).1.state.store.error?
    (.inst ⟨0⟩ ⟨1⟩)).isSome := by decide +kernel
  obtain ⟨g, hg⟩ := Option.isSome_iff_exists.1 hrecorded
  obtain ⟨d, hd, -, hbound⟩ := hε _ g hg
  refine ⟨g, hg, ?_⟩
  cases hd
  exact hbound

end ShiftedSquare

end Roundoff
