/-
# Modules under construction

A module is built by calls in any order: struct types, global variables and declarations are added,
and the bodies of several functions may be under construction at the same time.  The position of a
function is reserved when its body is begun, so that other functions can call it, and its body is
installed there when it is finished.

A *construction* is a module that is being built, together with the bodies that have been begun and
a record of all that has been made, with the positions and operands that were answered.  Each call
is one step.  Blocks and direct callees have to be ones that were made in the same body and in the
same module, and a body is built only until it is installed.

The main result is `Construction.isComplete_run`.  The module is valid, whatever is called and in
whatever order, everything that was answered denotes what it was answered for, and the blocks list
the instructions that were pushed into them, in the order in which they were pushed and each once.
Positions have 32 bits, so of each kind there may be at most as many as can be told apart.
-/
import Mathlib
import Roundoff.Proofs.Program.Bodies

namespace Roundoff

variable {R : Type} {m m' : Module R}

/-! ## Constructions -/

/-- A call that builds a module or one of its bodies.  Bodies are numbered in the order in which
they are begun. -/
inductive ModuleCall (R : Type) where
  | struct (name : String) (fields : List Ty)
  | global (name : String) (ty : Ty) (info : Option (ValueInfo R))
  | globalTarget (id : GlobalId) (label : String)
  | declare (name : String) (params : Array (Param R)) (retTy : Ty)
  | function (name : String) (retTy : Ty)
  | body (n : ℕ) (call : BodyCall R)
  | define (n : ℕ)

/-- What is made by a call, with the position or operand that is answered. -/
inductive ModuleItem (R : Type) where
  | struct (id : StructId) (name : String) (fields : List Ty)
  | global (id : GlobalId) (name : String) (ty : Ty) (info : Option (ValueInfo R))
  | declaration (id : FunctionId) (name : String) (params : Array (Param R)) (retTy : Ty)
  /-- A position for a function. -/
  | function (id : FunctionId) (name : String) (retTy : Ty)
  /-- A finished function. -/
  | finished (id : FunctionId) (f : Function R)
  /-- Something in the body of the given number. -/
  | inBody (n : ℕ) (x : BodyItem R)

/-- A body that has been begun. -/
structure Building (R : Type) where
  /-- The body as far as it has been built. -/
  builder : FunctionBuilder R
  /-- Whether the body has been installed in the module. -/
  isInstalled : Bool

/-- The function that is built. -/
abbrev Building.function (x : Building R) : Function R := x.builder.function

/-- A module under construction. -/
structure Construction (R : Type) where
  /-- The module. -/
  builder : ModuleBuilder R
  /-- The bodies in the order in which they were begun. -/
  bodies : Array (Building R)
  /-- Everything that has been made, in order. -/
  made : List (ModuleItem R)

variable {c c' : Construction R} {call : ModuleCall R} {calls : List (ModuleCall R)}

namespace Construction

/-- Nothing has been made. -/
def start (name : String) : Construction R := ⟨.start name, #[], []⟩

/-- The module as it is. -/
abbrev module (c : Construction R) : Module R := c.builder.module

/-- One call. -/
def step (c : Construction R) : ModuleCall R → Construction R
  | .struct name fields =>
    let (id, builder) := c.builder.addStruct name fields
    { c with builder := builder, made := c.made ++ [.struct id name fields] }
  | .global name ty info =>
    let (id, builder) := c.builder.addGlobal name ty info
    { c with builder := builder, made := c.made ++ [.global id name ty info] }
  | .globalTarget id label => { c with builder := c.builder.setGlobalTarget id label }
  | .declare name params retTy =>
    let (id, builder) := c.builder.declare name params retTy
    { c with builder := builder, made := c.made ++ [.declaration id name params retTy] }
  | .function name retTy =>
    let (body, builder) := c.builder.startFunction name retTy
    ⟨builder, c.bodies.push ⟨body, false⟩, c.made ++ [.function body.function.id name retTy]⟩
  | .body n call =>
    match c.bodies[n]? with
    | some x =>
      { c with
        bodies := c.bodies.modify n fun x => { x with builder := x.builder.apply call }
        made := c.made ++ ((x.builder.added? call).map (.inBody n)).toList }
    | none => c
  | .define n =>
    match c.bodies[n]? with
    | some x =>
      let (id, builder) := c.builder.define x.builder
      ⟨builder, c.bodies.modify n fun x => { x with isInstalled := true },
        c.made ++ [.finished id x.function]⟩
    | none => c

/-- The conditions under which a call may be made. -/
def IsProper (c : Construction R) : ModuleCall R → Prop
  | .body n call =>
    ∃ x, c.bodies[n]? = some x ∧ x.isInstalled = false ∧ x.builder.IsProper c.module call
  | .define n => ∃ x, c.bodies[n]? = some x ∧ x.isInstalled = false
  | _ => True

/-- Several calls. -/
def run (c : Construction R) (calls : List (ModuleCall R)) : Construction R := calls.foldl step c

/-- Several calls may be made one after the other. -/
def Allows (c : Construction R) : List (ModuleCall R) → Prop
  | [] => True
  | call :: calls => c.IsProper call ∧ (c.step call).Allows calls

/-- The body of a number as far as it has been built. -/
def body? (c : Construction R) (n : ℕ) : Option (Function R) := c.bodies[n]?.map Building.function

/-- The body of a function is under construction. -/
def IsOpen (c : Construction R) (id : FunctionId) : Prop :=
  ∃ (n : ℕ) (x : Building R), c.bodies[n]? = some x ∧ x.isInstalled = false ∧ x.function.id = id

end Construction

/-- The position of an instruction that is pushed in the body of the given number, with its block. -/
def ModuleItem.pushed? (n : ℕ) : ModuleItem R → Option (InstId × BlockId)
  | .inBody k x => if k = n then x.pushed? else none
  | _ => none

namespace Construction

/-- The positions of the instructions that were pushed in a body, in order, with their blocks. -/
def pushes (c : Construction R) (n : ℕ) : List (InstId × BlockId) :=
  c.made.filterMap (ModuleItem.pushed? n)

/-! ## The module is built -/

/-- The module and its bodies are as the calls leave them. -/
structure IsSound (c : Construction R) : Prop where
  /-- Every function carries its own position. -/
  function_id : ∀ {k : ℕ} {f}, c.module.functions[k]? = some f → f.id = ⟨UInt32.ofNat k⟩
  /-- Every global variable carries its own position. -/
  global_id : ∀ {k : ℕ} {g}, c.module.globals[k]? = some g → g.id = ⟨UInt32.ofNat k⟩
  /-- A function is declared only, or it is an installed body. -/
  source : ∀ {k : ℕ} {f}, c.module.functions[k]? = some f → f.blocks = #[] ∧ f.insts = #[] ∨
    ∃ (n : ℕ) (x : Building R), c.bodies[n]? = some x ∧ x.isInstalled = true ∧ x.function = f
  /-- All bodies are built. -/
  body : ∀ {n : ℕ} {x}, c.bodies[n]? = some x → x.builder.IsSound c.module
  /-- There is a position for each body. -/
  slot : ∀ {n : ℕ} {x}, c.bodies[n]? = some x → (c.module.function? x.function.id).isSome
  /-- The instructions of a body are those that were pushed. -/
  pushes : ∀ n, c.pushes n = ((c.body? n).map Function.placements).getD []

lemma isSound_start (name : String) : (start name : Construction R).IsSound where
  function_id h := by cases h
  global_id h := by cases h
  source h := by cases h
  body h := by cases h
  slot h := by cases h
  pushes n := rfl

lemma IsSound.isBuilt (h : c.IsSound) {k : ℕ} {f : Function R}
    (hf : c.module.functions[k]? = some f) : f.IsBuilt c.module := by
  rcases h.source hf with ⟨hblocks, hinsts⟩ | ⟨n, x, hx, -, rfl⟩
  · constructor <;> simp [hblocks, hinsts]
  · exact (h.body hx).built

/-- Nothing changes for the bodies. -/
lemma IsSound.frame (h : c.IsSound) (hfunctions : c'.module.functions = c.module.functions)
    (hbodies : c'.bodies = c.bodies) (hpushes : ∀ n, c'.pushes n = c.pushes n)
    (hglobals : ∀ {k : ℕ} {g}, c'.module.globals[k]? = some g → g.id = ⟨UInt32.ofNat k⟩) :
    c'.IsSound := by
  have hfunction (id : FunctionId) : c'.module.function? id = c.module.function? id := by
    rw [Module.function?, hfunctions, Module.function?]
  refine ⟨fun hf => ?_, hglobals, fun hf => ?_, fun hx => ?_, fun hx => ?_, fun n => ?_⟩
  · rw [hfunctions] at hf
    exact h.function_id hf
  · rw [hfunctions] at hf
    rw [hbodies]
    exact h.source hf
  · rw [hbodies] at hx
    exact (h.body hx).mono fun id hid => by rwa [hfunction]
  · rw [hbodies] at hx
    rw [hfunction]
    exact h.slot hx
  · rw [hpushes, body?, hbodies]
    exact h.pushes n

/-- The position that is answered for a function is the one of a function. -/
lemma isSome_function?_declare (b : ModuleBuilder R) (name : String) (params : Array (Param R))
    (retTy : Ty) : ((b.declare name params retTy).2.module.function?
      (b.declare name params retTy).1).isSome :=
  isSome_getElem?_push _ _

/-- The functions keep their positions. -/
lemma function?_declare_of_eq_some {b : ModuleBuilder R} (name : String) (params : Array (Param R))
    (retTy : Ty) {id : FunctionId} {f : Function R} (hf : b.module.function? id = some f) :
    (b.declare name params retTy).2.module.function? id = some f :=
  getElem?_push_of_eq_some hf _

/-- A position for a function is added. -/
lemma IsSound.declare (h : c.IsSound) (name : String) (params : Array (Param R)) (retTy : Ty)
    {item : ModuleItem R} (hitem : ∀ n, item.pushed? n = none) :
    (⟨(c.builder.declare name params retTy).2, c.bodies, c.made ++ [item]⟩ :
      Construction R).IsSound := by
  have hmem {k : ℕ} {f : Function R}
      (hf : (c.builder.declare name params retTy).2.module.functions[k]? = some f) :
      f = .declaration ⟨UInt32.ofNat k⟩ name params retTy ∨ c.module.functions[k]? = some f := by
    change (c.module.functions.push _)[k]? = some f at hf
    rw [Array.getElem?_push] at hf
    split at hf
    · next hk =>
      cases hf
      exact Or.inl (hk ▸ rfl)
    · exact Or.inr hf
  have hkept (id : FunctionId) (hid : (c.module.function? id).isSome) :
      ((c.builder.declare name params retTy).2.module.function? id).isSome := by
    obtain ⟨f, hf⟩ := Option.isSome_iff_exists.1 hid
    exact Option.isSome_of_eq_some (function?_declare_of_eq_some name params retTy hf)
  refine ⟨fun hf => ?_, h.global_id, fun hf => ?_, fun hx => (h.body hx).mono hkept,
    fun hx => hkept _ (h.slot hx), fun n => ?_⟩
  · obtain rfl | hf := hmem hf
    · rfl
    · exact h.function_id hf
  · obtain rfl | hf := hmem hf
    · exact Or.inl ⟨rfl, rfl⟩
    · exact h.source hf
  · have hpushes : (c.made ++ [item]).filterMap (ModuleItem.pushed? n) = c.pushes n := by
      rw [List.filterMap_append, List.filterMap_cons_none (hitem n), List.filterMap_nil,
        List.append_nil, Construction.pushes]
    exact hpushes.trans (h.pushes n)

/-- A body is begun. -/
lemma IsSound.begin (h : c.IsSound) {id : FunctionId} (name : String) (retTy : Ty)
    (hid : (c.module.function? id).isSome) :
    ({ c with bodies := c.bodies.push ⟨.start id name retTy, false⟩ } :
      Construction R).IsSound := by
  have hmem {n : ℕ} {x : Building R}
      (hx : (c.bodies.push ⟨.start id name retTy, false⟩)[n]? = some x) :
      x = ⟨.start id name retTy, false⟩ ∨ c.bodies[n]? = some x := by
    rw [Array.getElem?_push] at hx
    split at hx
    · exact Or.inl (Option.some.inj hx).symm
    · exact Or.inr hx
  refine ⟨h.function_id, h.global_id, fun hf => ?_, fun hx => ?_, fun hx => ?_, fun n => ?_⟩
  · rcases h.source hf with hnone | ⟨n, x, hx, hinstalled⟩
    · exact Or.inl hnone
    · exact Or.inr ⟨n, x, getElem?_push_of_eq_some hx _, hinstalled⟩
  · obtain rfl | hx := hmem hx
    · exact FunctionBuilder.isSound_start id name retTy
    · exact h.body hx
  · obtain rfl | hx := hmem hx
    · exact hid
    · exact h.slot hx
  · -- a body that has not been there has no instructions
    refine (h.pushes n).trans ?_
    rw [body?, body?, Array.getElem?_push]
    split
    · next hn =>
      rw [hn, Array.getElem?_eq_none le_rfl]
      rfl
    · rfl

section Bodies

variable {n : ℕ} {x : Building R} (hx : c.bodies[n]? = some x)

include hx

lemma step_body (call : BodyCall R) : c.step (.body n call) =
    ⟨c.builder, c.bodies.modify n fun x => { x with builder := x.builder.apply call },
      c.made ++ ((x.builder.added? call).map (.inBody n)).toList⟩ := by
  simp only [step, hx]

lemma step_define : c.step (.define n) =
    ⟨(c.builder.define x.builder).2, c.bodies.modify n fun x => { x with isInstalled := true },
      c.made ++ [.finished x.function.id x.function]⟩ := by
  simp only [step, hx, ModuleBuilder.define]

/-- A body that is changed is the one of the number. -/
lemma of_getElem?_modify {change : Building R → Building R} {k : ℕ} {y : Building R}
    (hy : (c.bodies.modify n change)[k]? = some y) :
    k = n ∧ y = change x ∨ k ≠ n ∧ c.bodies[k]? = some y := by
  rw [Array.getElem?_modify] at hy
  split at hy
  · next hk =>
    subst hk
    rw [hx] at hy
    exact Or.inl ⟨rfl, (Option.some.inj hy).symm⟩
  · next hk => exact Or.inr ⟨fun heq => hk heq.symm, hy⟩

lemma getElem?_modify_self {change : Building R → Building R} :
    (c.bodies.modify n change)[n]? = some (change x) := by
  rw [Array.getElem?_modify, if_pos rfl, hx, Option.map_some]

/-- Every other body stays as it is. -/
lemma eq_or_getElem?_modify {change : Building R → Building R} {k : ℕ} {y : Building R}
    (hy : c.bodies[k]? = some y) :
    (k = n ∧ y = x) ∨ (c.bodies.modify n change)[k]? = some y := by
  by_cases hk : k = n
  · subst hk
    exact Or.inl ⟨rfl, Option.some.inj (hy.symm.trans hx)⟩
  · exact Or.inr (by rw [Array.getElem?_modify, if_neg (Ne.symm hk), hy])

/-- If a change lets a body grow, then all bodies grow. -/
lemma exists_body?_modify {change : Building R → Building R}
    (hchange : x.function.Grows (change x).function) {k : ℕ} {f : Function R}
    (hf : c.body? k = some f) :
    ∃ f', ((c.bodies.modify n change)[k]?).map Building.function = some f' ∧ f.Grows f' := by
  obtain ⟨y, hy, rfl⟩ := Option.map_eq_some_iff.1 hf
  obtain ⟨rfl, rfl⟩ | hy := eq_or_getElem?_modify hx hy
  · exact ⟨_, congrArg _ (getElem?_modify_self hx), hchange⟩
  · exact ⟨_, congrArg _ hy, .refl _⟩

/-- A body that is under construction grows. -/
lemma IsSound.apply (h : c.IsSound) (hopen : x.isInstalled = false) {call : BodyCall R}
    (hcall : x.builder.IsProper c.module call) : (c.step (.body n call)).IsSound := by
  have hgrows := x.builder.grows_apply call
  rw [step_body hx]
  refine ⟨h.function_id, h.global_id, fun hf => ?_, fun hy => ?_, fun hy => ?_, fun k => ?_⟩
  · rcases h.source hf with hnone | ⟨k, y, hy, hinstalled, hyf⟩
    · exact Or.inl hnone
    · obtain ⟨-, rfl⟩ | hy := eq_or_getElem?_modify hx hy
      · cases hopen.symm.trans hinstalled
      · exact Or.inr ⟨k, y, hy, hinstalled, hyf⟩
  · obtain ⟨-, rfl⟩ | ⟨-, hy⟩ := of_getElem?_modify hx hy
    · exact (h.body hx).apply hcall
    · exact h.body hy
  · obtain ⟨-, rfl⟩ | ⟨-, hy⟩ := of_getElem?_modify hx hy
    · have hslot := h.slot hx
      rwa [← hgrows.id] at hslot
    · exact h.slot hy
  · have hitems : ((x.builder.added? call).map (ModuleItem.inBody n)).toList.filterMap
        (ModuleItem.pushed? k)
          = if n = k then ((x.builder.added? call).bind BodyItem.pushed?).toList else [] := by
      cases x.builder.added? call with
      | none => simp
      | some item =>
        by_cases hk : n = k
        · cases hitem : item.pushed? <;> simp [ModuleItem.pushed?, hk, hitem]
        · simp [ModuleItem.pushed?, hk]
    change (c.made ++ _).filterMap (ModuleItem.pushed? k) = _
    rw [List.filterMap_append, hitems, ← Construction.pushes, h.pushes k, body?, body?]
    split
    · next hk =>
      subst hk
      rw [getElem?_modify_self hx, hx]
      exact (x.builder.placements_apply call).symm
    · next hk => rw [Array.getElem?_modify, if_neg hk, List.append_nil]

/-- A finished body is installed at the position that has been reserved for it. -/
lemma functions_define (h : c.IsSound) : (c.step (.define n)).module.functions
    = c.module.functions.modify x.function.id.val.toNat fun _ => x.function := by
  obtain ⟨f, hf⟩ := Option.isSome_iff_exists.1 (h.slot hx)
  rw [step_define hx]
  exact if_pos (Array.getElem?_eq_some_iff.1 hf).1

lemma function?_define (h : c.IsSound) (id : FunctionId) :
    (c.step (.define n)).module.function? id
      = if id = x.function.id then some x.function else c.module.function? id := by
  obtain ⟨f, hf⟩ := Option.isSome_iff_exists.1 (h.slot hx)
  have hiff : x.function.id.val.toNat = id.val.toNat ↔ id = x.function.id :=
    ⟨fun heq => congrArg FunctionId.mk (UInt32.toNat_inj.1 heq.symm), fun heq => heq ▸ rfl⟩
  rw [Module.function?, functions_define hx h, Array.getElem?_modify]
  simp only [hiff]
  split
  · next heq =>
    subst heq
    rw [show c.module.functions[x.function.id.val.toNat]? = some f from hf, Option.map_some]
  · rfl

/-- A finished body is installed. -/
lemma IsSound.define (h : c.IsSound) : (c.step (.define n)).IsSound := by
  have hkept (id : FunctionId) (hid : (c.module.function? id).isSome) :
      ((c.step (.define n)).module.function? id).isSome := by
    rw [function?_define hx h]
    split
    · rfl
    · exact hid
  have hfunction {k : ℕ} {f : Function R}
    (hf : (c.step (.define n)).module.functions[k]? = some f) :
      k = x.function.id.val.toNat ∧ f = x.function ∨ c.module.functions[k]? = some f := by
    rw [functions_define hx h, Array.getElem?_modify] at hf
    split at hf
    · next hk =>
      obtain ⟨-, -, rfl⟩ := Option.map_eq_some_iff.1 hf
      exact Or.inl ⟨hk.symm, rfl⟩
    · exact Or.inr hf
  have hbody {k : ℕ} {y : Building R} (hy : (c.step (.define n)).bodies[k]? = some y) :
      ∃ z, c.bodies[k]? = some z ∧ y.builder = z.builder := by
    rw [step_define hx] at hy
    obtain ⟨rfl, rfl⟩ | ⟨-, hy⟩ := of_getElem?_modify hx hy
    · exact ⟨x, hx, rfl⟩
    · exact ⟨y, hy, rfl⟩
  refine ⟨fun hf => ?_, fun hg => ?_, fun hf => ?_, fun hy => ?_, fun hy => ?_, fun k => ?_⟩
  · obtain ⟨rfl, rfl⟩ | hf := hfunction hf
    · rw [UInt32.ofNat_toNat]
    · exact h.function_id hf
  · rw [step_define hx] at hg
    exact h.global_id hg
  · rw [step_define hx]
    obtain ⟨-, rfl⟩ | hf := hfunction hf
    · exact Or.inr ⟨n, _, getElem?_modify_self hx, rfl, rfl⟩
    · rcases h.source hf with hnone | ⟨k, y, hy, hinstalled, rfl⟩
      · exact Or.inl hnone
      · refine Or.inr ?_
        obtain ⟨rfl, rfl⟩ | hy := eq_or_getElem?_modify hx hy
        · exact ⟨k, _, getElem?_modify_self hx, rfl, rfl⟩
        · exact ⟨k, y, hy, hinstalled, rfl⟩
  · obtain ⟨z, hz, heq⟩ := hbody hy
    rw [heq]
    exact (h.body hz).mono hkept
  · obtain ⟨z, hz, heq⟩ := hbody hy
    rw [Building.function, heq]
    exact hkept _ (h.slot hz)
  · rw [step_define hx]
    change (c.made ++ _).filterMap (ModuleItem.pushed? k) = _
    rw [List.filterMap_append, ← Construction.pushes, h.pushes k, body?, body?,
      Array.getElem?_modify]
    split
    · next hk =>
      subst hk
      rw [hx]
      exact List.append_nil _
    · exact List.append_nil _

end Bodies

/-- Whatever is called, the module and its bodies are as the calls leave them. -/
lemma IsSound.step (h : c.IsSound) (hcall : c.IsProper call) : (c.step call).IsSound := by
  have hpushes (items : ModuleItem R) (hitem : ∀ n, items.pushed? n = none) (n : ℕ) :
      (c.made ++ [items]).filterMap (ModuleItem.pushed? n) = c.pushes n := by
    rw [List.filterMap_append, List.filterMap_cons_none (hitem n), List.filterMap_nil,
      List.append_nil, Construction.pushes]
  cases call with
  | struct name fields =>
    exact h.frame rfl rfl (hpushes _ fun _ => rfl) h.global_id
  | global name ty info =>
    refine h.frame rfl rfl (hpushes _ fun _ => rfl) fun {k g} hg => ?_
    change (c.module.globals.push _)[k]? = some g at hg
    rw [Array.getElem?_push] at hg
    split at hg
    · next hk =>
      cases hg
      rw [hk]
    · exact h.global_id hg
  | globalTarget id label =>
    refine h.frame rfl rfl (fun _ => rfl) fun {k g} hg => ?_
    change (c.module.globals.modify _ _)[k]? = some g at hg
    rw [Array.getElem?_modify] at hg
    split at hg
    · obtain ⟨g', hg', rfl⟩ := Option.map_eq_some_iff.1 hg
      exact (h.global_id hg' : g'.id = _)
    · exact h.global_id hg
  | declare name params retTy => exact h.declare name params retTy fun _ => rfl
  | function name retTy =>
    exact (h.declare name #[] retTy fun _ => rfl).begin name retTy
      (isSome_function?_declare c.builder name #[] retTy)
  | body n call =>
    obtain ⟨x, hx, hopen, hproper⟩ := hcall
    exact h.apply hx hopen hproper
  | define n =>
    obtain ⟨x, hx, -⟩ := hcall
    exact h.define hx

/-! ## Enough positions -/

/-- There are at most `n` things of each kind. -/
structure FitsIn (c : Construction R) (n : ℕ) : Prop where
  structs : c.module.structs.size ≤ n
  globals : c.module.globals.size ≤ n
  functions : c.module.functions.size ≤ n
  body : ∀ {k : ℕ} {x}, c.bodies[k]? = some x → x.function.FitsIn n

lemma FitsIn.mono {n n' : ℕ} (h : c.FitsIn n) (hle : n ≤ n') : c.FitsIn n' where
  structs := h.structs.trans hle
  globals := h.globals.trans hle
  functions := h.functions.trans hle
  body hx := ⟨(h.body hx).params.trans hle, (h.body hx).blocks.trans hle,
    (h.body hx).insts.trans hle⟩

lemma size_functions_define (b : ModuleBuilder R) (f : FunctionBuilder R) :
    b.module.functions.size ≤ (b.define f).2.module.functions.size ∧
      (b.define f).2.module.functions.size ≤ b.module.functions.size + 1 := by
  rw [ModuleBuilder.define]
  dsimp only
  split
  · exact ⟨Array.size_modify.ge, Array.size_modify.trans_le (Nat.le_succ _)⟩
  · exact ⟨(Nat.le_succ _).trans (Array.size_push ..).ge, (Array.size_push ..).le⟩

/-- A call adds at most one thing of each kind. -/
lemma FitsIn.step {n' : ℕ} (h : c.FitsIn n') (call : ModuleCall R) :
    (c.step call).FitsIn (n' + 1) := by
  have hmono := h.mono (Nat.le_succ n')
  cases call with
  | struct name fields =>
    exact ⟨(Array.size_push ..).trans_le (Nat.succ_le_succ h.structs), hmono.globals,
      hmono.functions, hmono.body⟩
  | global name ty info =>
    exact ⟨hmono.structs, (Array.size_push ..).trans_le (Nat.succ_le_succ h.globals),
      hmono.functions, hmono.body⟩
  | globalTarget id label =>
    exact ⟨hmono.structs, Array.size_modify.trans_le hmono.globals, hmono.functions, hmono.body⟩
  | declare name params retTy =>
    exact ⟨hmono.structs, hmono.globals,
      (Array.size_push ..).trans_le (Nat.succ_le_succ h.functions), hmono.body⟩
  | function name retTy =>
    refine ⟨hmono.structs, hmono.globals,
      (Array.size_push ..).trans_le (Nat.succ_le_succ h.functions), fun {k x} hx => ?_⟩
    change (c.bodies.push _)[k]? = some x at hx
    rw [Array.getElem?_push] at hx
    split at hx
    · cases hx
      exact ⟨Nat.zero_le _, Nat.zero_le _, Nat.zero_le _⟩
    · exact hmono.body hx
  | body n call =>
    cases hx : c.bodies[n]? with
    | none => simpa only [Construction.step, hx] using hmono
    | some x =>
      rw [step_body hx]
      refine ⟨hmono.structs, hmono.globals, hmono.functions, fun hy => ?_⟩
      obtain ⟨-, rfl⟩ | ⟨-, hy⟩ := of_getElem?_modify hx hy
      · exact FunctionBuilder.fitsIn_apply (h.body hx) call
      · exact hmono.body hy
  | define n =>
    cases hx : c.bodies[n]? with
    | none => simpa only [Construction.step, hx] using hmono
    | some x =>
      rw [step_define hx]
      refine ⟨hmono.structs, hmono.globals, ?_, fun hy => ?_⟩
      · exact (size_functions_define c.builder x.builder).2.trans (Nat.succ_le_succ h.functions)
      · obtain ⟨-, rfl⟩ | ⟨-, hy⟩ := of_getElem?_modify hx hy
        · exact (hmono.body hx : x.function.FitsIn (n' + 1))
        · exact hmono.body hy

lemma FitsIn.run {n : ℕ} (h : c.FitsIn n) (calls : List (ModuleCall R)) :
    (c.run calls).FitsIn (n + calls.length) := by
  induction calls generalizing c n with
  | nil => exact h
  | cons call calls ih =>
    have hrun := ih (h.step call)
    rwa [Nat.add_assoc, Nat.add_comm 1] at hrun

/-- There are no more things of a kind than there are calls. -/
lemma fitsIn_run_start (name : String) (calls : List (ModuleCall R)) :
    ((start name).run calls).FitsIn calls.length := by
  have hstart : (start name : Construction R).FitsIn 0 := ⟨le_rfl, le_rfl, le_rfl, nofun⟩
  simpa using hstart.run calls

/-- Nothing is taken away. -/
lemma FitsIn.of_step {n' : ℕ} (h : (c.step call).FitsIn n') : c.FitsIn n' := by
  have hpush {α : Type} {xs : Array α} {x : α} (hle : (xs.push x).size ≤ n') : xs.size ≤ n' :=
    (Nat.le_succ _).trans ((Array.size_push ..).symm.trans_le hle)
  cases call with
  | struct name fields => exact ⟨hpush h.structs, h.globals, h.functions, h.body⟩
  | global name ty info => exact ⟨h.structs, hpush h.globals, h.functions, h.body⟩
  | globalTarget id label =>
    exact ⟨h.structs, Array.size_modify.symm.trans_le h.globals, h.functions, h.body⟩
  | declare name params retTy => exact ⟨h.structs, h.globals, hpush h.functions, h.body⟩
  | function name retTy =>
    exact ⟨h.structs, h.globals, hpush h.functions,
      fun hx => h.body (getElem?_push_of_eq_some hx _)⟩
  | body n call =>
    cases hx : c.bodies[n]? with
    | none => simpa only [Construction.step, hx] using h
    | some x =>
      rw [step_body hx] at h
      refine ⟨h.structs, h.globals, h.functions, fun {k y} hy => ?_⟩
      obtain ⟨rfl, rfl⟩ | hy := eq_or_getElem?_modify hx hy
      · have hfits := h.body (getElem?_modify_self hx)
        obtain ⟨hparams, hblocks, hinsts⟩ := (y.builder.grows_apply call).sizes_le
        exact ⟨hparams.trans hfits.params, hblocks.trans hfits.blocks, hinsts.trans hfits.insts⟩
      · exact h.body hy
  | define n =>
    cases hx : c.bodies[n]? with
    | none => simpa only [Construction.step, hx] using h
    | some x =>
      rw [step_define hx] at h
      refine ⟨h.structs, h.globals, ?_, fun {k y} hy => ?_⟩
      · exact (size_functions_define c.builder x.builder).1.trans h.functions
      · obtain ⟨rfl, rfl⟩ | hy := eq_or_getElem?_modify hx hy
        · exact h.body (x := { y with isInstalled := true }) (getElem?_modify_self hx)
        · exact h.body hy

lemma FitsIn.of_run {n : ℕ} (h : (c.run calls).FitsIn n) : c.FitsIn n := by
  induction calls generalizing c with
  | nil => exact h
  | cons call calls ih => exact (ih h).of_step

end Construction

/-- There are at most `n` functions and global variables, and at most `n` blocks and instructions in
each body. -/
structure Module.FitsIn (m : Module R) (n : ℕ) : Prop where
  functions : m.functions.size ≤ n
  globals : m.globals.size ≤ n
  blocks : ∀ f ∈ m.functions, f.blocks.size ≤ n
  insts : ∀ f ∈ m.functions, f.insts.size ≤ n

/-- Where everything carries its own position, there are no more things than positions. -/
lemma size_le_of_positions {α : Type} {xs : Array α} {position : α → UInt32}
    (h : ∀ (k : ℕ) (x : α), xs[k]? = some x → (position x).toNat = k) : xs.size ≤ UInt32.size := by
  refine le_of_forall_lt fun k hk => ?_
  rw [← h k _ (Array.getElem?_eq_getElem hk)]
  exact UInt32.toNat_lt_size _

lemma Module.IsWired.fitsIn (h : m.IsWired) : m.FitsIn UInt32.size where
  functions := size_le_of_positions h.function_id
  globals := size_le_of_positions h.global_id
  blocks f hf := size_le_of_positions (h.body f hf).block_id
  insts f hf := size_le_of_positions (h.body f hf).inst_id

namespace Construction

lemma IsSound.module_fitsIn (h : c.IsSound) {n' : ℕ} (hfits : c.FitsIn n') :
    c.module.FitsIn n' := by
  have hbody (f : Function R) (hf : f ∈ c.module.functions) :
      f.blocks.size ≤ n' ∧ f.insts.size ≤ n' := by
    obtain ⟨k, hk⟩ := Array.mem_iff_getElem?.1 hf
    rcases h.source hk with ⟨hblocks, hinsts⟩ | ⟨n, x, hx, -, rfl⟩
    · simp [hblocks, hinsts]
    · exact ⟨(hfits.body hx).blocks, (hfits.body hx).insts⟩
  exact ⟨hfits.functions, hfits.globals, fun f hf => (hbody f hf).1, fun f hf => (hbody f hf).2⟩

/-- The module is wired if there are enough positions. -/
lemma IsSound.isWired (h : c.IsSound) (hfits : c.module.FitsIn UInt32.size) :
    c.module.IsWired where
  function_id k f hf := by
    rw [h.function_id hf]
    exact UInt32.toNat_ofNat_of_lt' ((Array.getElem?_eq_some_iff.1 hf).1.trans_le hfits.functions)
  global_id k g hg := by
    rw [h.global_id hg]
    exact UInt32.toNat_ofNat_of_lt' ((Array.getElem?_eq_some_iff.1 hg).1.trans_le hfits.globals)
  body f hf := by
    obtain ⟨k, hk⟩ := Array.mem_iff_getElem?.1 hf
    exact (h.isBuilt hk).isWired (hfits.blocks f hf) (hfits.insts f hf)

/-! ## What is answered -/

end Construction

/-- The answered position or operand denotes what has been made.  The position of a declaration or a
finished function is not the one of a body under construction. -/
def ModuleItem.IsIn (c : Construction R) : ModuleItem R → Prop
  | struct id name fields => c.module.struct? id = some ⟨name, fields⟩
  | global id name ty info => ∃ target, c.module.global? id = some ⟨id, name, ty, info, target⟩
  | declaration id name params retTy =>
    c.module.function? id = some (.declaration id name params retTy) ∧ ¬ c.IsOpen id
  | function id name retTy =>
    ∃ f, c.module.function? id = some f ∧ f.id = id ∧ f.name = name ∧ f.retTy = retTy
  | finished id f => c.module.function? id = some f ∧ ¬ c.IsOpen id
  | inBody n x => ∃ f, c.body? n = some f ∧ x.IsIn f

namespace Construction

/-- Positions and operands denote the same things as before. -/
structure Grows (c c' : Construction R) : Prop where
  struct : ∀ {id s}, c.module.struct? id = some s → c'.module.struct? id = some s
  global : ∀ {id g}, c.module.global? id = some g →
    ∃ target, c'.module.global? id = some { g with target := target }
  function : ∀ {id f}, c.module.function? id = some f →
    ∃ f', c'.module.function? id = some f' ∧ f'.id = f.id ∧ f'.name = f.name ∧ f'.retTy = f.retTy
  /-- A function whose body is not under construction stays as it is. -/
  final : ∀ {id f}, c.module.function? id = some f → ¬ c.IsOpen id →
    c'.module.function? id = some f ∧ ¬ c'.IsOpen id
  body : ∀ {n f}, c.body? n = some f → ∃ f', c'.body? n = some f' ∧ f.Grows f'

lemma Grows.refl (c : Construction R) : c.Grows c where
  struct h := h
  global h := ⟨_, h⟩
  function h := ⟨_, h, rfl, rfl, rfl⟩
  final h hopen := ⟨h, hopen⟩
  body h := ⟨_, h, .refl _⟩

end Construction

lemma ModuleItem.IsIn.mono {x : ModuleItem R} (h : x.IsIn c) (hc : c.Grows c') : x.IsIn c' := by
  cases x with
  | struct id name fields => exact hc.struct h
  | global id name ty info =>
    obtain ⟨target, hg⟩ := h
    exact hc.global hg
  | declaration id name params retTy => exact hc.final h.1 h.2
  | function id name retTy =>
    obtain ⟨f, hf, rfl, rfl, rfl⟩ := h
    exact hc.function hf
  | finished id f => exact hc.final h.1 h.2
  | inBody n x =>
    obtain ⟨f, hf, hx⟩ := h
    obtain ⟨f', hf', hgrows⟩ := hc.body hf
    exact ⟨f', hf', hx.mono hgrows⟩

namespace Construction

/-- What is answered tells things apart. -/
structure Denotes (c : Construction R) : Prop where
  /-- Bodies have different positions. -/
  distinct : ∀ {n n' : ℕ} {x x'}, c.bodies[n]? = some x → c.bodies[n']? = some x' →
    x.function.id = x'.function.id → n = n'
  /-- The position of a body is one of a function of its name and type. -/
  named : ∀ {n : ℕ} {x}, c.bodies[n]? = some x → ∃ f, c.module.function? x.function.id = some f ∧
    f.id = x.function.id ∧ f.name = x.function.name ∧ f.retTy = x.function.retTy
  /-- An installed body is at its position. -/
  installed : ∀ {n : ℕ} {x}, c.bodies[n]? = some x → x.isInstalled = true →
    c.module.function? x.function.id = some x.function
  /-- Everything that has been answered denotes what it was answered for. -/
  made : ∀ x ∈ c.made, x.IsIn c

lemma denotes_start (name : String) : (start name : Construction R).Denotes where
  distinct h := by cases h
  named h := by cases h
  installed h := by cases h
  made x hx := by cases hx

lemma Denotes.not_isOpen (h : c.Denotes) {n : ℕ} {x : Building R} (hx : c.bodies[n]? = some x)
    (hinstalled : x.isInstalled = true) : ¬ c.IsOpen x.function.id := by
  rintro ⟨k, y, hy, hopen, hid⟩
  obtain rfl := h.distinct hx hy hid.symm
  obtain rfl := Option.some.inj (hx.symm.trans hy)
  rw [hopen] at hinstalled
  cases hinstalled

/-- A position that is added for a function is not the one of a function before. -/
lemma ne_declared (hlt : c.module.functions.size < UInt32.size) {id : FunctionId} {f : Function R}
    (hf : c.module.function? id = some f) : id ≠ ⟨UInt32.ofNat c.module.functions.size⟩ := by
  rintro rfl
  have hsize := (Array.getElem?_eq_some_iff.1 hf).1
  rw [UInt32.toNat_ofNat_of_lt' hlt] at hsize
  exact hsize.ne rfl

lemma function?_declared (hlt : c.module.functions.size < UInt32.size) (name : String)
    (params : Array (Param R)) (retTy : Ty) :
    (c.builder.declare name params retTy).2.module.function?
        ⟨UInt32.ofNat c.module.functions.size⟩
      = some (.declaration ⟨UInt32.ofNat c.module.functions.size⟩ name params retTy) := by
  change (c.module.functions.push _)[(UInt32.ofNat c.module.functions.size).toNat]? = _
  rw [UInt32.toNat_ofNat_of_lt' hlt, Array.getElem?_push_size]

lemma lt_of_size_push_le {α : Type} {xs : Array α} {x : α} (h : (xs.push x).size ≤ UInt32.size) :
    xs.size < UInt32.size :=
  Nat.lt_of_lt_of_le (Nat.lt_succ_self _) ((Array.size_push ..).symm.trans_le h)

/-- A body is begun at a new position. -/
lemma grows_function {name : String} {retTy : Ty}
    (hlt : c.module.functions.size < UInt32.size) : c.Grows (c.step (.function name retTy)) where
  struct hs := hs
  global hg := ⟨_, hg⟩
  function hf := ⟨_, function?_declare_of_eq_some _ _ _ hf, rfl, rfl, rfl⟩
  final hf hopen := by
    refine ⟨function?_declare_of_eq_some _ _ _ hf, ?_⟩
    rintro ⟨n, x, hx, hx', hid⟩
    change (c.bodies.push _)[n]? = some x at hx
    rw [Array.getElem?_push] at hx
    split at hx
    · cases hx
      exact ne_declared hlt hf hid.symm
    · exact hopen ⟨n, x, hx, hx', hid⟩
  body {n f} hf := by
    obtain ⟨x, hx, rfl⟩ := Option.map_eq_some_iff.1 hf
    exact ⟨_, congrArg _ (getElem?_push_of_eq_some hx _), .refl _⟩

/-- A call for a body that is under construction concerns this body only. -/
lemma grows_body {n : ℕ} {x : Building R} (hx : c.bodies[n]? = some x)
    (hopen : x.isInstalled = false) (call : BodyCall R) : c.Grows (c.step (.body n call)) := by
  rw [step_body hx]
  refine
    { Grows.refl c with
      final := fun {id f} hf hnot => ⟨hf, ?_⟩
      body := fun hf => exists_body?_modify hx (x.builder.grows_apply call) hf }
  rintro ⟨k, y, hy, hy', hid⟩
  obtain ⟨rfl, rfl⟩ | ⟨-, hy⟩ := of_getElem?_modify hx hy
  · exact hnot ⟨k, x, hx, hopen, (x.builder.grows_apply call).id.symm.trans hid⟩
  · exact hnot ⟨k, y, hy, hy', hid⟩

/-- A finished body takes the place of its declaration, and all else stays. -/
lemma grows_define (h : c.IsSound) (hd : c.Denotes) {n : ℕ} {x : Building R}
    (hx : c.bodies[n]? = some x) (hopen : x.isInstalled = false) :
    c.Grows (c.step (.define n)) where
  struct hs := by rwa [step_define hx]
  global hg := ⟨_, by rwa [step_define hx]⟩
  function {id f} hf := by
    rw [function?_define hx h]
    split
    · next hid =>
      obtain ⟨f', hf', hid', hname, hty⟩ := hd.named hx
      rw [hid, hf'] at hf
      cases hf
      exact ⟨_, rfl, hid'.symm, hname.symm, hty.symm⟩
    · exact ⟨f, hf, rfl, rfl, rfl⟩
  final {id f} hf hnot := by
    constructor
    · rw [function?_define hx h, if_neg]
      · exact hf
      · rintro rfl
        exact hnot ⟨n, x, hx, hopen, rfl⟩
    · rw [step_define hx]
      rintro ⟨k, y, hy, hy', hid⟩
      obtain ⟨rfl, rfl⟩ | ⟨-, hy⟩ := of_getElem?_modify hx hy
      · cases hy'
      · exact hnot ⟨k, y, hy, hy', hid⟩
  body hf := by
    rw [step_define hx]
    exact exists_body?_modify hx (.refl _) hf

section Step

variable (h : c.IsSound) (hd : c.Denotes) (hfits : (c.step call).FitsIn UInt32.size)

include h hd hfits

/-- Whatever is called, positions and operands denote the same things as before. -/
lemma grows_step (hcall : c.IsProper call) : c.Grows (c.step call) := by
  cases call with
  | struct name fields =>
    exact { Grows.refl c with struct := fun hs => getElem?_push_of_eq_some hs _ }
  | global name ty info =>
    exact { Grows.refl c with global := fun hg => ⟨_, getElem?_push_of_eq_some hg _⟩ }
  | globalTarget id label =>
    exact
      { Grows.refl c with
        global := fun {id' g} hg => by
          change ∃ target, (c.module.globals.modify _ _)[id'.val.toNat]? = _
          rw [Array.getElem?_modify, show c.module.globals[id'.val.toNat]? = some g from hg]
          split
          · exact ⟨some label, rfl⟩
          · exact ⟨g.target, rfl⟩ }
  | declare name params retTy =>
    exact
      { Grows.refl c with
        function := fun hf => ⟨_, function?_declare_of_eq_some _ _ _ hf, rfl, rfl, rfl⟩
        final := fun hf hopen => ⟨function?_declare_of_eq_some _ _ _ hf, hopen⟩ }
  | function name retTy => exact grows_function (lt_of_size_push_le hfits.functions)
  | body n call =>
    obtain ⟨x, hx, hopen, -⟩ := hcall
    exact grows_body hx hopen call
  | define n =>
    obtain ⟨x, hx, hopen⟩ := hcall
    exact grows_define h hd hx hopen

/-- What a call answers denotes what the call has made. -/
lemma mem_made_or_isIn (hcall : c.IsProper call) {item : ModuleItem R}
    (hitem : item ∈ (c.step call).made) : item ∈ c.made ∨ item.IsIn (c.step call) := by
  cases call with
  | struct name fields =>
    refine (List.mem_append.1 hitem).imp_right fun hnew => ?_
    obtain rfl := List.mem_singleton.1 hnew
    change (c.module.structs.push _)[(UInt32.ofNat c.module.structs.size).toNat]? = _
    rw [UInt32.toNat_ofNat_of_lt' (lt_of_size_push_le hfits.structs), Array.getElem?_push_size]
  | global name ty info =>
    refine (List.mem_append.1 hitem).imp_right fun hnew => ?_
    obtain rfl := List.mem_singleton.1 hnew
    refine ⟨none, ?_⟩
    change (c.module.globals.push _)[(UInt32.ofNat c.module.globals.size).toNat]? = _
    rw [UInt32.toNat_ofNat_of_lt' (lt_of_size_push_le hfits.globals), Array.getElem?_push_size]
  | globalTarget id label => exact Or.inl hitem
  | declare name params retTy =>
    have hlt := lt_of_size_push_le hfits.functions
    refine (List.mem_append.1 hitem).imp_right fun hnew => ?_
    obtain rfl := List.mem_singleton.1 hnew
    refine ⟨function?_declared hlt name params retTy, ?_⟩
    rintro ⟨n, x, hx, -, hid⟩
    obtain ⟨f, hf⟩ := Option.isSome_iff_exists.1 (h.slot hx)
    exact ne_declared hlt hf hid
  | function name retTy =>
    refine (List.mem_append.1 hitem).imp_right fun hnew => ?_
    obtain rfl := List.mem_singleton.1 hnew
    exact ⟨_, function?_declared (lt_of_size_push_le hfits.functions) name #[] retTy, rfl, rfl, rfl⟩
  | body n call =>
    obtain ⟨x, hx, -, -⟩ := hcall
    rw [step_body hx] at hitem hfits ⊢
    refine (List.mem_append.1 hitem).imp_right fun hnew => ?_
    obtain ⟨y, hy, rfl⟩ := Option.map_eq_some_iff.1 (Option.mem_toList.1 hnew)
    refine ⟨(x.builder.apply call).function, ?_, ?_⟩
    · rw [body?, getElem?_modify_self hx]
      rfl
    · exact FunctionBuilder.isIn_of_added? hy (hfits.body (getElem?_modify_self hx))
  | define n =>
    obtain ⟨x, hx, -⟩ := hcall
    have hgrown := function?_define hx h x.function.id
    rw [if_pos rfl] at hgrown
    rw [step_define hx] at hitem hgrown ⊢
    refine (List.mem_append.1 hitem).imp_right fun hnew => ?_
    obtain rfl := List.mem_singleton.1 hnew
    refine ⟨hgrown, ?_⟩
    rintro ⟨k, y, hy, hopen, hid⟩
    obtain ⟨rfl, rfl⟩ | ⟨hk, hy⟩ := of_getElem?_modify hx hy
    · cases hopen
    · exact hk (hd.distinct hy hx hid)

end Step

/-- Bodies that grow and are installed keep apart what they kept apart before. -/
lemma Denotes.of_bodies (hd : c.Denotes) (hgrows : c.Grows c')
    (hbody : ∀ (n : ℕ) (y : Building R), c'.bodies[n]? = some y → ∃ x, c.bodies[n]? = some x ∧
      x.function.Grows y.function ∧ (y.isInstalled = true →
        x.isInstalled = true ∧ y.function = x.function ∨
          c'.module.function? y.function.id = some y.function))
    (hmade : ∀ item ∈ c'.made, item ∈ c.made ∨ item.IsIn c') : c'.Denotes where
  distinct hy hy' hid := by
    obtain ⟨x, hx, hxy, -⟩ := hbody _ _ hy
    obtain ⟨x', hx', hxy', -⟩ := hbody _ _ hy'
    exact hd.distinct hx hx' (hxy.id.symm.trans (hid.trans hxy'.id))
  named hy := by
    obtain ⟨x, hx, hxy, -⟩ := hbody _ _ hy
    obtain ⟨f, hf, hid, hname, hty⟩ := hd.named hx
    obtain ⟨f', hf', hid', hname', hty'⟩ := hgrows.function hf
    rw [hxy.id, hxy.name, hxy.retTy]
    exact ⟨f', hf', hid'.trans hid, hname'.trans hname, hty'.trans hty⟩
  installed hy hinstalled := by
    obtain ⟨x, hx, -, hcases⟩ := hbody _ _ hy
    rcases hcases hinstalled with ⟨hx', heq⟩ | hfound
    · rw [heq]
      exact (hgrows.final (hd.installed hx hx') (hd.not_isOpen hx hx')).1
    · exact hfound
  made item hitem := (hmade item hitem).elim (fun hold => (hd.made item hold).mono hgrows) id

/-- A body that is begun is kept apart from the others. -/
lemma Denotes.begin (h : c.IsSound) (hd : c.Denotes) {name : String} {retTy : Ty}
    (hfits : (c.step (.function name retTy)).FitsIn UInt32.size) :
    (c.step (.function name retTy)).Denotes := by
  have hlt := lt_of_size_push_le hfits.functions
  have hgrows := grows_step h hd hfits trivial
  have hbody {n : ℕ} {y : Building R} (hy : (c.step (.function name retTy)).bodies[n]? = some y) :
      n = c.bodies.size ∧
          y = ⟨.start ⟨UInt32.ofNat c.module.functions.size⟩ name retTy, false⟩ ∨
        c.bodies[n]? = some y := by
    change (c.bodies.push _)[n]? = some y at hy
    rw [Array.getElem?_push] at hy
    split at hy
    · next hn => exact Or.inl ⟨hn, (Option.some.inj hy).symm⟩
    · exact Or.inr hy
  refine ⟨fun hy hy' hid => ?_, fun hy => ?_, fun hy hinstalled => ?_, fun item hitem => ?_⟩
  · obtain ⟨rfl, rfl⟩ | hy := hbody hy
    · obtain ⟨rfl, rfl⟩ | hy' := hbody hy'
      · rfl
      · obtain ⟨f, hf, -⟩ := hd.named hy'
        exact absurd hid.symm (ne_declared hlt hf)
    · obtain ⟨rfl, rfl⟩ | hy' := hbody hy'
      · obtain ⟨f, hf, -⟩ := hd.named hy
        exact absurd hid (ne_declared hlt hf)
      · exact hd.distinct hy hy' hid
  · obtain ⟨-, rfl⟩ | hy := hbody hy
    · exact ⟨_, function?_declared hlt name #[] retTy, rfl, rfl, rfl⟩
    · obtain ⟨f, hf, hid, hname, hty⟩ := hd.named hy
      obtain ⟨f', hf', hid', hname', hty'⟩ := hgrows.function hf
      exact ⟨f', hf', hid'.trans hid, hname'.trans hname, hty'.trans hty⟩
  · obtain ⟨-, rfl⟩ | hy := hbody hy
    · cases hinstalled
    · exact (hgrows.final (hd.installed hy hinstalled) (hd.not_isOpen hy hinstalled)).1
  · exact (mem_made_or_isIn h hd hfits trivial hitem).elim
      (fun hold => (hd.made item hold).mono hgrows) id

/-- Whatever is called, what is answered tells things apart. -/
lemma Denotes.step (hd : c.Denotes) (h : c.IsSound) (hfits : (c.step call).FitsIn UInt32.size)
    (hcall : c.IsProper call) : (c.step call).Denotes := by
  have hgrows := grows_step h hd hfits hcall
  have hmade : ∀ item ∈ (c.step call).made, item ∈ c.made ∨ item.IsIn (c.step call) :=
    fun item hitem => mem_made_or_isIn h hd hfits hcall hitem
  have hsame (n : ℕ) (y : Building R) (hy : c.bodies[n]? = some y) :
      ∃ x, c.bodies[n]? = some x ∧ x.function.Grows y.function ∧ (y.isInstalled = true →
        x.isInstalled = true ∧ y.function = x.function ∨
          (c.step call).module.function? y.function.id = some y.function) :=
    ⟨y, hy, .refl _, fun hinstalled => Or.inl ⟨hinstalled, rfl⟩⟩
  cases call with
  | struct | global | globalTarget | declare => exact hd.of_bodies hgrows hsame hmade
  | function name retTy => exact hd.begin h hfits
  | body n call =>
    obtain ⟨x, hx, hopen, -⟩ := hcall
    refine hd.of_bodies hgrows (fun k y hy => ?_) hmade
    rw [step_body hx] at hy
    obtain ⟨rfl, rfl⟩ | ⟨-, hy⟩ := of_getElem?_modify hx hy
    · refine ⟨x, hx, x.builder.grows_apply call, fun hinstalled => ?_⟩
      rw [hopen] at hinstalled
      cases hinstalled
    · exact hsame k y hy
  | define n =>
    obtain ⟨x, hx, -⟩ := hcall
    refine hd.of_bodies hgrows (fun k y hy => ?_) hmade
    rw [step_define hx] at hy
    obtain ⟨rfl, rfl⟩ | ⟨-, hy⟩ := of_getElem?_modify hx hy
    · exact ⟨x, hx, .refl _, fun _ => Or.inr ((function?_define hx h _).trans (if_pos rfl))⟩
    · exact hsame k y hy

/-! ## All calls -/

/-- What is built by calls is complete. -/
structure IsComplete (c : Construction R) : Prop where
  /-- The module is valid. -/
  valid : c.module.validate = .ok ()
  /-- Every position and every operand that was answered denotes what it was answered for. -/
  denotes : ∀ x ∈ c.made, x.IsIn c
  /-- An installed body is a function of the module. -/
  installed : ∀ {n : ℕ} {x}, c.bodies[n]? = some x → x.isInstalled = true →
    c.module.function? x.function.id = some x.function
  /-- A block lists the instructions that were pushed into it, in the order in which they were. -/
  listed : ∀ {n f}, c.body? n = some f → ∀ b ∈ f.blocks,
    b.insts = ((c.pushes n).filter fun p => p.2 = b.id).map Prod.fst
  /-- The instructions that were pushed are listed by their blocks, and none of them twice. -/
  once : ∀ {n f}, c.body? n = some f → f.ListedOnce ∧
    ∀ p ∈ c.pushes n, ∃ b, f.block? p.2 = some b ∧ p.1 ∈ b.insts

lemma IsSound.run (h : c.IsSound) (hcalls : c.Allows calls) : (c.run calls).IsSound := by
  induction calls generalizing c with
  | nil => exact h
  | cons call calls ih => exact ih (h.step hcalls.1) hcalls.2

lemma Denotes.run (hd : c.Denotes) (h : c.IsSound) (hcalls : c.Allows calls)
    (hfits : (c.run calls).FitsIn UInt32.size) : (c.run calls).Denotes := by
  induction calls generalizing c with
  | nil => exact hd
  | cons call calls ih =>
    have hstep : (c.step call).FitsIn UInt32.size := FitsIn.of_run hfits
    exact ih (hd.step h hstep hcalls.1) (h.step hcalls.1) hcalls.2 hfits

/-- A module that has been built is valid exactly if there are enough positions for what is in it. -/
theorem validate_run_iff (name : String) (hcalls : (start name).Allows calls) :
    ((start name).run calls).module.validate = .ok () ↔
      ((start name).run calls).module.FitsIn UInt32.size := by
  rw [Module.validate_eq_ok_iff]
  exact ⟨Module.IsWired.fitsIn, ((isSound_start name).run hcalls).isWired⟩

/-- **Modules are built as they should be**, whatever is called and in whatever order, as long as
there are no more things of a kind than positions. -/
theorem isComplete_run (name : String) (calls : List (ModuleCall R))
    (hcalls : (start name).Allows calls) (hfits : ((start name).run calls).FitsIn UInt32.size) :
    ((start name).run calls).IsComplete := by
  have h := (isSound_start name).run hcalls
  have hd := (denotes_start name).run (isSound_start name) hcalls hfits
  have hpushes {n : ℕ} {f : Function R} (hf : ((start name).run calls).body? n = some f) :
      ((start name).run calls).pushes n = f.placements := by
    rw [h.pushes n, hf]
    rfl
  refine ⟨(validate_run_iff name hcalls).2 (h.module_fitsIn hfits), hd.made, hd.installed,
    fun {n f} hf b hb => ?_, fun {n f} hf => ?_⟩
  · obtain ⟨x, hx, rfl⟩ := Option.map_eq_some_iff.1 hf
    obtain ⟨k, hk⟩ := Array.mem_iff_getElem?.1 hb
    rw [hpushes hf]
    exact (h.body hx).built.insts_eq (hfits.body hx).blocks hk
  · obtain ⟨x, hx, rfl⟩ := Option.map_eq_some_iff.1 hf
    refine ⟨(h.body hx).built.listedOnce (hfits.body hx).insts, fun p hp => ?_⟩
    rw [hpushes hf] at hp
    exact (h.body hx).built.exists_block hp

/-! ### Two bodies at the same time -/

namespace Interleaved

/-- The calls build a function with a loop and another one that calls it.  The second value of the
phi is added when the loop has been built, and the first block gets its instruction last. -/
def script : List (ModuleCall ℝ) :=
  [.struct "pair" [.float 64, .float 64],
    .global "origin" (.struct ⟨0⟩) none,
    .function "main" .void,
    .function "count" (.int 32),
    .body 1 (.param "n" (.int 32) none),
    .body 0 (.push "r" (.int 32) (.call (.direct ⟨1⟩) [.constInt 3])),
    .body 1 (.block "entry"),
    .body 1 (.block "loop"),
    .body 1 (.positionAt ⟨1⟩),
    .body 1 (.push "i" (.int 32) (.phi [(.constInt 0, ⟨0⟩)])),
    .body 0 (.push "" .void (.ret none)),
    .define 0,
    .body 1 (.push "" .void (.condBr .undef ⟨1⟩ ⟨0⟩)),
    .body 1 (.incoming (.inst ⟨0⟩) (.inst ⟨0⟩) ⟨1⟩),
    .body 1 (.positionAt ⟨0⟩),
    .body 1 (.push "" .void (.br ⟨1⟩)),
    .define 1]

lemma allows_script : (start "m").Allows script := by
  refine ⟨trivial, trivial, trivial, trivial, ⟨_, rfl, rfl, trivial⟩, ⟨_, rfl, rfl, ?call⟩,
    ⟨_, rfl, rfl, trivial⟩, ⟨_, rfl, rfl, trivial⟩, ⟨_, rfl, rfl, rfl⟩, ⟨_, rfl, rfl, ?phi⟩,
    ⟨_, rfl, rfl, nofun, nofun, nofun⟩, ⟨_, rfl, rfl⟩, ⟨_, rfl, rfl, ?condBr, nofun, nofun⟩,
    ⟨_, rfl, rfl, rfl⟩, ⟨_, rfl, rfl, rfl⟩, ⟨_, rfl, rfl, ?br, nofun, nofun⟩,
      ⟨_, rfl, rfl⟩, trivial⟩
  case call => exact ⟨nofun, nofun, fun id args hcall => by cases hcall; rfl⟩
  case phi =>
    exact ⟨nofun, fun vs hvs e he => by cases hvs; cases List.mem_singleton.1 he; rfl, nofun⟩
  case condBr =>
    intro b hb
    rcases List.mem_pair.1 hb with rfl | rfl <;> rfl
  case br =>
    intro b hb
    obtain rfl := List.mem_singleton.1 hb
    rfl

/-- The module is complete. -/
theorem isComplete_script :
    (start "m").Allows script ∧ ((start "m").run script).FitsIn UInt32.size ∧
      ((start "m").run script).IsComplete := by
  have hfits := (fitsIn_run_start "m" script).mono (by decide : script.length ≤ UInt32.size)
  exact ⟨allows_script, hfits, isComplete_run "m" script allows_script hfits⟩

end Interleaved

end Construction

end Roundoff
