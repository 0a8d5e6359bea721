/-
# Pointers that rest on other pointers

The element that a pointer points to is found by walking back along the address computations and
loads from which it comes.  The walk collects the indices from the end of the path to its beginning,
and it is given up after more steps than there are instructions, since pointers may be computed in a
circle.

Neither shows in the result.  The walk makes the turns of a chase along the chain of addresses, so
the bound stops only walks that would never end.  So the path of an address computation is the path
of the pointer on which it rests, continued by its own indices, and the same holds of every chain of
computations and loads, whether it ends at an object or at a formal parameter that is bound to a
path of the caller.
-/
import Mathlib
import Roundoff.Proofs.Analysis.Beginnings
import Roundoff.Proofs.Memory.Address
import Roundoff.Proofs.Memory.Chase

namespace Roundoff

variable {R : Type} {m : Module R} {f : Function R} {o : Objects R} {v base u : Value R}
  {steps below : List PathIndex} {n : ℕ} {p : FieldPath} {id : InstId} {i : Instruction R}
  {indices : List (Value R)}

lemma FieldPath.append_append (p : FieldPath) (steps below : List PathIndex) :
    (p.append steps).append below = p.append (steps ++ below) := by
  rw [append, append, append, List.append_assoc]

/-- The steps that an address computation makes into an element: its first index moves the pointer
on which it rests, and the other ones go down. -/
def stepsOf (indices : List (Value R)) : List PathIndex := (indices.drop 1).map PathIndex.of

/-- `f.DerivesFrom base v steps`: the pointer `v` comes from the pointer `base` by address
computations and loads, which make the given steps. -/
inductive Function.DerivesFrom (f : Function R) (base : Value R) : Value R → List PathIndex → Prop
  /-- The pointer itself. -/
  | refl : DerivesFrom f base base []
  /-- An address computation goes down. -/
  | element {id : InstId} {i : Instruction R} {v : Value R} {indices : List (Value R)}
      {steps : List PathIndex} (hi : f.inst? id = some i) (hop : i.op = .element v indices)
      (hv : DerivesFrom f base v steps) : DerivesFrom f base (.inst id) (steps ++ stepsOf indices)
  /-- What is loaded is taken to point to where the pointer itself points to. -/
  | load {id : InstId} {i : Instruction R} {v : Value R} {steps : List PathIndex}
      (hi : f.inst? id = some i) (hop : i.op = .load v) (hv : DerivesFrom f base v steps) :
      DerivesFrom f base (.inst id) steps

namespace Objects

/-! ## One step of a walk -/

/-- A walk ends at a value, with or without a path, or it goes on from another one. -/
inductive WalkStep (o : Objects R) (m : Module R) (f : Function R) (v : Value R) : Prop
  | ends (r : Option FieldPath)
      (h : ∀ n below, o.walk? m f (n + 1) below v = r.map fun p => p.append below)
  | continues (u : Value R) (steps : List PathIndex)
      (hnext : ∀ n below, o.walk? m f (n + 1) below v = o.walk? m f n (steps ++ below) u)

lemma walk?_element (hi : f.inst? id = some i) (hop : i.op = .element base indices) :
    o.walk? m f (n + 1) below (.inst id) = o.walk? m f n (stepsOf indices ++ below) base := by
  simp only [walk?, hi, Option.map_some, hop, stepsOf]

lemma walk?_load (hi : f.inst? id = some i) (hop : i.op = .load base) :
    o.walk? m f (n + 1) below (.inst id) = o.walk? m f n below base := by
  simp only [walk?, hi, Option.map_some, hop]

lemma walkStep (o : Objects R) (m : Module R) (f : Function R) (v : Value R) :
    WalkStep o m f v := by
  cases v with
  | inst id =>
    cases hi : f.inst? id with
    | none => exact .ends none fun n below => by simp only [walk?, hi, Option.map_none]
    | some i =>
      cases hop : i.op with
      | element base indices =>
        exact .continues base (stepsOf indices) fun _ _ => walk?_element hi hop
      | load ptr => exact .continues ptr [] fun _ _ => walk?_load hi hop
      | alloca ty =>
        cases ty with
        | struct ty =>
          exact .ends (some ⟨.inst f.id id, ty, []⟩) fun n below => by
            simp [walk?, hi, hop, FieldPath.append]
        | _ => exact .ends none fun n below => by simp [walk?, hi, hop]
      | _ => exact .ends none fun n below => by simp [walk?, hi, hop]
  | arg index => exact .ends (o.formalPath? f index) fun _ _ => rfl
  | global id =>
    refine .ends (((m.global? id).bind fun g => g.ty.struct?).map fun ty => ⟨.global id, ty, []⟩)
      fun n below => ?_
    rw [walk?, Option.map_map]
    rfl
  | function | constInt | constFloat | undef => exact .ends none fun _ _ => rfl

/-! ## Walks -/

/-- The steps below a pointer are appended to the path that is found for it. -/
lemma walk?_eq_map (n : ℕ) (below : List PathIndex) (v : Value R) :
    o.walk? m f n below v = (o.walk? m f n [] v).map fun p => p.append below := by
  induction n generalizing below v with
  | zero => rfl
  | succ n ih =>
    cases walkStep o m f v with
    | ends r h =>
      rw [h, h]
      simp
    | continues u steps hnext =>
      rw [hnext, hnext, ih (steps ++ below), ih (steps ++ []), Option.map_map]
      simp [Function.comp_def, FieldPath.append_append]

/-- One turn of the walk to the element that a pointer points to, given the steps below it. -/
def turn (o : Objects R) (m : Module R) (f : Function R) :
    Value R × List PathIndex → Option FieldPath ⊕ Value R × List PathIndex
  | (.inst id, below) =>
    match (f.inst? id).map Instruction.op with
    | some (.element base indices) => .inr (base, stepsOf indices ++ below)
    | some (.load ptr) => .inr (ptr, below)
    | some (.alloca (.struct ty)) => .inl (some ⟨.inst f.id id, ty, below⟩)
    | _ => .inl none
  | (.arg index, below) => .inl ((o.formalPath? f index).map fun p => p.append below)
  | (.global id, below) =>
    .inl (((m.global? id).bind fun g => g.ty.struct?).map fun ty => ⟨.global id, ty, below⟩)
  | _ => .inl none

lemma walk?_eq_run? (n : ℕ) (below : List PathIndex) (v : Value R) :
    o.walk? m f n below v = (Chase.run? (o.turn m f) n (v, below)).getD none := by
  induction n generalizing below v with
  | zero => rfl
  | succ n ih =>
    cases v with
    | inst id =>
      cases hi : f.inst? id with
      | none => simp only [walk?, Chase.run?, turn, hi, Option.map_none, Option.getD_some]
      | some i =>
        cases hop : i.op with
        | alloca ty =>
          cases ty <;> simp only
            [walk?, Chase.run?, turn, hi, hop, Option.map_some, Option.getD_some]
        | _ =>
          simp only [walk?, Chase.run?, turn, hi, hop, Option.map_some, Option.getD_some, ih,
            stepsOf]
    | _ => rfl

lemma tracks_turn : Chase.Tracks (o.turn m f) Prod.fst (f.behind? Instruction.pointer?) := by
  rintro ⟨v, below⟩
  cases v with
  | inst id =>
    cases hi : f.inst? id with
    | none => simp [turn, hi]
    | some i =>
      cases hop : i.op with
      | alloca ty => cases ty <;> simp [turn, hi, hop, Instruction.pointer?]
      | _ => simp [turn, hi, hop, Instruction.pointer?]
  | _ => rfl

/-- **The bound of a walk is no restriction**: with more steps the same paths are found. -/
theorem walk?_eq_resolve? (h : f.insts.size + 1 ≤ n) :
    o.walk? m f n [] v = o.resolve? m f v := by
  have htracks : Chase.Tracks (o.turn m f) _ _ := tracks_turn
  rw [resolve?, walk?_eq_run?, walk?_eq_run?, htracks.run?_eq_run?
    (fun _ _ => Function.mem_results_of_behind?) (f.card_results_le.trans_lt h)
    (f.card_results_le.trans_lt (Nat.lt_add_of_pos_right two_pos))]

/-! ## Pointers that come from other pointers -/

lemma resolve?_element (hi : f.inst? id = some i) (hop : i.op = .element base indices) :
    o.resolve? m f (.inst id) = (o.resolve? m f base).map fun p => p.append (stepsOf indices) := by
  rw [resolve?, walk?_element hi hop, walk?_eq_map, List.append_nil, walk?_eq_resolve? le_rfl]

lemma resolve?_load (hi : f.inst? id = some i) (hop : i.op = .load base) :
    o.resolve? m f (.inst id) = o.resolve? m f base := by
  rw [resolve?, walk?_load hi hop, walk?_eq_resolve? le_rfl]

/-- A pointer that comes from another one leads to an element below the one of the other. -/
lemma resolve?_of_derivesFrom (h : f.DerivesFrom base v steps) :
    o.resolve? m f v = (o.resolve? m f base).map fun p => p.append steps := by
  induction h with
  | refl => simp
  | element hi hop _ ih =>
    rw [resolve?_element hi hop, ih, Option.map_map]
    simp [Function.comp_def, FieldPath.append_append]
  | load hi hop _ ih => rw [resolve?_load hi hop, ih]

/-- **Paths compose.**  An address computation leads to the element below the one of the pointer on
which it rests, with its own indices after the others, if that pointer leads to an element, and
nowhere otherwise.  A load leads to where its address leads.  Where a formal parameter is bound to a
path of the caller, whatever is computed and loaded from it leads to an element below that path.

Pointers that are computed in a circle are no exception, since they lead nowhere. -/
theorem resolve?_composes (o : Objects R) (m : Module R) (f : Function R) :
    (∀ id i base indices, f.inst? id = some i → i.op = .element base indices →
      o.resolve? m f (.inst id) = (o.resolve? m f base).map fun p =>
        ⟨p.root, p.ty, p.indices ++ (indices.drop 1).map PathIndex.of⟩) ∧
    (∀ id i ptr, f.inst? id = some i → i.op = .load ptr →
      o.resolve? m f (.inst id) = o.resolve? m f ptr) ∧
    ∀ index path v steps, o.bindings.get? (.arg f.id index) = some path →
      f.DerivesFrom (.arg index) v steps →
      o.resolve? m f v = some ⟨path.root, path.ty, path.indices ++ steps⟩ := by
  refine ⟨fun id i base indices hi hop => resolve?_element hi hop,
    fun id i ptr hi hop => resolve?_load hi hop, fun index path v steps hpath hv => ?_⟩
  rw [resolve?_of_derivesFrom hv, resolve?_arg, formalPath?_of_get? hpath]
  rfl

/-! ### A row of a table -/

namespace TableRow

/-- An instruction of the function below. -/
def instruction (id : InstId) (op : Operation ℝ) : Instruction ℝ :=
  ⟨id, ⟨0⟩, "", .pointer (.float 64), op, none, none⟩

/-- A function that is passed a row and the number of a column. -/
def function : Function ℝ where
  id := ⟨1⟩
  name := "visitRow"
  params := #[⟨"row", .pointer (.struct ⟨0⟩), none⟩, ⟨"column", .int 32, none⟩]
  retTy := .void
  blocks := #[⟨⟨0⟩, "entry", [⟨0⟩, ⟨1⟩, ⟨2⟩], none, none⟩]
  insts := #[instruction ⟨0⟩ (.element (.arg 0) [.constInt 0, .constInt 1]),
    instruction ⟨1⟩ (.load (.inst ⟨0⟩)),
    instruction ⟨2⟩ (.element (.inst ⟨1⟩) [.constInt 0, .arg 1])]
  maxRecursion := none
  entryPoint := false

/-- The row is the third one of a table that the caller keeps in a slot. -/
def objects : Objects ℝ :=
  ⟨∅, Table.ofList [(.arg ⟨1⟩ 0, ⟨.inst ⟨0⟩ ⟨4⟩, ⟨1⟩, [.const 0, .const 2]⟩)]⟩

/-- The last address leads to the column of the row, below the slot of the caller. -/
theorem resolve?_column :
    objects.resolve? (.empty "m") function (.inst ⟨2⟩)
        = (objects.resolve? (.empty "m") function (.inst ⟨1⟩)).map
            (fun p => ⟨p.root, p.ty, p.indices ++ [.dynamic]⟩) ∧
      objects.resolve? (.empty "m") function (.inst ⟨1⟩)
        = objects.resolve? (.empty "m") function (.inst ⟨0⟩) ∧
      objects.resolve? (.empty "m") function (.inst ⟨2⟩)
        = some ⟨.inst ⟨0⟩ ⟨4⟩, ⟨1⟩, [.const 0, .const 2, .const 1, .dynamic]⟩ := by
  obtain ⟨helement, hload, hbound⟩ := resolve?_composes objects (.empty "m") function
  have hrow : function.DerivesFrom (.arg 0) (.inst ⟨0⟩)
    ([] ++ stepsOf [.constInt 0, .constInt 1]) :=
    .element rfl rfl .refl
  have hcolumn : function.DerivesFrom (.arg 0) (.inst ⟨2⟩)
      ([] ++ stepsOf [.constInt 0, .constInt 1] ++ stepsOf [.constInt 0, .arg 1]) :=
    .element rfl rfl (.load rfl rfl hrow)
  exact ⟨helement ⟨2⟩ _ (.inst ⟨1⟩) [.constInt 0, .arg 1] rfl rfl,
    hload ⟨1⟩ _ (.inst ⟨0⟩) rfl rfl, hbound 0 _ _ _ rfl hcolumn⟩

end TableRow

end Objects

end Roundoff
