/-
# Keeping pointers apart

An address computation moves the pointer from which it starts by its first index, and goes down into
the element there by the other ones.  The relation `Function.Points` says so: it leads from a
pointer to an object and to the indices of an element in it.  As long as all indices are within
bounds, two pointers into one object lead to the same place only if their indices do not part ways.

The origin of a pointer lists these indices as far as they are constant, provided that an address
computation that rests on another one does not move its pointer.  So under this condition pointers
that may lead to the same place are never kept apart.  Without it they may be.
-/
import Mathlib
import Roundoff.Memory.Origin

namespace Roundoff

variable {R : Type}

/-! ## Places -/

/-- Move to the element that lies the given number of elements behind
the one to which a path leads. -/
def movePath (k : ℤ) : List ℤ → List ℤ
  | [] => []
  | [x] => [x + k]
  | x :: y :: p => x :: movePath k (y :: p)

/-- Two paths below one object part ways. -/
inductive PartWays : List ℤ → List ℤ → Prop
  | here {x y : ℤ} {p q : List ℤ} (h : x ≠ y) : PartWays (x :: p) (y :: q)
  | there {x y : ℤ} {p q : List ℤ} (h : PartWays p q) : PartWays (x :: p) (y :: q)

/-- `f.Points value v root p`: where operands have the given integer values, the pointer `v` leads
to the element of the object `root` at the end of the path `p`.  The object itself is taken to be
the first and only element of an array. -/
inductive Function.Points (f : Function R) (value : Value R → ℤ) :
    Value R → MemoryRoot → List ℤ → Prop
  /-- A stack slot. -/
  | alloca {id : InstId} {i : Instruction R} {ty : Ty} (hi : f.inst? id = some i)
      (hop : i.op = .alloca ty) : Points f value (.inst id) (.alloca id) [0]
  /-- A global variable. -/
  | global (g : GlobalId) : Points f value (.global g) (.global g) [0]
  /-- A conversion keeps the address. -/
  | cast {id : InstId} {i : Instruction R} {op : CastOp} {v : Value R} {root : MemoryRoot}
      {p : List ℤ}
      (hi : f.inst? id = some i) (hop : i.op = .cast op v) (hv : Points f value v root p) :
      Points f value (.inst id) root p
  /-- An address computation moves by the first index and goes down by the others. -/
  | element {id : InstId} {i : Instruction R} {base first : Value R} {steps : List (Value R)}
      {root : MemoryRoot} {p : List ℤ} (hi : f.inst? id = some i)
      (hop : i.op = .element base (first :: steps)) (hbase : Points f value base root p) :
      Points f value (.inst id) root (movePath (value first) p ++ steps.map value)

/-- The pointer is the result of an address computation, or of a conversion of one. -/
inductive Function.IsComputed (f : Function R) : Value R → Prop
  | element {id : InstId} {i : Instruction R} {base : Value R} {indices : List (Value R)}
      (hi : f.inst? id = some i) (hop : i.op = .element base indices) : IsComputed f (.inst id)
  | cast {id : InstId} {i : Instruction R} {op : CastOp} {v : Value R} (hi : f.inst? id = some i)
      (hop : i.op = .cast op v) (hv : IsComputed f v) : IsComputed f (.inst id)

/-- Address computations that rest on others only go down: their first
index is the constant zero. -/
def Function.OnlyDescends (f : Function R) : Prop :=
  ∀ id i base indices, f.inst? id = some i → i.op = .element base indices → f.IsComputed base →
    ∃ steps, indices = .constInt 0 :: steps

/-! ## Paths -/

lemma movePath_zero (p : List ℤ) : movePath 0 p = p := by
  induction p with
  | nil => rfl
  | cons x p ih =>
    cases p with
    | nil => rw [movePath, add_zero]
    | cons y p => rw [movePath, ih]

/-- A step of an origin agrees with an index: if it is constant, it is the index. -/
def Agrees (step : Option Int64) (x : ℤ) : Prop := ∀ c, step = some c → c.toInt = x

namespace Origin

variable {value : Value R → ℤ} {p q : List (Option Int64)} {xs ys : List ℤ}
  {groups : List (List (Option Int64))} {steps : List (Option Int64)}

lemma agrees_index (hvalue : ∀ c, value (.constInt c) = c.toInt) (v : Value R) :
    Agrees (index v) (value v) := by
  intro c hc
  cases v with
  | constInt c' =>
    cases hc
    exact (hvalue c).symm
  | _ => cases hc

lemma forall₂_agrees_index (hvalue : ∀ c, value (.constInt c) = c.toInt) (vs : List (Value R)) :
    List.Forall₂ Agrees (vs.map index) (vs.map value) := by
  induction vs with
  | nil => exact .nil
  | cons v vs ih => exact .cons (agrees_index hvalue v) ih

/-- Paths that do not part ways are not told apart. -/
lemma pathsMayMeet_of_not_partWays (hp : List.Forall₂ Agrees p xs) (hq : List.Forall₂ Agrees q ys)
    (hmeet : ¬ PartWays xs ys) : pathsMayMeet p q = true := by
  induction hp generalizing q ys with
  | nil => cases q <;> rfl
  | @cons a x p xs ha _ ih =>
    cases hq with
    | nil => cases a <;> rfl
    | @cons b y q ys hb hq =>
      cases a with
      | none => rfl
      | some a =>
        cases b with
        | none => rfl
        | some b =>
          have hxy : x = y := by
            by_contra hne
            exact hmeet (.here hne)
          have hab : a = b := Int64.toInt_inj.1 ((ha a rfl).trans (hxy.trans (hb b rfl).symm))
          rw [pathsMayMeet, hab, beq_self_eq_true, Bool.true_and]
          exact ih hq fun h => hmeet (.there h)

lemma joinGroups_true_cons (group : List (Option Int64)) :
    joinGroups true (group :: groups) = group ++ joinGroups false groups := rfl

lemma joinGroups_false_cons :
    joinGroups false ((some 0 :: steps) :: groups) = steps ++ joinGroups false groups := rfl

/-- Indices that do not move the pointer are joined to those before them. -/
lemma joinGroups_false_append (hgroups : ∀ g ∈ groups, ∃ steps, g = some 0 :: steps) :
    joinGroups false (groups ++ [some 0 :: steps]) = joinGroups false groups ++ steps := by
  induction groups with
  | nil => exact List.append_nil steps
  | cons g groups ih =>
    obtain ⟨steps', rfl⟩ := hgroups g List.mem_cons_self
    rw [List.cons_append, joinGroups_false_cons, joinGroups_false_cons, List.append_assoc,
      ih fun g' hg' => hgroups g' (List.mem_cons_of_mem _ hg')]

/-! ## Tracing pointers -/

/-- The trace of a pointer, if it does not give up, comes to the object with these indices in front
of those passed so far. -/
def TracesTo (f : Function R) (v : Value R) (root : MemoryRoot)
    (groups : List (List (Option Int64))) : Prop :=
  ∀ steps passed, trace f steps passed v = unknown ∨
    trace f steps passed v = ⟨root, joinGroups true (groups ++ passed)⟩

variable {f : Function R} {v : Value R} {root : MemoryRoot}

lemma TracesTo.of_cast {id : InstId} {i : Instruction R} {op : CastOp} (hi : f.inst? id = some i)
    (hop : i.op = .cast op v) (h : TracesTo f v root groups) :
    TracesTo f (.inst id) root groups := by
  intro steps passed
  cases steps with
  | zero => exact Or.inl rfl
  | succ steps =>
    rw [trace, hi, Option.map_some, hop]
    exact h steps passed

lemma TracesTo.of_element {id : InstId} {i : Instruction R} {indices : List (Value R)}
    (hi : f.inst? id = some i) (hop : i.op = .element v indices) (h : TracesTo f v root groups) :
    TracesTo f (.inst id) root (groups ++ [indices.map index]) := by
  intro steps passed
  cases steps with
  | zero => exact Or.inl rfl
  | succ steps =>
    rw [trace, hi, Option.map_some, hop, List.append_assoc]
    exact h steps (indices.map index :: passed)

/-- The trace comes to the object itself, or to a path into it that
agrees with the given indices. -/
inductive Follows (f : Function R) (v : Value R) (root : MemoryRoot) (xs : List ℤ) : Prop
  | object (htrace : TracesTo f v root []) (hxs : xs = [0])
  | path (first : List (Option Int64)) (groups : List (List (Option Int64)))
      (hcomputed : f.IsComputed v) (htrace : TracesTo f v root (first :: groups))
      (hgroups : ∀ g ∈ groups, ∃ steps, g = some 0 :: steps)
      (hxs : List.Forall₂ Agrees (first ++ joinGroups false groups) xs)

/-- If address computations that rest on others only go down, then the trace follows the pointer. -/
lemma follows_of_points (hf : f.OnlyDescends) (hvalue : ∀ c, value (.constInt c) = c.toInt)
    (h : f.Points value v root xs) : Follows f v root xs := by
  induction h with
  | @alloca id i ty hi hop =>
    refine .object (fun steps passed => ?_) rfl
    cases steps with
    | zero => exact Or.inl rfl
    | succ steps =>
      rw [trace, hi, Option.map_some, hop]
      exact Or.inr rfl
  | global g =>
    refine .object (fun steps passed => ?_) rfl
    cases steps with
    | zero => exact Or.inl rfl
    | succ steps => exact Or.inr rfl
  | cast hi hop _ ih =>
    cases ih with
    | object htrace hxs => exact .object (htrace.of_cast hi hop) hxs
    | path first groups hcomputed htrace hgroups hxs =>
      exact .path first groups (.cast hi hop hcomputed) (htrace.of_cast hi hop) hgroups hxs
  | @element id i base first steps root p hi hop _ ih =>
    cases ih with
    | object htrace hxs =>
      refine .path ((first :: steps).map index) [] (.element hi hop) (htrace.of_element hi hop)
        (by simp) ?_
      rw [hxs, movePath, zero_add, joinGroups, List.append_nil]
      exact forall₂_agrees_index hvalue (first :: steps)
    | path first' groups hcomputed htrace hgroups hxs =>
      obtain ⟨steps', hindices⟩ := hf id i base _ hi hop hcomputed
      obtain ⟨rfl, rfl⟩ := List.cons.inj hindices
      have hmoved : movePath (value (.constInt 0)) p = p := by
        rw [hvalue]
        exact movePath_zero p
      refine .path first' (groups ++ [some 0 :: steps.map index]) (.element hi hop)
        (htrace.of_element hi hop) ?_ ?_
      · intro g hg
        rcases List.mem_append.1 hg with hg | hg
        · exact hgroups g hg
        · exact ⟨steps.map index, List.mem_singleton.1 hg⟩
      · rw [joinGroups_false_append hgroups, ← List.append_assoc, hmoved]
        exact List.rel_append hxs (forall₂_agrees_index hvalue steps)

/-- A path that the trace has come to. -/
lemma Follows.exists_path (h : Follows f v root xs) :
    Origin.of f v = unknown ∨ ∃ p, Origin.of f v = ⟨root, p⟩ ∧
      (p = [] ∨ List.Forall₂ Agrees p xs) := by
  cases h with
  | object htrace _ =>
    refine (htrace (f.insts.size + 1) []).imp id fun h => ⟨_, h, Or.inl rfl⟩
  | path first groups _ htrace _ hxs =>
    refine (htrace (f.insts.size + 1) []).imp id fun h => ⟨_, h, Or.inr ?_⟩
    rwa [List.append_nil, joinGroups_true_cons]

lemma mayAlias_unknown_left (o : Origin) : unknown.mayAlias o = true := rfl

lemma mayAlias_unknown_right (o : Origin) : o.mayAlias unknown = true := by
  rw [mayAlias, show unknown.root.isObject = false from rfl, Bool.and_false,
    if_neg Bool.false_ne_true]

/-- **Pointers to the same place are not kept apart**, if address computations that rest on others
only go down. -/
theorem mayAlias_of_points {v w : Value R} (hf : f.OnlyDescends)
    (hvalue : ∀ c, value (.constInt c) = c.toInt) (hv : f.Points value v root xs)
    (hw : f.Points value w root ys) (hmeet : ¬ PartWays xs ys) :
    (Origin.of f v).mayAlias (Origin.of f w) = true := by
  rcases (follows_of_points hf hvalue hv).exists_path with hunknown | ⟨p, hp, hagrees⟩
  · rw [hunknown, mayAlias_unknown_left]
  rcases (follows_of_points hf hvalue hw).exists_path with hunknown | ⟨q, hq, hagrees'⟩
  · rw [hunknown, mayAlias_unknown_right]
  have hpaths : pathsMayMeet p q = true := by
    rcases hagrees with rfl | hagrees
    · cases q <;> rfl
    rcases hagrees' with rfl | hagrees'
    · cases p with
      | nil => rfl
      | cons a p => cases a <;> rfl
    exact pathsMayMeet_of_not_partWays hagrees hagrees' hmeet
  rw [hp, hq, mayAlias, hpaths]
  simp

end Origin

/-! ## Moving a pointer to an element -/

namespace MovedElement

/-- The function computes the address of the second element of an array, moves it by one element,
and computes the address of the third element. -/
def function : Function ℕ where
  id := ⟨0⟩
  name := "moved_element"
  params := #[]
  retTy := .void
  blocks := #[⟨⟨0⟩, "entry", [⟨0⟩, ⟨1⟩, ⟨2⟩, ⟨3⟩], none, none⟩]
  insts := #[
    ⟨⟨0⟩, ⟨0⟩, "a", .pointer (.array (.float 64) 4), .alloca (.array (.float 64) 4), none, none⟩,
    ⟨⟨1⟩, ⟨0⟩, "second", .pointer (.float 64),
      .element (.inst ⟨0⟩) [.constInt 0, .constInt 1], none, none⟩,
    ⟨⟨2⟩, ⟨0⟩, "moved", .pointer (.float 64), .element (.inst ⟨1⟩) [.constInt 1], none, none⟩,
    ⟨⟨3⟩, ⟨0⟩, "third", .pointer (.float 64),
      .element (.inst ⟨0⟩) [.constInt 0, .constInt 2], none, none⟩]
  maxRecursion := none
  entryPoint := false

/-- The values of constants. -/
def value : Value ℕ → ℤ
  | .constInt c => c.toInt
  | _ => 0

/-- Where an address computation moves the result of another one, pointers to one place are kept
apart. -/
theorem mayAlias_eq_false :
    ∃ root xs, function.Points value (.inst ⟨2⟩) root xs ∧
      function.Points value (.inst ⟨3⟩) root xs ∧
      (Origin.of function (.inst ⟨2⟩)).mayAlias (Origin.of function (.inst ⟨3⟩)) = false := by
  have hslot : function.Points value (.inst ⟨0⟩) (.alloca ⟨0⟩) [0] := .alloca rfl rfl
  have hsecond : function.Points value (.inst ⟨1⟩) (.alloca ⟨0⟩)
      (movePath (value (.constInt 0)) [0] ++ [.constInt 1].map value) := .element rfl rfl hslot
  have hmoved : function.Points value (.inst ⟨2⟩) (.alloca ⟨0⟩)
      (movePath (value (.constInt 1)) [0, 1] ++ [].map value) := .element rfl rfl hsecond
  have hthird : function.Points value (.inst ⟨3⟩) (.alloca ⟨0⟩)
      (movePath (value (.constInt 0)) [0] ++ [.constInt 2].map value) := .element rfl rfl hslot
  exact ⟨.alloca ⟨0⟩, [0, 2], hmoved, hthird, rfl⟩

end MovedElement

end Roundoff
