/-
# Data that are read back

A datum is written as a JSON value and read from what the reader makes of the text of that value.
It is read back exactly if the value is not nested too deep; otherwise there is no datum, since no
data are ignored that were written.
-/
import Mathlib
import Roundoff.Json.Codec
import Roundoff.Proofs.Json.Text

namespace Roundoff.Json

variable {α β : Type} {read : Json → Option α} {j : Json} {x : α} {y : β} {room : ℕ}

/-! ## Reading -/

/-- From the text of a JSON value, a datum is read exactly if the value is not nested too deep. -/
def Reads (read : Json → Option α) (j : Json) (x : α) : Prop :=
  ∀ room, read (clip room j) = if depth j ≤ room then some x else none

/-- A datum that is written is read back exactly if it is not nested too deep. -/
def ReadsBack [ToJson α] [OfJson α] (x : α) : Prop := Reads ofJson? (toJson x) x

lemma Reads.map (h : Reads read j x) (f : α → β) : Reads (fun j => (read j).map f) j (f x) := by
  intro room
  change (read (clip room j)).map f = _
  rw [h room]
  split <;> rfl

/-- What follows a condition is done under the condition. -/
lemma ite_some_bind (p : Prop) [Decidable p] (x : α) (f : α → Option β) :
    (if p then some x else none).bind f = if p then f x else none := by
  split <;> rfl

lemma reads_of_clip_eq (hclip : ∀ room, clip room j = j) (hdepth : depth j = 0)
    (h : read j = some x) : Reads read j x := by
  intro room
  rw [hclip, h, hdepth, if_pos (Nat.zero_le room)]

/-- Arrays and objects need room. -/
lemma Reads.of_succ {j : Json} (hclip : clip 0 j = unreadable) (hdepth : 0 < depth j)
    (hnone : read unreadable = none)
    (h : ∀ room, read (clip (room + 1) j) = if depth j ≤ room + 1 then some x else none) :
    Reads read j x := by
  intro room
  cases room with
  | zero => rw [hclip, hnone, if_neg (by omega)]
  | succ room => exact h room

lemma clip_succ_arr (room : ℕ) (xs : List Json) :
    clip (room + 1) (arr xs) = arr (xs.map (clip room)) := by
  rw [← clipItems_eq_map]
  rfl

lemma clip_succ_obj (room : ℕ) (fields : List (String × Json)) :
    clip (room + 1) (obj fields) = obj (clipFields room fields) := rfl

lemma depth_arr_le {xs : List Json} : depth (arr xs) ≤ room + 1 ↔ ∀ x ∈ xs, depth x ≤ room := by
  rw [depth, Nat.add_le_add_iff_right, depthItems_le_iff]

lemma depth_obj_le {fields : List (String × Json)} :
    depth (obj fields) ≤ room + 1 ↔ ∀ f ∈ fields, depth f.2 ≤ room := by
  rw [depth, Nat.add_le_add_iff_right, depthFields_le_iff]

/-- Only what says that there is nothing is read as nothing. -/
lemma clip_ne_null (h : j ≠ null) (h' : j ≠ unreadable) (room : ℕ) : clip room j ≠ null := by
  cases j with
  | null => exact absurd rfl h
  | unreadable => exact absurd rfl h'
  | arr xs =>
    cases room with
    | zero => exact nofun
    | succ room => exact nofun
  | obj fields =>
    cases room with
    | zero => exact nofun
    | succ room => exact nofun
  | bool b => exact nofun
  | int i => exact nofun
  | dec neg m e => exact nofun
  | str s => exact nofun

/-- An array of two values. -/
lemma Reads.pair {γ : Type} {read' : Json → Option β} {j' : Json} (hx : Reads read j x)
    (hy : Reads read' j' y) (f : α → β → γ) {both : Json → Option γ}
    (hboth : ∀ j j', both (arr [j, j']) = do return f (← read j) (← read' j'))
    (hnone : both unreadable = none) : Reads both (arr [j, j']) (f x y) := by
  refine Reads.of_succ rfl (Nat.succ_pos _) hnone fun room => ?_
  rw [clip_succ_arr, List.map_cons, List.map_singleton, hboth, hx room, hy room]
  simp only [Option.bind_eq_bind, ite_some_bind, depth_arr_le, List.forall_mem_cons, ite_and]
  rfl

/-! ## Simple data -/

lemma readsBack_bool (b : Bool) : ReadsBack b := reads_of_clip_eq (fun _ => rfl) rfl rfl

lemma readsBack_string (s : String) : ReadsBack s := reads_of_clip_eq (fun _ => rfl) rfl rfl

lemma readsBack_uint32 (n : UInt32) : ReadsBack n := by
  have hfits : 0 ≤ (n.toNat : ℤ) ∧ (n.toNat : ℤ) < UInt32.size := by
    have hlt := n.toNat_lt_size
    omega
  refine reads_of_clip_eq (fun _ => rfl) rfl ?_
  change (if 0 ≤ (n.toNat : ℤ) ∧ (n.toNat : ℤ) < UInt32.size then _ else none) = _
  rw [if_pos hfits, Int.toNat_natCast, UInt32.ofNat_toNat]

lemma readsBack_uint64 (n : UInt64) : ReadsBack n := by
  have hfits : 0 ≤ (n.toNat : ℤ) ∧ (n.toNat : ℤ) < UInt64.size := by
    have hlt := n.toNat_lt_size
    omega
  refine reads_of_clip_eq (fun _ => rfl) rfl ?_
  change (if 0 ≤ (n.toNat : ℤ) ∧ (n.toNat : ℤ) < UInt64.size then _ else none) = _
  rw [if_pos hfits, Int.toNat_natCast, UInt64.ofNat_toNat]

lemma readsBack_int64 (n : Int64) : ReadsBack n := by
  have hfits : Int64.minValue.toInt ≤ n.toInt ∧ n.toInt ≤ Int64.maxValue.toInt :=
    ⟨n.minValue_le_toInt, n.toInt_le⟩
  refine reads_of_clip_eq (fun _ => rfl) rfl ?_
  change (if Int64.minValue.toInt ≤ n.toInt ∧ n.toInt ≤ Int64.maxValue.toInt then _ else none) = _
  rw [if_pos hfits, Int64.ofInt_toInt]

/-- Whether a JSON value is a number. -/
def isNumber : Json → Bool
  | int _ | dec .. => true
  | _ => false

/-- The number is written as a JSON number and read back from it. -/
structure IsExact {R : Type} [ToJson R] [OfJson R] (x : R) : Prop where
  /-- It is written as a number. -/
  isNumber : isNumber (toJson x) = true
  /-- It is read back. -/
  ofJson?_toJson : ofJson? (toJson x) = some x

lemma IsExact.readsBack {R : Type} [ToJson R] [OfJson R] {x : R} (h : IsExact x) : ReadsBack x := by
  have hnumber := h.isNumber
  have hread := h.ofJson?_toJson
  rw [ReadsBack]
  cases hj : toJson x with
  | int i => exact reads_of_clip_eq (fun _ => rfl) rfl (hj ▸ hread)
  | dec neg m e => exact reads_of_clip_eq (fun _ => rfl) rfl (hj ▸ hread)
  | _ => simp [hj, Json.isNumber] at hnumber

/-- Numbers are not confused with nothing. -/
lemma IsExact.toJson_ne {R : Type} [ToJson R] [OfJson R] {x : R} (h : IsExact x) :
    toJson x ≠ null ∧ toJson x ≠ unreadable := by
  have hnumber := h.isNumber
  constructor
  · intro hx
    rw [hx] at hnumber
    cases hnumber
  · intro hx
    rw [hx] at hnumber
    cases hnumber

/-! ## Compound data -/

section Compound

variable [ToJson α] [OfJson α] [ToJson β] [OfJson β]

/-- A datum in a new guise. -/
lemma ReadsBack.map {f : α → β} (h : ReadsBack x) (hto : toJson (f x) = toJson x)
    (hof : ∀ j, ofJson? j = (ofJson? j : Option α).map f) : ReadsBack (f x) := by
  intro room
  rw [hto, hof]
  exact Reads.map h f room

/-- The data of a list are read one after the other. -/
lemma mapM_clip {xs : List α} (h : ∀ x ∈ xs, ReadsBack x) (room : ℕ) :
    ((xs.map toJson).map (clip room)).mapM ofJson?
      = if ∀ x ∈ xs, depth (toJson x) ≤ room then some xs else none := by
  induction xs with
  | nil => simp
  | cons x xs ih =>
    obtain ⟨hx, hxs⟩ := List.forall_mem_cons.1 h
    rw [List.map_cons, List.map_cons, List.mapM_cons, hx room, ih hxs]
    simp only [Option.bind_eq_bind, ite_some_bind, List.forall_mem_cons, ite_and]
    rfl

lemma readsBack_list {xs : List α} (h : ∀ x ∈ xs, ReadsBack x) : ReadsBack xs := by
  refine Reads.of_succ rfl (Nat.succ_pos _) rfl fun room => ?_
  change ofJson? (clip (room + 1) (arr (xs.map toJson)))
    = if depth (arr (xs.map toJson)) ≤ room + 1 then some xs else none
  rw [clip_succ_arr]
  change ((xs.map toJson).map (clip room)).mapM ofJson? = _
  rw [mapM_clip h]
  simp only [depth_arr_le, List.forall_mem_map]

lemma readsBack_array {xs : Array α} (h : ∀ x ∈ xs, ReadsBack x) : ReadsBack xs := by
  have hlist : ReadsBack xs.toList := readsBack_list fun x hx => h x (Array.mem_toList_iff.1 hx)
  exact hlist.map (f := List.toArray) rfl fun _ => rfl

lemma readsBack_pair {p : α × β} (hx : ReadsBack p.1) (hy : ReadsBack p.2) : ReadsBack p :=
  Reads.pair hx hy Prod.mk (fun _ _ => rfl) rfl

/-- What is optional is read back if it is not confused with nothing. -/
lemma readsBack_option {o : Option α}
    (h : ∀ x ∈ o, ReadsBack x ∧ toJson x ≠ null ∧ toJson x ≠ unreadable) : ReadsBack o := by
  cases o with
  | none => exact reads_of_clip_eq (fun _ => rfl) rfl rfl
  | some x =>
    obtain ⟨hx, hnull, hunreadable⟩ := h x rfl
    intro room
    have hne := clip_ne_null hnull hunreadable room
    have hread : (ofJson? (clip room (toJson x)) : Option (Option α))
        = (ofJson? (clip room (toJson x))).map some := by
      revert hne
      cases clip room (toJson x) <;> intro hne
      · exact absurd rfl hne
      all_goals rfl
    exact hread.trans (Reads.map hx some room)

end Compound

/-! ## Alternatives -/

/-- The contents of an alternative need room below its tag. -/
lemma Reads.tagged {read' : Json → Option α} (h : Reads read j x) (tag : String)
    (hread : ∀ j, read' (obj [(tag, j)]) = read j) (hnone : read' unreadable = none) :
    Reads read' (obj [(tag, j)]) x := by
  refine Reads.of_succ rfl (Nat.succ_pos _) hnone fun room => ?_
  have hdepth : depth (obj [(tag, j)]) ≤ room + 1 ↔ depth j ≤ room := by
    rw [depth_obj_le, List.forall_mem_singleton]
  rw [clip_succ_obj, clipFields, clipFields, hread, h room]
  simp only [hdepth]

/-- An alternative with a datum as its contents. -/
lemma ReadsBack.variant [ToJson α] [OfJson α] (h : ReadsBack x) (tag : String) (f : α → β)
    {read : Json → Option β} (hread : ∀ j, read (obj [(tag, j)]) = (ofJson? j).map f)
    (hnone : read unreadable = none) : Reads read (variant tag x) (f x) :=
  Reads.tagged (Reads.map h f) tag hread hnone

/-! ## Records -/

lemma lookup_clipFields (room : ℕ) (given : List (String × Json)) (name : String) :
    (clipFields room given).lookup name = (given.lookup name).map (clip room) := by
  induction given with
  | nil => rfl
  | cons f given ih =>
    rw [clipFields, List.lookup_cons, List.lookup_cons, ih]
    split <;> rfl

lemma map_fst_clipFields (room : ℕ) (given : List (String × Json)) :
    (clipFields room given).map Prod.fst = given.map Prod.fst := by
  rw [clipFields_eq_map, List.map_map]
  rfl

/-- The fields of a record as the reader finds them. -/
def seen (room : ℕ) (given : List (String × Json)) : Fields :=
  ⟨fun n => (clipFields room given).lookup n, false⟩

lemma get?_seen (room : ℕ) (given : List (String × Json)) (name : String) :
    (seen room given).get? name = (given.lookup name).map (clip room) :=
  lookup_clipFields room given name

/-- A record whose fields have different names is read as a record. -/
lemma fields?_clip {given : List (String × Json)} (hnames : (given.map Prod.fst).Nodup)
    (names : List String) (room : ℕ) :
    fields? names (clip (room + 1) (obj given)) = some (seen room given) := by
  have honce (name : String) :
      ((clipFields room given).filter fun f => f.1 == name).length ≤ 1 := by
    have hcount := List.nodup_iff_count_le_one.1 hnames name
    rw [← map_fst_clipFields room, List.count_eq_countP, List.countP_map,
      List.countP_eq_length_filter] at hcount
    exact hcount
  rw [clip_succ_obj, fields?, if_pos]
  · rfl
  · exact List.all_eq_true.2 fun name _ => decide_eq_true (honce name)

/-- A record is read back if its fields are. -/
lemma Reads.record {given : List (String × Json)} {names : List String}
    {read : Fields → Option α} (hnames : (given.map Prod.fst).Nodup)
    (h : ∀ room, read (seen room given)
      = if ∀ f ∈ given, depth f.2 ≤ room then some x else none) :
    Reads (fun j => (fields? names j).bind read) (obj given) x := by
  refine Reads.of_succ rfl (Nat.succ_pos _) rfl fun room => ?_
  rw [fields?_clip hnames, Option.bind_some, h]
  simp only [depth_obj_le]

section Fields

variable [ToJson α] {given : List (String × Json)} {name : String}

lemma depth_optionalField_le {o : Option α} {room : ℕ} :
    (∀ f ∈ optionalField name o, depth f.2 ≤ room) ↔ depth (toJson o) ≤ room := by
  cases o with
  | none => exact ⟨fun _ => Nat.zero_le room, fun _ => nofun⟩
  | some x => exact List.forall_mem_singleton

variable [OfJson α]

lemma required_seen (hx : ReadsBack x) (hgiven : given.lookup name = some (toJson x)) (room : ℕ) :
    (seen room given).required name = if depth (toJson x) ≤ room then some x else none := by
  rw [Fields.required, get?_seen, hgiven]
  exact hx room

lemma withDefault_seen (hx : ReadsBack x) (hgiven : given.lookup name = some (toJson x))
    (default : α) (room : ℕ) :
    (seen room given).withDefault name default
      = if depth (toJson x) ≤ room then some x else none := by
  rw [Fields.withDefault, get?_seen, hgiven]
  exact hx room

lemma nullable_seen {o : Option α} (ho : ReadsBack o)
    (hgiven : given.lookup name = some (toJson o)) (room : ℕ) :
    (seen room given).nullable name = if depth (toJson o) ≤ room then some o else none := by
  rw [Fields.nullable, get?_seen, hgiven]
  exact ho room

/-- A field that is left out is read as absent. -/
lemma optional_seen {o : Option α} (ho : ReadsBack o)
    (hgiven : given.lookup name = o.map toJson) (room : ℕ) :
    (seen room given).optional name = if depth (toJson o) ≤ room then some o else none := by
  rw [Fields.optional, Fields.withDefault, get?_seen, hgiven]
  cases o with
  | none => rfl
  | some x => exact ho room

end Fields

/-! ## Records of which all fields are required -/

section Required

variable {γ δ : Type} [ToJson α] [OfJson α] [ToJson β] [OfJson β] [ToJson γ] [OfJson γ] {z : γ}
  {n₁ n₂ n₃ : String}

lemma reads_one (hx : ReadsBack x) (n₁ : String) (f : α → δ) :
    Reads (fun j => (fields? [n₁] j).bind fun r => do return f (← r.required n₁))
      (obj [(n₁, toJson x)]) (f x) := by
  refine Reads.record (List.nodup_singleton n₁) fun room => ?_
  have hfirst : [(n₁, toJson x)].lookup n₁ = some (toJson x) := by simp
  rw [required_seen hx hfirst]
  simp only [Option.bind_eq_bind, ite_some_bind, List.forall_mem_singleton]
  rfl

lemma reads_two (hx : ReadsBack x) (hy : ReadsBack y) (hnames : [n₁, n₂].Nodup)
    (f : α → β → δ) :
    Reads (fun j => (fields? [n₁, n₂] j).bind fun r => do
        return f (← r.required n₁) (← r.required n₂))
      (obj [(n₁, toJson x), (n₂, toJson y)]) (f x y) := by
  have h : n₁ ≠ n₂ := by simpa using hnames
  refine Reads.record hnames fun room => ?_
  have hfirst : [(n₁, toJson x), (n₂, toJson y)].lookup n₁ = some (toJson x) := by simp
  have hsecond : [(n₁, toJson x), (n₂, toJson y)].lookup n₂ = some (toJson y) := by
    simp [List.lookup_cons, beq_false_of_ne h.symm]
  rw [required_seen hx hfirst, required_seen hy hsecond]
  simp only [Option.bind_eq_bind, ite_some_bind, List.forall_mem_cons, ite_and]
  rfl

lemma reads_three (hx : ReadsBack x) (hy : ReadsBack y) (hz : ReadsBack z)
    (hnames : [n₁, n₂, n₃].Nodup) (f : α → β → γ → δ) :
    Reads (fun j => (fields? [n₁, n₂, n₃] j).bind fun r => do
        return f (← r.required n₁) (← r.required n₂) (← r.required n₃))
      (obj [(n₁, toJson x), (n₂, toJson y), (n₃, toJson z)]) (f x y z) := by
  obtain ⟨⟨h₂, h₃⟩, h₃'⟩ : (n₁ ≠ n₂ ∧ n₁ ≠ n₃) ∧ n₂ ≠ n₃ := by simpa using hnames
  refine Reads.record hnames fun room => ?_
  have hfirst : [(n₁, toJson x), (n₂, toJson y), (n₃, toJson z)].lookup n₁ = some (toJson x) := by
    simp
  have hsecond : [(n₁, toJson x), (n₂, toJson y), (n₃, toJson z)].lookup n₂
      = some (toJson y) := by
    simp [List.lookup_cons, beq_false_of_ne h₂.symm]
  have hthird : [(n₁, toJson x), (n₂, toJson y), (n₃, toJson z)].lookup n₃ = some (toJson z) := by
    simp [List.lookup_cons, beq_false_of_ne h₃.symm, beq_false_of_ne h₃'.symm]
  rw [required_seen hx hfirst, required_seen hy hsecond, required_seen hz hthird]
  simp only [Option.bind_eq_bind, ite_some_bind, List.forall_mem_cons, ite_and]
  rfl

end Required

end Roundoff.Json
