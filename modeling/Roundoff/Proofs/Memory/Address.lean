/-
# The record along an address

Where no store tells what a load reads, its record is looked up along its address: for the pointer
that it loads from, then for the pointer from which that one is computed or loaded, and so on, until
there is a record.  Pointers may be computed in a circle, so the lookup gives up after as many steps
as there are instructions.  No record is missed for that: the lookup makes the turns of a chase,
which is cut short only if it would go round for ever.
-/
import Mathlib
import Roundoff.Memory.Sources
import Roundoff.Proofs.Memory.Chase

namespace Roundoff

variable {R : Type}

/-- The pointer from which a load or an address computation starts. -/
def Instruction.pointer? (i : Instruction R) : Option (Value R) :=
  match i.op with
  | .load ptr => some ptr
  | .element base _ => some base
  | _ => none

namespace Function

variable {f : Function R} {records : Records R} {i j : Instruction R} {pointer : Value R}
  {v u : Value R} {e : Estimate R} {id : InstId}

/-- `f.FirstRecord records i e`: going back along the address behind the load or address computation
`i`, the first record is `e`. -/
inductive FirstRecord (f : Function R) (records : Records R) : Instruction R → Estimate R → Prop
  /-- There is a record for the pointer. -/
  | here {i : Instruction R} {pointer : Value R} {e : Estimate R} (hi : i.pointer? = some pointer)
      (he : (Key.of? f.id pointer).bind records = some e) : FirstRecord f records i e
  /-- There is none, and the pointer is itself loaded or computed from another one. -/
  | behind {i j : Instruction R} {pointer : Value R} {e : Estimate R}
      (hi : i.pointer? = some pointer) (hnone : (Key.of? f.id pointer).bind records = none)
      (hj : f.definition? pointer = some j) (he : FirstRecord f records j e) :
      FirstRecord f records i e

/-! ## One step -/

lemma firstRecord_iff (hi : i.pointer? = some pointer) :
    f.FirstRecord records i e ↔ (Key.of? f.id pointer).bind records = some e ∨
      (Key.of? f.id pointer).bind records = none ∧
        ∃ j, f.definition? pointer = some j ∧ f.FirstRecord records j e := by
  constructor
  · rintro (⟨hi', he⟩ | ⟨hi', hnone, hj, he⟩)
    · obtain rfl := Option.some.inj (hi.symm.trans hi')
      exact Or.inl he
    · obtain rfl := Option.some.inj (hi.symm.trans hi')
      exact Or.inr ⟨hnone, _, hj, he⟩
  · rintro (he | ⟨hnone, j, hj, he⟩)
    · exact .here hi he
    · exact .behind hi hnone hj he

/-- Nothing lies behind an address that no instruction computes. -/
lemma firstRecord_iff_of_definition?_eq_none (hi : i.pointer? = some pointer)
    (hdef : f.definition? pointer = none) :
    f.FirstRecord records i e ↔ (Key.of? f.id pointer).bind records = some e := by
  rw [firstRecord_iff hi, hdef]
  simp

/-! ## The lookup without a bound -/

lemma chainRecord?_succ (n : ℕ) (i : Instruction R) :
    f.chainRecord? records (n + 1) i = i.pointer?.bind fun pointer =>
      ((Key.of? f.id pointer).bind records).or
        ((f.definition? pointer).bind (f.chainRecord? records n)) := by
  rw [chainRecord?, Instruction.pointer?]
  cases i.op with
  | load ptr | element ptr indices =>
    simp only [Option.bind_some]
    cases (Key.of? f.id ptr).bind records with
    | some e => rfl
    | none => cases f.definition? ptr <;> rfl
  | _ => rfl

/-- One turn of the walk to the record of an address: the pointer behind an instruction has a
record, or it is an instruction from which the walk goes on. -/
def recordTurn (f : Function R) (records : Records R) (v : Value R) :
    Option (Estimate R) ⊕ Value R :=
  match f.behind? Instruction.pointer? v with
  | none => .inl none
  | some pointer =>
    match (Key.of? f.id pointer).bind records with
    | some e => .inl (some e)
    | none => if (f.definition? pointer).isSome then .inr pointer else .inl none

lemma chainRecord?_eq_run? (n : ℕ) (hi : f.definition? v = some i) :
    f.chainRecord? records n i = (Chase.run? (f.recordTurn records) n v).getD none := by
  induction n generalizing i v with
  | zero => rfl
  | succ n ih =>
    have hbehind : f.behind? Instruction.pointer? v = i.pointer? := by
      rw [behind?, hi, Option.bind_some]
    rw [chainRecord?_succ, Chase.run?, recordTurn, hbehind]
    cases i.pointer? with
    | none => rfl
    | some pointer =>
      cases hrecord : (Key.of? f.id pointer).bind records with
      | some e => simp [hrecord]
      | none =>
        cases hj : f.definition? pointer with
        | none => simp [hrecord, hj]
        | some j => simp [hrecord, hj, ih hj]

lemma addressRecord?_eq_run? (load : InstId) :
    f.addressRecord? records load
      = (Chase.run? (f.recordTurn records) (f.insts.size + 1) (.inst load)).getD none := by
  cases hi : f.inst? load with
  | none => simp [addressRecord?, Chase.run?, recordTurn, hi]
  | some i =>
    rw [addressRecord?, hi, Option.bind_some]
    exact chainRecord?_eq_run? _ hi

/-- A turn goes on along the chain of addresses, as long as there is no record. -/
lemma recordTurn_eq_inr_iff : f.recordTurn records v = .inr u ↔
    f.behind? Instruction.pointer? v = some u ∧ (Key.of? f.id u).bind records = none ∧
      ∃ j, f.definition? u = some j := by
  rw [recordTurn, ← Option.isSome_iff_exists]
  cases f.behind? Instruction.pointer? v with
  | none => simp
  | some pointer =>
    -- the pointer matters only if it is the one to which the walk goes on
    by_cases hu : pointer = u
    · subst hu
      cases hrecord : (Key.of? f.id pointer).bind records with
      | some e => simp [hrecord]
      | none => cases hj : f.definition? pointer <;> simp [hrecord, hj]
    · cases hrecord : (Key.of? f.id pointer).bind records with
      | some e => simp [hrecord, hu]
      | none => cases hj : f.definition? pointer <;> simp [hrecord, hj, hu]

/-- Where a record stops the walk, the chain of addresses may still go on. -/
lemma behind?_of_recordTurn (h : (f.recordTurn records v).getRight? = some u) :
    f.behind? Instruction.pointer? v = some u :=
  (recordTurn_eq_inr_iff.1 (Sum.getRight?_eq_some_iff.1 h)).1

/-- The walk to a record follows the chain of addresses as far as there are no records. -/
lemma tracks_recordTurn :
    Chase.Tracks (f.recordTurn records) (fun v => v) fun v => (f.recordTurn records v).getRight? :=
  fun _ => Option.map_id'

/-! ## The whole lookup -/

/-- Without a bound, the lookup ends with the first record. -/
lemma ends_recordTurn_iff (hi : f.definition? v = some i) :
    Chase.Ends (f.recordTurn records) v (some e) ↔ f.FirstRecord records i e := by
  constructor
  · intro h
    generalize hr : some e = r at h
    induction h generalizing i with
    | @stop v r h =>
      subst hr
      rw [recordTurn, behind?, hi, Option.bind_some] at h
      cases hpointer : i.pointer? with
      | none => simp [hpointer] at h
      | some pointer =>
        cases hrecord : (Key.of? f.id pointer).bind records with
        | some e' =>
          simp only [hpointer, hrecord, Sum.inl.injEq] at h
          exact .here hpointer (hrecord.trans h)
        | none =>
          simp only [hpointer, hrecord] at h
          split at h <;> cases h
    | @goOn v u r h _ ih =>
      obtain ⟨hbehind, hnone, j, hj⟩ := recordTurn_eq_inr_iff.1 h
      rw [behind?, hi, Option.bind_some] at hbehind
      exact .behind hbehind hnone hj (ih hj hr)
  · intro h
    induction h generalizing v with
    | here hpointer he => exact .stop (by simp [recordTurn, behind?, hi, hpointer, he])
    | behind hpointer hnone hj _ ih =>
      refine .goOn (recordTurn_eq_inr_iff.2 ⟨?_, hnone, _, hj⟩) (ih hj)
      rw [behind?, hi, Option.bind_some, hpointer]

/-- The first record is the record of some value. -/
lemma FirstRecord.exists_key (h : f.FirstRecord records i e) : ∃ k, records k = some e := by
  induction h with
  | here _ he =>
    obtain ⟨k, -, hk⟩ := Option.bind_eq_some_iff.1 he
    exact ⟨k, hk⟩
  | behind _ _ _ _ ih => exact ih

/-- **The lookup finds the first record.** -/
theorem addressRecord?_eq_some_iff (hid : f.inst? id = some i) :
    f.addressRecord? records id = some e ↔ f.FirstRecord records i e := by
  have htracks : Chase.Tracks (f.recordTurn records) _ _ := tracks_recordTurn
  have hrun := htracks.run?_eq_some_iff (s := .inst id) (a := some e)
    (fun _ _ hu => mem_results_of_behind? (behind?_of_recordTurn hu))
    (Nat.lt_succ_of_le f.card_results_le)
  rw [addressRecord?_eq_run?, ← ends_recordTurn_iff (v := .inst id) hid, ← hrun]
  cases Chase.run? (f.recordTurn records) (f.insts.size + 1) (.inst id) with
  | none => simp
  | some r => simp

end Function

end Roundoff
