/-
# Beginning and ending activations

An activation begins with a copy of the store of the caller that knows nothing of the callee, in
which annotations and actual parameters set estimates for formal parameters.  At its end the store
of the caller is only raised, for what was returned and for what is behind pointers, before it takes
over what the activation knows of global variables, of objects and of labels.  Its records of the
results of instructions are also compared with the worst ones so far.
-/
import Mathlib
import Roundoff.Proofs.Analysis.Activations
import Roundoff.Proofs.Transfer.Steps

namespace Roundoff

namespace Store

variable {m : Module ℝ} {f caller callee : Function ℝ} {args : List (Value ℝ)}
  {s s' other : Store ℝ} {n : Symbol} {k : Key} {e : Estimate ℝ} {ks : Set Key}

/-! ## Annotations -/

/-- Setting up an annotated value edits the store for its key. -/
lemma attains_seedValue (m : Module ℝ) (s : Store ℝ) (hk : k ∈ ks) (ty : Option StructId)
    (info : Option (ValueInfo ℝ)) (n : Symbol) :
    Fresh.Attains n (s.seedValue m k ty info) fun s' n' =>
      s.Edits ks s' ∧ (s.IsWellFormed n → s'.IsWellFormed n') := by
  unfold seedValue
  split
  · exact Fresh.attains_pure ⟨.refl, id⟩
  · exact (attains_annotated _).bind fun e n' le he =>
      Fresh.attains_pure ⟨.set .refl hk e, fun hs => (hs.mono le).set k he⟩
  · split
    · exact Fresh.attains_pure ⟨.refl, id⟩
    · next ty =>
      have hseed (infos : List (Option (ValueInfo ℝ))) :=
        (Objects.ensures_seed s.objects m k ty infos).attains
          fun hs : s.IsWellFormed n => hs.objects.attains_seed m k ty infos
      exact (hseed _).bind fun o n' le ho =>
        Fresh.attains_pure ⟨.objects .refl o, fun hs => (hs.mono le).withObjects (ho hs)⟩

/-- Setting up formal parameters is a step of their function. -/
lemma attains_seedArguments (m : Module ℝ) (s : Store ℝ) (f : Function ℝ) (n : Symbol) :
    Fresh.Attains n (s.seedArguments m f) fun s' n' => Step f.id s n s' n' := by
  rw [seedArguments]
  refine Fresh.attains_foldlM (fun s' n' _ pn _ hs' => ?_) (.later _ _ le_rfl)
  have hk : Key.arg f.id (UInt32.ofNat pn.2) ∈ {k | belongsTo f.id k = true} := by
    simp [belongsTo, Key.owner?]
  exact (attains_seedValue m s' hk _ _ n').mono fun s'' n'' le hs'' =>
    hs'.trans ⟨le, hs''.1, hs''.2⟩

/-- Setting up global variables edits the store. -/
lemma attains_seedGlobals (m : Module ℝ) (s : Store ℝ) (n : Symbol) :
    Fresh.Attains n (s.seedGlobals m) fun s' n' =>
      s.Edits Set.univ s' ∧ (s.IsWellFormed n → s'.IsWellFormed n') := by
  rw [seedGlobals]
  refine Fresh.attains_foldlM (fun s' n' _ g _ hs' => ?_) ⟨.refl, id⟩
  exact (attains_seedValue m s' (Set.mem_univ _) _ _ n').mono fun s'' n'' _ hs'' =>
    ⟨hs'.1.trans hs''.1, fun hs => hs''.2 (hs'.2 hs)⟩

/-! ## Beginning an activation -/

/-- Giving the actual parameters to the formal ones edits the store for the latter. -/
lemma edits_applyArguments (s source : Store ℝ) (caller : FunctionId) (callee : Function ℝ)
    (args : List (Value ℝ)) :
    s.Edits (formals callee) (s.applyArguments source caller callee args) := by
  rw [applyArguments_eq]
  refine List.foldlRecOn _ _ .refl fun s' hs' vn _ => ?_
  rw [applyArgument]
  split
  · exact hs'
  · exact .set hs' ⟨_, rfl⟩ _

lemma IsWellFormed.applyArguments (hs : s.IsWellFormed n) {source : Store ℝ}
    (hsource : source.IsWellFormed n) (caller : FunctionId) (callee : Function ℝ)
    (args : List (Value ℝ)) : (s.applyArguments source caller callee args).IsWellFormed n :=
  .of_all (hs.all.applyArguments
    (Estimate.isPartwise_isWellFormed n) hsource.all caller callee args)

/-- **An activation begins with a copy of the store of the caller** that is edited for the callee. -/
lemma attains_atCall (m : Module ℝ) (s : Store ℝ) (caller callee : Function ℝ)
    (args : List (Value ℝ)) (n : Symbol) :
    Fresh.Attains n (s.atCall m caller callee args) fun start n' =>
      (s.eraseFunction callee).Edits {k | belongsTo callee.id k = true} start ∧
        (s.IsWellFormed n → start.IsWellFormed n') := by
  have hformals : formals callee ⊆ {k | belongsTo callee.id k = true} := by
    rintro _ ⟨j, rfl⟩
    simp [belongsTo, Key.owner?]
  unfold atCall
  refine (attains_seedArguments m _ callee n).bind fun s' n' le hs' =>
    Fresh.attains_pure ⟨?_, fun hs => ?_⟩
  · have happly := (edits_applyArguments s' s caller.id callee args).mono hformals
    exact .objects (hs'.edits.trans happly) _
  · have happly := (hs'.wellFormed (hs.eraseFunction callee)).applyArguments (hs.mono le) caller.id
      callee args
    refine ⟨happly.entries, ?_⟩
    rw [Objects.IsWellFormed, Objects.trees_bindArguments]
    exact happly.objects

/-! ## Ending an activation -/

/-- The store changes by raising estimates for keys, all of which are as wanted. -/
inductive Raises (P : Key → Estimate ℝ → Prop) (s : Store ℝ) : Store ℝ → Prop
  /-- The store stays as it is. -/
  | refl : Raises P s s
  /-- At last an estimate is raised. -/
  | raise {s' : Store ℝ} {k : Key} {e : Estimate ℝ} (h : Raises P s s') (hP : P k e) :
    Raises P s (s'.raise k e).2

namespace Raises

variable {P : Key → Estimate ℝ → Prop}

lemma edits (h : s.Raises P s') (hP : ∀ k e, P k e → k ∈ ks) : s.Edits ks s' := by
  induction h with
  | refl => exact .refl
  | raise _ hke ih => exact .raise ih (hP _ _ hke) _

end Raises

/-- The store of an activation for a call knows the estimate of what is returned, or of what is
behind a pointer that is passed. -/
inductive Returns (other : Store ℝ) (caller callee : Function ℝ) (args : List (Value ℝ)) :
    Key → Estimate ℝ → Prop
  /-- A value is returned. -/
  | result {e : Estimate ℝ} (he : other.get? (.function callee.id) = some e) :
    Returns other caller callee args (.function callee.id) e
  /-- A pointer is passed. -/
  | pointer {q : (Param ℝ × Value ℝ) × ℕ} {k : Key} {e : Estimate ℝ}
    (hq : q ∈ (callee.params.toList.zip args).zipIdx) (hpointer : q.1.1.ty.isPointer = true)
    (hk : Key.of? caller.id q.1.2 = some k)
    (he : other.get? (.arg callee.id (UInt32.ofNat q.2)) = some e) :
    Returns other caller callee args k e

/-- The keys of the arguments that are passed for pointers. -/
def pointers (caller callee : Function ℝ) (args : List (Value ℝ)) : Set Key :=
  {k | ∃ q ∈ callee.params.toList.zip args, q.1.ty.isPointer = true ∧
    Key.of? caller.id q.2 = some k}

/-- What is returned is raised for the callee, and the rest for pointers. -/
lemma Returns.mem (h : other.Returns caller callee args k e) :
    k ∈ {.function callee.id} ∪ pointers caller callee args := by
  cases h with
  | result _ => exact .inl rfl
  | pointer hq hpointer hk _ => exact .inr ⟨_, List.fst_mem_of_mem_zipIdx hq, hpointer, hk⟩

/-- **At the end of an activation the store of the caller is raised**, and takes over what is known
of global variables, of objects and of labels. -/
lemma exists_afterCall_eq (s other : Store ℝ) (m : Module ℝ) (caller callee : Function ℝ)
    (args : List (Value ℝ)) : ∃ s', s.Raises (other.Returns caller callee args) s' ∧
      s.afterCall other m caller callee args
        = mergeTargets { s'.mergeGlobals other with
          objects := (s'.mergeGlobals other).objects.takeBack other.objects m caller args }
            other := by
  refine ⟨_, List.foldlRecOn
    (motive := fun s' => s.Raises (other.Returns caller callee args) s') _ _
    ?_ fun s' hs' p hp => ?_, rfl⟩
  · split
    · next he => exact .raise .refl (.result he)
    · exact .refl
  · obtain ⟨q, hq, rfl⟩ := List.mem_map.1 hp
    unfold raiseArgument
    dsimp only
    split
    · next hpointer =>
      split
      · next he hk => exact .raise hs' (.pointer hq hpointer hk he)
      · exact hs'
    · exact hs'

end Store

/-- The worst results of instructions are among those kept before and those recorded by the
activation that is taken in. -/
lemma Results.all_absorb {P : Key → Estimate ℝ → Prop} {r : Results ℝ} {a : Activation ℝ}
    (hr : r.values.All P) (ha : a.store.entries.All P) (f : FunctionId) :
    (r.absorb f a).values.All P := by
  refine List.foldlRecOn (motive := fun t : Table Key (Estimate ℝ) => t.All P) _ _ hr
    fun t ht q hq => ?_
  have hinsert : (t.insert q.1 q.2).All P := ht.insert (ha q (List.mem_filter.1 hq).1)
  change (absorbValue t q.1 q.2).All P
  rw [absorbValue]
  split
  · exact ht
  · split
    · split
      · exact hinsert
      · exact ht
    · exact hinsert

end Roundoff
