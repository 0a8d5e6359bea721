/-
# Findings of the whole analysis

A function is analysed once for every call of it, and each time with other data.  Over all these
activations the analysis keeps the worst error of each value, whether a comparison may flip in any
of them, the worst error of each label, and a summary of each function.
-/
import Roundoff.Transfer.Operand

namespace Roundoff

/-- What is known of a function over all its activations. -/
structure Summary (R : Type) where
  /-- The worst value that was returned. -/
  error : Option (Estimate R) := none
  /-- The number of activations under way. -/
  recursion : Nat := 0
  /-- The largest number of activations under way at a time. -/
  peak : Nat := 0
  /-- The number of all activations. -/
  activations : Nat := 0
  /-- The number of calls that were not followed, since too many activations were under way. -/
  skipped : Nat := 0
  /-- The steps in which the function is analysed, once they are known. -/
  schedule : Option Schedule := none
deriving Repr

namespace Summary

variable {R : Type} [Number R]

/-- A bound of the magnitude of the worst error returned. -/
def absError (s : Summary R) : Option R := s.error.bind Estimate.absError

/-- The worst error returned. -/
def affineError (s : Summary R) : Option (Affine R) := s.error.bind Estimate.error

/-- Keep a returned value if its error is larger than that of all before, and say whether it is. -/
def raise (s : Summary R) (e : Estimate R) : Bool × Summary R :=
  match e.absError with
  | none => (false, s)
  | some bound =>
    if s.absError.any fun old => bound ≤ old then (false, s)
    else (true, { s with error := some e })

/-- Begin an activation, and answer how many are under way before. -/
def enter (s : Summary R) : Nat × Summary R :=
  let depth := s.recursion + 1
  (s.recursion, { s with
    recursion := depth, peak := max s.peak depth, activations := s.activations + 1 })

/-- End an activation: as many are under way as before it. -/
def leave (s : Summary R) (before : Nat) : Summary R := { s with recursion := before }

end Summary

/-- What the activations have found about values, comparisons and labels. -/
structure Results (R : Type) where
  /-- The worst estimates of the results of instructions. -/
  values : Table Key (Estimate R)
  /-- The verdicts on comparisons. -/
  verdicts : Table Key (Verdict R)
  /-- The worst errors of labels. -/
  targets : Targets R
deriving Repr

/-- The verdict that covers two verdicts on one comparison. -/
def Verdict.merge {R : Type} [Number R] (v w : Verdict R) : Verdict R :=
  ⟨Number.min v.tolerance w.tolerance, v.mayFlip || w.mayFlip⟩

namespace Results

variable {R : Type} [Number R]

/-- No results. -/
def empty : Results R := ⟨∅, ∅, Targets.empty⟩

instance : Inhabited (Results R) := ⟨empty⟩

/-- The worst error of a value. -/
def errorOf? (r : Results R) (k : Key) : Option R := (r.values.get? k).bind Estimate.absError

/-- Take the result of an instruction into the worst estimates. -/
def absorbValue (values : Table Key (Estimate R)) (k : Key) (e : Estimate R) :
    Table Key (Estimate R) :=
  match e.absError with
  | none => values
  | some bound =>
    match (values.get? k).bind Estimate.absError with
    | some old => if old < bound then values.insert k e else values
    | none => values.insert k e

/-- Take a verdict on a comparison into the verdicts. -/
def absorbVerdict (verdicts : Table Key (Verdict R)) (k : Key) (v : Verdict R) :
    Table Key (Verdict R) :=
  match verdicts.get? k with
  | some seen => verdicts.insert k (seen.merge v)
  | none => verdicts.insert k v

/-- Whether a key names the result of an instruction of a function. -/
def isInstOf (f : FunctionId) : Key → Bool
  | .inst owner _ => owner = f
  | _ => false

/-- Take the outcome of an activation of a function into the results. -/
def absorb (r : Results R) (f : FunctionId) (a : Activation R) : Results R where
  values := (a.store.entries.filterKeys (isInstOf f)).toList.foldl
    (fun values (k, e) => absorbValue values k e) r.values
  verdicts := a.verdicts.toList.foldl
    (fun verdicts (id, v) => absorbVerdict verdicts (.inst f id) v) r.verdicts
  targets := r.targets.merge a.store.targets

end Results

/-- What all activations so far have found. -/
structure Findings (R : Type) where
  /-- The summaries of functions. -/
  summaries : Table FunctionId (Summary R)
  /-- The worst values, comparisons and labels. -/
  results : Results R
deriving Repr

namespace Findings

variable {R : Type} [Number R]

/-- No findings. -/
def empty : Findings R := ⟨∅, Results.empty⟩

instance : Inhabited (Findings R) := ⟨empty⟩

/-- The summary of a function. -/
def summary (w : Findings R) (f : FunctionId) : Summary R := (w.summaries.get? f).getD {}

/-- Set the summary of a function. -/
def setSummary (w : Findings R) (f : FunctionId) (s : Summary R) : Findings R :=
  { w with summaries := w.summaries.insert f s }

/-- The worst error that a function has returned. -/
def returned? (w : Findings R) (f : FunctionId) : Option (Affine R) := (w.summary f).affineError

/-- Begin an activation of a function, and answer how many are under way before. -/
def enter (w : Findings R) (f : FunctionId) : Nat × Findings R :=
  let (before, s) := (w.summary f).enter
  (before, w.setSummary f s)

/-- End an activation of a function. -/
def leave (w : Findings R) (f : FunctionId) (before : Nat) : Findings R :=
  w.setSummary f ((w.summary f).leave before)

/-- Count a call of a function that is not followed. -/
def skip (w : Findings R) (f : FunctionId) : Findings R :=
  let s := w.summary f
  w.setSummary f { s with skipped := s.skipped + 1 }

/-- Take the outcome of a completed activation into the findings. -/
def finish (w : Findings R) (f : FunctionId) (a : Activation R) : Findings R :=
  let w :=
    match a.store.get? (.function f) with
    | some e => w.setSummary f ((w.summary f).raise e).2
    | none => w
  { w with results := w.results.absorb f a }

end Findings

end Roundoff
