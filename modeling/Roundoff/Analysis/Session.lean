/-
# Analysing functions from the top

The functions from which the analysis starts are analysed one after the other.  They share what is
known of the global variables, and of their labels.  A function whose analysis stops at a fault
leaves that as it was.
-/
import Roundoff.Analysis.Calls
import Roundoff.Analysis.CallOrder

namespace Roundoff

/-- The state of the analysis of a module between the activations of functions. -/
structure Session (R : Type) where
  /-- What is known of global variables. -/
  globals : Store R
  /-- What all activations so far have found. -/
  findings : Findings R

variable {R : Type} [Number R]

namespace Session

/-- The beginning of the analysis of a module. -/
def start (m : Module R) : Fresh (Session R) := do
  return ⟨← (Store.forModule m).seedGlobals m, Findings.empty⟩

end Session

namespace Plan

/-- Analyse a function that has a body. -/
def analyseFunction (p : Plan R) (s : Session R) (f : Function R) :
    Fresh (Except Fault Unit × Session R) := do
  let (before, w) := s.findings.enter f.id
  let store ← s.globals.seedArguments p.module f
  let o ← p.run p.calls f { store := store } w
  let w := o.world.leave f.id before
  match o.answer with
  | .error fault => return (.error fault, { s with findings := w })
  | .ok _ =>
    let globals := (s.globals.mergeGlobals o.state.store).mergeTargets o.state.store
    return (.ok (), ⟨globals, w.finish f.id o.state⟩)

/-- Analyse a function; there is nothing to do for one without a body. -/
def analyse (p : Plan R) (s : Session R) (id : FunctionId) :
    Fresh (Except Fault Unit × Session R) :=
  match p.module.function? id with
  | none => return (.error (.unknownFunction id), s)
  | some f => if f.isDeclaration then return (.ok (), s) else p.analyseFunction s f

/-- Analyse functions one after the other, and list those that were analysed and those whose
analysis stopped at a fault. -/
def analyseAll (p : Plan R) (s : Session R) :
    List FunctionId → Fresh (List FunctionId × List (FunctionId × Fault) × Session R)
  | [] => return ([], [], s)
  | id :: ids => do
    let (answer, s) ← p.analyse s id
    let (analysed, failed, s) ← p.analyseAll s ids
    match answer with
    | .ok _ => return (id :: analysed, failed, s)
    | .error fault => return (analysed, (id, fault) :: failed, s)

end Plan

/-- The outcome of the analysis of a module. -/
structure Analysis (R : Type) where
  /-- What the activations have found. -/
  findings : Findings R
  /-- What is known of global variables at the end. -/
  globals : Store R
  /-- The functions that were analysed. -/
  analysed : List FunctionId
  /-- The functions whose analysis stopped at a fault. -/
  failed : List (FunctionId × Fault)

namespace Analysis

/-- The worst error of an operand of a function. -/
def valueError? (a : Analysis R) (f : FunctionId) (v : Value R) : Option R :=
  (Key.of? f v).bind a.findings.results.errorOf?

/-- The worst error that a function has returned. -/
def functionError? (a : Analysis R) (f : FunctionId) : Option R := (a.findings.summary f).absError

/-- The error of a global variable. -/
def globalError? (a : Analysis R) (g : GlobalId) : Option R :=
  (a.globals.get? (.global g)).bind Estimate.absError

/-- The verdict on the comparison whose result an operand is. -/
def verdict? (a : Analysis R) (f : FunctionId) (v : Value R) : Option (Verdict R) :=
  v.inst?.bind fun id => a.findings.results.verdicts.get? (.inst f id)

/-- The worst error of a label, zero if there is none. -/
def targetError (a : Analysis R) (label : String) : R := a.findings.results.targets.errorFor label

end Analysis

/-- Analyse a module whose validity has been checked, from all functions that the settings ask
for. -/
def Module.analyse (m : Module R) (settings : Settings) : Fresh (Analysis R) := do
  let p := Plan.of m settings
  let (analysed, failed, s) ← p.analyseAll (← Session.start m) (m.entries settings)
  return ⟨s.findings, s.globals, analysed, failed⟩

end Roundoff
