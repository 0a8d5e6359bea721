/-
# Reports

A report lists the worst error of every value, the verdicts on comparisons, the functions that were
activated, the labels and the functions whose analysis stopped.  In relative mode the error of a
value is divided by the largest magnitude in its range, unless there is no range to divide by;
tolerances of comparisons and errors of labels are absolute in any case.
-/
import Roundoff.Analysis.Session
import Roundoff.Program.Text
import Roundoff.Settings.Json

namespace Roundoff

/-- The worst error of the result of an instruction. -/
structure InstructionEntry (R : Type) where
  /-- The name of the function. -/
  function : String
  /-- The instruction. -/
  inst : InstId
  /-- The name of the result. -/
  name : String
  /-- The error. -/
  error : R
deriving BEq, Repr

/-- The verdict on a comparison. -/
structure ComparisonEntry (R : Type) where
  /-- The name of the function. -/
  function : String
  /-- The comparison. -/
  inst : InstId
  /-- The verdict. -/
  verdict : Verdict R
deriving BEq, Repr

/-- The activations of a function. -/
structure FunctionEntry (R : Type) where
  /-- The name of the function. -/
  function : String
  /-- The worst error returned. -/
  error : Option R
  /-- The number of activations. -/
  activations : UInt32
  /-- The number of calls that were not followed. -/
  skipped : UInt32
deriving BEq, Repr

/-- The report on the analysis of a module. -/
structure Report (R : Type) where
  /-- The name of the module. -/
  module : String
  /-- How errors are reported. -/
  mode : ReportMode
  /-- The worst errors of values. -/
  instructions : List (InstructionEntry R)
  /-- The verdicts on comparisons. -/
  comparisons : List (ComparisonEntry R)
  /-- The functions that were activated, by name. -/
  functions : List (FunctionEntry R)
  /-- The worst errors of labels. -/
  targets : List (String × R)
  /-- The functions whose analysis stopped, with the reason. -/
  failures : List (String × String)
deriving BEq, Repr

/-- The name of a function of a module. -/
def Module.functionName {R : Type} (m : Module R) (id : FunctionId) : String :=
  match m.function? id with
  | some f => f.name
  | none => s!"#{id.val}"

/-- The name of the result of an instruction of a module. -/
def Module.resultName {R : Type} (m : Module R) (f : FunctionId) (id : InstId) : String :=
  match (m.function? f).bind fun f => f.inst? id with
  | some i => i.name
  | none => ""

variable {R : Type} [Number R]

/-- The error of a value as it is reported. -/
def Estimate.reported? (e : Estimate R) (mode : ReportMode) : Option R :=
  e.absError.map fun bound =>
    match mode with
    | .absolute => bound
    | .relative =>
      let magnitude := e.range.maxAbs
      if e.range.isUnknown || magnitude == 0 then bound else bound / magnitude

namespace Report

/-- The entry of a value. -/
def instruction? (m : Module R) (mode : ReportMode) :
    Key × Estimate R → Option (InstructionEntry R)
  | (.inst f id, e) =>
    (e.reported? mode).map fun error => ⟨m.functionName f, id, m.resultName f id, error⟩
  | _ => none

/-- The entry of a comparison. -/
def comparison? (m : Module R) : Key × Verdict R → Option (ComparisonEntry R)
  | (.inst f id, v) => some ⟨m.functionName f, id, v⟩
  | _ => none

/-- The entry of a function, if it was activated. -/
def function? (m : Module R) (mode : ReportMode) :
    FunctionId × Summary R → Option (FunctionEntry R)
  | (f, s) =>
    if s.activations = 0 then none
    else some ⟨m.functionName f, s.error.bind fun e => e.reported? mode,
      UInt32.ofNat s.activations, UInt32.ofNat s.skipped⟩

/-- Put a function in its place among functions that are sorted by name, in front of those with its
name. -/
def insertSorted (x : FunctionEntry R) : List (FunctionEntry R) → List (FunctionEntry R)
  | [] => [x]
  | y :: ys => if y.function < x.function then y :: insertSorted x ys else x :: y :: ys

/-- The report on the analysis of a module. -/
def of (m : Module R) (mode : ReportMode) (a : Analysis R) : Report R where
  module := m.name
  mode := mode
  instructions := a.findings.results.values.toList.filterMap (instruction? m mode)
  comparisons := a.findings.results.verdicts.toList.filterMap (comparison? m)
  functions := (a.findings.summaries.toList.filterMap (function? m mode)).foldr insertSorted []
  targets := a.findings.results.targets.errors.toList
  failures := a.failed.map fun (id, fault) => (m.functionName id, fault.message)

/-- The comparisons that may flip. -/
def wrongComparisons (r : Report R) : List (ComparisonEntry R) :=
  r.comparisons.filter fun c => c.verdict.mayFlip

end Report

/-! ## Text -/

section Text

open Json

omit [Number R]

variable [ToJson R] [OfJson R]

/-- A field that is written only if a list has items. -/
def listField {α : Type} [ToJson α] (name : String) (xs : List α) : List (String × Json) :=
  if xs.isEmpty then [] else [(name, toJson xs)]

instance : ToJson (InstructionEntry R) where
  toJson e :=
    obj ([("function", toJson e.function), ("inst", toJson e.inst)]
      ++ (if e.name = "" then [] else [("name", toJson e.name)]) ++ [("error", toJson e.error)])

instance : OfJson (InstructionEntry R) where
  ofJson? j := do
    let r ← fields? ["function", "inst", "name", "error"] j
    return ⟨← r.required "function", ← r.required "inst", ← r.withDefault "name" "",
      ← r.required "error"⟩

instance : ToJson (ComparisonEntry R) where
  toJson e :=
    obj [("function", toJson e.function), ("inst", toJson e.inst),
      ("tolerance", toJson e.verdict.tolerance), ("may_be_wrong", toJson e.verdict.mayFlip)]

instance : OfJson (ComparisonEntry R) where
  ofJson? j := do
    let r ← fields? ["function", "inst", "tolerance", "may_be_wrong"] j
    return ⟨← r.required "function", ← r.required "inst",
      ⟨← r.required "tolerance", ← r.required "may_be_wrong"⟩⟩

instance : ToJson (FunctionEntry R) where
  toJson e :=
    obj ([("function", toJson e.function)] ++ optionalField "error" e.error
      ++ [("activations", toJson e.activations), ("skipped_calls", toJson e.skipped)])

instance : OfJson (FunctionEntry R) where
  ofJson? j := do
    let r ← fields? ["function", "error", "activations", "skipped_calls"] j
    return ⟨← r.required "function", ← r.optional "error", ← r.required "activations",
      ← r.required "skipped_calls"⟩

namespace Report

/-- The labels of a report and their errors: of two errors of one label the later one counts. -/
def targetsOf? : Json → Option (List (String × R))
  | obj fields => do
    let pairs ← fields.mapM fun (label, j) => (ofJson? j).map fun error => (label, error)
    return (Table.ofList pairs).toList
  | _ => none

end Report

instance : ToJson (Report R) where
  toJson r :=
    obj ([("module", toJson r.module), ("mode", toJson r.mode),
      ("instructions", toJson r.instructions), ("comparisons", toJson r.comparisons),
      ("functions", toJson r.functions),
      ("targets", obj (r.targets.map fun (label, error) => (label, toJson error)))]
      ++ listField "failures" r.failures)

instance : OfJson (Report R) where
  ofJson? j := do
    let r ← fields?
      ["module", "mode", "instructions", "comparisons", "functions", "targets", "failures"] j
    return {
      module := ← r.required "module"
      mode := ← r.required "mode"
      instructions := ← r.required "instructions"
      comparisons := ← r.required "comparisons"
      functions := ← r.required "functions"
      targets := ← Report.targetsOf? (← r.get? "targets")
      failures := ← r.withDefault "failures" [] }

namespace Report

/-- The text of a report. -/
def write (r : Report R) : String := (toJson r).writeLines

/-- Read a report from its text. -/
def read? (text : String) : Option (Report R) := (Json.read? text).bind ofJson?

end Report

end Text

end Roundoff
