/-
# Settings of an analysis

The settings are chosen before an analysis and checked once.  Of several faults the first in the
order of the checks is reported.
-/
namespace Roundoff

/-- How errors are reported. -/
inductive ReportMode where
  /-- The bound of the error itself. -/
  | absolute
  /-- The bound divided by the largest magnitude of the value. -/
  | relative
deriving DecidableEq, Repr

/-- The name of a report mode in texts. -/
def ReportMode.name : ReportMode → String
  | absolute => "absolute"
  | relative => "relative"

/-- All report modes. -/
def ReportMode.all : List ReportMode := [absolute, relative]

/-- The settings of an analysis. -/
structure Settings where
  /-- How often a loop is unrolled of which neither a hint nor the number of iterations is known. -/
  defaultUnrollCount : UInt32 := 1
  /-- Whether every loop body is analysed only once. -/
  noLoopUnroll : Bool := false
  /-- The percentage of relative error from which on a comparison is reported; zero reports every
  comparison that may flip. -/
  cmpErrorThreshold : UInt32 := 0
  /-- How many activations of a function may be nested, if the function does not say so. -/
  defaultMaxRecursion : UInt32 := 1
  /-- Whether only the marked entry points are analysed. -/
  propagateOnlyFlagged : Bool := false
  /-- How errors are reported. -/
  reportMode : ReportMode := .absolute
  /-- Whether loops are bounded in closed form where that is possible. -/
  lipschitzLoops : Bool := true
deriving DecidableEq, Repr

instance : Inhabited Settings := ⟨{}⟩

/-- The largest number of times that a loop is unrolled by default. -/
def maxUnrollCount : UInt32 := 1024

/-- The largest number of nested activations allowed by default. -/
def maxRecursionBound : UInt32 := 64

/-- A fault of the settings. -/
inductive SettingsError where
  /-- A value lies outside the range of its field. -/
  | outOfRange (field : String) (value least greatest : UInt32) (hint : String)
  /-- Two settings contradict each other. -/
  | conflict (issue fix : String)
  /-- The settings are not written as they should be. -/
  | syntaxError
deriving DecidableEq, Repr

namespace SettingsError

/-- The text of a fault. -/
def message : SettingsError → String
  | outOfRange field value least greatest hint =>
    s!"Invalid range for field '{field}': {value} not in {least}..={greatest}. {hint}"
  | conflict issue fix => s!"Configuration conflict: {issue}. Fix: {fix}"
  | syntaxError => "YAML parsing error"

end SettingsError

namespace Settings

/-- The fault of a field that must lie between two bounds. -/
def rangeFault? (field : String) (value least greatest : UInt32) (hint : String) :
    Option SettingsError :=
  if least ≤ value ∧ value ≤ greatest then none
  else some (.outOfRange field value least greatest hint)

/-- The first fault of the settings. -/
def fault? (s : Settings) : Option SettingsError :=
  (rangeFault? "default_unroll_count" s.defaultUnrollCount 1 maxUnrollCount
      "Use no_loop_unroll to disable unrolling")
    |>.or (rangeFault? "cmp_error_threshold" s.cmpErrorThreshold 0 100
      "The threshold is a percentage")
    |>.or (rangeFault? "default_max_recursion" s.defaultMaxRecursion 1 maxRecursionBound
      "At least one activation of each function must be allowed")
    |>.or (if s.noLoopUnroll ∧ 1 < s.defaultUnrollCount then
        some (.conflict "no_loop_unroll is set together with default_unroll_count > 1"
          "remove default_unroll_count or clear no_loop_unroll")
      else none)

/-- Check the settings. -/
def validate (s : Settings) : Except SettingsError Unit :=
  match s.fault? with
  | some e => .error e
  | none => .ok ()

/-- How often a loop is unrolled: as often as the hint says, but not more often than the loop runs;
without a hint as often as the loop runs, up to the greatest count; and as often as set by default
if neither is known.  A known number of zero iterations counts as unknown, and every loop is
visited at least once. -/
def unrollCount (s : Settings) (hint tripCount : Option UInt32) : UInt32 :=
  if s.noLoopUnroll then 1
  else
    let count :=
      match hint, tripCount.filter (· ≠ 0) with
      | some h, some t => min h t
      | some h, none => h
      | none, some t => min t maxUnrollCount
      | none, none => s.defaultUnrollCount
    max count 1

end Settings

end Roundoff
