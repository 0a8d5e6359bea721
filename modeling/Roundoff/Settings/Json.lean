/-
# Settings as JSON

The JSON form of settings: settings that are not given have their defaults.
-/
import Roundoff.Settings
import Roundoff.Json.Codec

namespace Roundoff

open Json

instance : ToJson ReportMode := ⟨fun mode => str mode.name⟩

instance : OfJson ReportMode := ⟨ofName? ReportMode.name ReportMode.all⟩

instance : ToJson Settings where
  toJson s :=
    obj [("default_unroll_count", toJson s.defaultUnrollCount),
      ("no_loop_unroll", toJson s.noLoopUnroll),
      ("cmp_error_threshold", toJson s.cmpErrorThreshold),
      ("default_max_recursion", toJson s.defaultMaxRecursion),
      ("propagate_only_flagged", toJson s.propagateOnlyFlagged),
      ("report_mode", toJson s.reportMode),
      ("lipschitz_loops", toJson s.lipschitzLoops)]

instance : OfJson Settings where
  ofJson? j := do
    let r ← fields?
      ["default_unroll_count", "no_loop_unroll", "cmp_error_threshold", "default_max_recursion",
        "propagate_only_flagged", "report_mode", "lipschitz_loops"] j
    let default : Settings := {}
    return {
      defaultUnrollCount := ← r.withDefault "default_unroll_count" default.defaultUnrollCount
      noLoopUnroll := ← r.withDefault "no_loop_unroll" default.noLoopUnroll
      cmpErrorThreshold := ← r.withDefault "cmp_error_threshold" default.cmpErrorThreshold
      defaultMaxRecursion := ← r.withDefault "default_max_recursion" default.defaultMaxRecursion
      propagateOnlyFlagged := ← r.withDefault "propagate_only_flagged" default.propagateOnlyFlagged
      reportMode := ← r.withDefault "report_mode" default.reportMode
      lipschitzLoops := ← r.withDefault "lipschitz_loops" default.lipschitzLoops }

end Roundoff
