import PipelineFusion.Optimizer.Fixpoint
import PipelineFusion.Plan.Description

/-!
# Reports

The outcome of a run as a JSON document.
-/

namespace PipelineFusion

def Applied.toJson (a : Applied) : Json :=
  .object
    [("rule_name", .string a.rule), ("depth", .natural a.depth), ("before", .string a.before),
      ("after", .string a.after)]

def Outcome.toJson (o : Outcome) : Json :=
  .object
    [("explain", .string o.plan.explain),
      ("nodes", .array (Description.toJsons o.plan.describe)),
      ("iterations", .natural o.iterations),
      ("rules_applied", .natural o.rulesApplied),
      ("exhausted", .boolean o.exhausted),
      ("trace", .array (o.trace.map Applied.toJson))]

def Outcome.report (o : Outcome) : String := o.toJson.pretty 0

end PipelineFusion
