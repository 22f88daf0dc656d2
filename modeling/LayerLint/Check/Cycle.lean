/-
  LayerLint.Check.Cycle: circular dependencies, one violation for each cycle the graph reports.
-/

import LayerLint.Graph.Cycles
import LayerLint.Violation

namespace LayerLint

namespace Check.Cycle

/-- `a → b → a`: the cycle with its first file again at the end. -/
def render (cycle : List String) : String := " → ".intercalate (cycle ++ cycle.take 1)

def ofCycle? (ctx : Context) (cycle : List String) : Option Violation :=
  match cycle with
  | [] => none
  | first :: _ =>
    some (.of ctx.severities (.circularDependency cycle) ⟨first, none⟩
      s!"Circular dependency detected: {render cycle}"
      "Break the cycle by extracting the shared part or depending on an abstraction")

def run (ctx : Context) : List Violation := ctx.graph.cycles.filterMap (ofCycle? ctx)

end Check.Cycle

end LayerLint
