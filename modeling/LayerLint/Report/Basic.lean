/-
  LayerLint.Report.Basic: the outcome of a run.

  A report holds the violations of every rule, the gravest first; among equals the order of the checks
  is kept. `aggregate` sorts violations by the rule they carry, whatever check they came from.
-/

import LayerLint.Check.Basic
import LayerLint.Graph.Metrics
import LayerLint.Report.Metrics

namespace LayerLint

structure Report where
  units : List SourceUnit
  graph : Graph
  violations : PerRule (List Violation)
  metrics : ProjectMetrics
  graphMetrics : GraphMetrics
  deriving DecidableEq, Repr

namespace Report

def bySeverity (violations : List Violation) (rule : Rule) : List Violation :=
  (violations.filter fun v => v.rule = rule).mergeSort fun a b =>
    decide (a.severity.rank ≤ b.severity.rank)

def aggregate (outputs : List Check.Output) (units : List SourceUnit) (graph : Graph) : Report where
  units := units
  graph := graph
  violations := .ofFn (bySeverity (outputs.flatMap (·.violations)))
  metrics := .ofUnits units
  graphMetrics := graph.metrics

def all (r : Report) : List Violation := Rule.all.flatMap r.violations.get

def total (r : Report) : Nat :=
  (Rule.all.map fun rule => (r.violations.get rule).length).foldr (· + ·) 0

def countAtLeast (r : Report) (threshold : Severity) : Nat :=
  r.all.countP fun v => v.severity.atLeast threshold

def countOf (r : Report) (severity : Severity) : Nat := r.all.countP fun v => v.severity = severity

/-! ## Reports as JSON -/

def entries (r : Report) : List (String × Json) :=
  [("units", .arr (r.units.map SourceUnit.toJson)), ("graph", r.graph.toJson),
   ("violations", .obj (Rule.all.map fun rule =>
     (rule.name, .arr ((r.violations.get rule).map Violation.toJson)))),
   ("metrics", r.metrics.toJson), ("graph_metrics", r.graphMetrics.toJson)]

def toJson (r : Report) : Json := .obj r.entries

def passes (r : Report) (failOn : Severity) : Bool := r.countAtLeast failOn == 0

/-- What a renderer makes of a check: the output, and whether the check passed. -/
structure Judged (α : Type) where
  output : α
  passed : Bool

def Judged.map {α β : Type} (f : α → β) (j : Judged α) : Judged β := ⟨f j.output, j.passed⟩

@[simp] theorem Judged.output_map {α β : Type} (f : α → β) (j : Judged α) : (j.map f).output = f j.output := rfl

@[simp] theorem Judged.passed_map {α β : Type} (f : α → β) (j : Judged α) : (j.map f).passed = j.passed := rfl

def judgeJson (r : Report) (failOn : Severity) : Judged Json :=
  let failing := r.countAtLeast failOn
  let passed := failing == 0
  ⟨.obj (r.entries ++ [("check", .obj [("passed", .bool passed), ("fail_on", .str failOn.name),
    ("failing_violation_count", .nat failing)])]), passed⟩

def checkJson (r : Report) (failOn : Severity) : Json := (r.judgeJson failOn).output

end Report

end LayerLint
