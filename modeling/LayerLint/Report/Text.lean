/-
  LayerLint.Report.Text: reports for people to read.

  The options only hide violations: `minSeverity` those that are less grave, `limit` those after the
  first few of each rule. Titles, metrics and totals are the same whatever is hidden.
-/

import LayerLint.Report.Basic
import LayerLint.Report.Styled

namespace LayerLint

namespace Report

structure TextOptions where
  /-- Hides violations that are less grave than this. -/
  minSeverity : Option Severity
  /-- Shows at most so many violations of a rule. -/
  limit : Option Nat
  deriving DecidableEq, Repr

def TextOptions.default : TextOptions := ⟨none, none⟩

def title : Rule → String
  | .layerDirection => "Layer direction"
  | .circularDependency => "Circular dependencies"
  | .aggregateBoundary => "Aggregate boundaries"
  | .naming => "Naming"
  | .forbiddenPackage => "Forbidden packages"
  | .hardcodedSecret => "Hardcoded secrets"

def severityLabel : Severity → Span
  | .critical => ⟨.boldColored .red, "CRITICAL"⟩
  | .high => ⟨.colored .red, "HIGH"⟩
  | .medium => ⟨.colored .yellow, "MEDIUM"⟩
  | .low => ⟨.colored .blue, "LOW"⟩

def doubleRule : String := String.ofList (List.replicate 40 '=')

def singleRule : String := String.ofList (List.replicate 40 '-')

def detail : Finding → String
  | .layerDirection importing imported _ => s!"{importing.name} -> {imported.name}"
  | .circularDependency cycle => s!"{cycle.length} files"
  | .aggregateBoundary importing imported _ => s!"{importing} -> {imported}"
  | .naming _ suggested => s!"rename to {suggested}"
  | .forbiddenPackage package _ => package
  | .hardcodedSecret kind column => s!"{kind} at column {column}"

/-- One violation, which is set off by an empty line. -/
def violationText (v : Violation) : Styled :=
  [⟨.plain, "\n  "⟩, severityLabel v.severity,
   ⟨.plain, s!" [{detail v.finding}] {v.location.text}\n    {v.message}\n"⟩] ++
  match v.suggestion with
  | some s => [⟨.plain, "    "⟩, ⟨.colored .cyan, "Suggestion"⟩, ⟨.plain, s!": {s}\n"⟩]
  | none => []

def visible (o : TextOptions) (violations : List Violation) : List Violation :=
  match o.minSeverity with
  | some least => violations.filter fun v => v.severity.atLeast least
  | none => violations

/-- The violations that are printed: those that are visible, up to the limit. -/
def shown (o : TextOptions) (violations : List Violation) : List Violation :=
  match o.limit with
  | some n => (visible o violations).take n
  | none => visible o violations

def moreText (o : TextOptions) (violations : List Violation) : Styled :=
  match (visible o violations).length - (shown o violations).length with
  | 0 => []
  | n => [⟨.plain, "  "⟩, ⟨.dimmed, s!"... and {n} more"⟩, ⟨.plain, "\n"⟩]

/-- The section of one rule, which is left out when none of its violations is visible. -/
def ruleText (o : TextOptions) (rule : Rule) (violations : List Violation) : Styled :=
  match (visible o violations).length with
  | 0 => []
  | n =>
    [⟨.plain, "\n"⟩, ⟨.bold, title rule⟩, ⟨.plain, s!" ({n})\n"⟩] ++
    (shown o violations).flatMap violationText ++ moreText o violations

def summaryText (r : Report) : Styled :=
  let m := r.metrics
  let g := r.graphMetrics
  [⟨.plain, "\n"⟩, ⟨.bold, "Strata - Layered Architecture Analysis"⟩,
   ⟨.plain, s!"\n{doubleRule}\n\n"⟩, ⟨.bold, "Summary"⟩,
   ⟨.plain, s!": {m.totalFiles} files, {m.totalImports} imports, {m.totalFunctions} functions\n\n"⟩,
   ⟨.bold, "Metrics"⟩, ⟨.plain, s!"\n{singleRule}\n  Files by layer:\n"⟩] ++
  m.fileCounts.flatMap (fun e => Styled.plain s!"    {e.1}: {e.2}\n") ++
  [⟨.plain, s!"  Layer coverage: {m.coverage.fixed 1}%\n"⟩,
   ⟨.plain, s!"  Dependency graph: {g.edgeCount} edges, out-degree avg={g.avgOutDegree.fixed 2} "⟩,
   ⟨.plain, s!"max={g.maxOutDegree}\n"⟩]

def totalsText (r : Report) : Styled :=
  let count (s : Severity) : String := s!"{r.countOf s} {s.name}"
  let counts := ", ".intercalate (Severity.all.map count)
  [⟨.plain, "\n"⟩, ⟨.boldColored .red, "Violations"⟩,
   ⟨.plain, s!" ({r.total} found: {counts})\n{singleRule}\n"⟩]

def text (o : TextOptions) (r : Report) : Styled :=
  r.summaryText ++
  if r.total = 0 then
    [⟨.plain, "\n"⟩, ⟨.boldColored .green, "No violations found!"⟩, ⟨.plain, "\n\n"⟩]
  else
    r.totalsText ++ Rule.all.flatMap (fun rule => ruleText o rule (r.violations.get rule)) ++
      Styled.plain "\n"

def judgeText (r : Report) (failOn : Severity) : Judged Styled :=
  let failing := r.countAtLeast failOn
  let passed := failing == 0
  ⟨r.text .default ++
    if passed then [⟨.boldColored .green, "CHECK PASSED"⟩, ⟨.plain, "\n"⟩]
    else
      [⟨.boldColored .red, "CHECK FAILED"⟩,
       ⟨.plain, s!": {failing} violation(s) at severity {failOn.name} or above\n"⟩], passed⟩

def checkText (r : Report) (failOn : Severity) : Styled := (r.judgeText failOn).output

end Report

end LayerLint
