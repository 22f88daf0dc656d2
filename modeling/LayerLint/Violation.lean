/-
  LayerLint.Violation: what the checks look at, and the breaches of rules that they find.

  A violation has a place, a message and perhaps a suggestion; its kind holds what the rule found. A
  violation that a rule makes has the rule of its kind and that rule's severity (`Violation.of`), but
  one that is read from JSON may be of any rule and severity.
-/

import LayerLint.Graph.Basic
import LayerLint.Rule

namespace LayerLint

/-- A file, and a line of it counted from one if one is known. -/
structure Location where
  file : String
  line : Option Nat
  deriving DecidableEq, Repr

namespace Location

def text (l : Location) : String :=
  match l.line with
  | some n => l.file ++ ":" ++ toString n
  | none => l.file

def toJson (l : Location) : Json :=
  .obj (("file", .str l.file) :: (l.line.map fun n => ("line", .nat n)).toList)

def ofJson? (v : Json) : Option Location := do
  let r ← Json.record? .json ["file", "line"] v
  return ⟨← r.required "file" Json.str?, ← r.optional "line" (Json.nullable? Json.count?) none⟩

end Location

inductive Finding where
  | layerDirection (importing imported : Layer) (specifier : String)
  | circularDependency (cycle : List String)
  | aggregateBoundary (importing imported : String) (specifier : String)
  | naming (actual suggested : String)
  | forbiddenPackage (package : String) (layer : Layer)
  | hardcodedSecret (kind : String) (column : Nat)
  deriving DecidableEq, Repr

namespace Finding

def rule : Finding → Rule
  | layerDirection .. => .layerDirection
  | circularDependency .. => .circularDependency
  | aggregateBoundary .. => .aggregateBoundary
  | naming .. => .naming
  | forbiddenPackage .. => .forbiddenPackage
  | hardcodedSecret .. => .hardcodedSecret

def toJson : Finding → Json
  | layerDirection importing imported specifier =>
    .obj [("LayerDirection", .obj [("from_layer", .str importing.name),
      ("to_layer", .str imported.name), ("import", .str specifier)])]
  | circularDependency cycle =>
    .obj [("CircularDependency", .obj [("cycle", .strings cycle)])]
  | aggregateBoundary importing imported specifier =>
    .obj [("AggregateBoundary", .obj [("from_aggregate", .str importing),
      ("to_aggregate", .str imported), ("import", .str specifier)])]
  | naming actual suggested =>
    .obj [("Naming", .obj [("actual", .str actual), ("suggested", .str suggested)])]
  | forbiddenPackage package layer =>
    .obj [("ForbiddenPackage", .obj [("package", .str package), ("layer", .str layer.name)])]
  | hardcodedSecret kind column =>
    .obj [("HardcodedSecret", .obj [("secret_type", .str kind), ("column", .nat column)])]

def readLayer (v : Json) : Option Layer := v.tag? .json >>= Layer.ofName?

/-- Reads a finding: an object with one entry, whose key tells the rule. -/
def ofJson? : Json → Option Finding
  | .obj [("LayerDirection", v)] => do
    let r ← Json.record? .json ["from_layer", "to_layer", "import"] v
    return layerDirection (← r.required "from_layer" readLayer) (← r.required "to_layer" readLayer)
      (← r.required "import" Json.str?)
  | .obj [("CircularDependency", v)] => do
    let r ← Json.record? .json ["cycle"] v
    return circularDependency (← r.required "cycle" Json.strings?)
  | .obj [("AggregateBoundary", v)] => do
    let r ← Json.record? .json ["from_aggregate", "to_aggregate", "import"] v
    return aggregateBoundary (← r.required "from_aggregate" Json.str?)
      (← r.required "to_aggregate" Json.str?) (← r.required "import" Json.str?)
  | .obj [("Naming", v)] => do
    let r ← Json.record? .json ["actual", "suggested"] v
    return naming (← r.required "actual" Json.str?) (← r.required "suggested" Json.str?)
  | .obj [("ForbiddenPackage", v)] => do
    let r ← Json.record? .json ["package", "layer"] v
    return forbiddenPackage (← r.required "package" Json.str?) (← r.required "layer" readLayer)
  | .obj [("HardcodedSecret", v)] => do
    let r ← Json.record? .json ["secret_type", "column"] v
    return hardcodedSecret (← r.required "secret_type" Json.str?) (← r.required "column" Json.count?)
  | _ => none

end Finding

structure Violation where
  rule : Rule
  finding : Finding
  severity : Severity
  location : Location
  message : String
  suggestion : Option String
  deriving DecidableEq, Repr

namespace Violation

/-- A violation with the rule of its finding and the severity of that rule. -/
def of (severities : SeverityMap) (finding : Finding) (location : Location)
    (message suggestion : String) : Violation where
  rule := finding.rule
  finding := finding
  severity := severities.get finding.rule
  location := location
  message := message
  suggestion := some suggestion

def toJson (v : Violation) : Json :=
  .obj ([("rule", .str v.rule.name), ("kind", v.finding.toJson), ("severity", .str v.severity.name),
    ("location", v.location.toJson), ("message", .str v.message)] ++
    (v.suggestion.map fun s => ("suggestion", .str s)).toList)

def ofJson? (v : Json) : Option Violation := do
  let r ← Json.record? .json
    ["rule", "kind", "severity", "location", "message", "suggestion"] v
  let rule ← r.required "rule" fun v => v.tag? .json >>= Rule.ofName?
  let finding ← r.required "kind" Finding.ofJson?
  let severity ← r.required "severity" fun v => v.tag? .json >>= Severity.ofName?
  let location ← r.required "location" Location.ofJson?
  let message ← r.required "message" Json.str?
  let suggestion ← r.optional "suggestion" (Json.nullable? Json.str?) none
  return ⟨rule, finding, severity, location, message, suggestion⟩

end Violation

namespace Check

structure Context where
  units : List SourceUnit
  graph : Graph
  classifier : Classifier
  severities : SeverityMap

def listed (names : List String) : String := ", ".intercalate names

end Check

end LayerLint
