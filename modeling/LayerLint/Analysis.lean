/-
  LayerLint.Analysis: from the files of a project to a report.

  Only a scan that fails makes a run fail. A file that cannot be read is left out, and one whose
  functions cannot be counted has none. Units are in the order of their paths, so that the report does
  not depend on the order of the scan; a path that is listed twice gives the same unit twice.
-/

import LayerLint.Graph.Resolve
import LayerLint.Report.Basic
import LayerLint.TypeScript.Parser

namespace LayerLint

structure FileAccess where
  /-- The paths that some include pattern admits and no exclude pattern, or the causes of a failure,
      the outermost first. -/
  scan : List String → List String → Except (List String) (List String)
  /-- The text of a file, if it can be read. -/
  read : String → Option String

/-- Counts the functions in a file with a path and a text, if it can. -/
abbrev FunctionCounter := String → String → Option Nat

def FunctionCounter.builtin : FunctionCounter := fun path content =>
  some (TypeScript.countFunctions path content)

structure ScanFailure where
  root : String
  causes : List String
  deriving DecidableEq, Repr

def ScanFailure.message (e : ScanFailure) : String :=
  s!"failed to scan {e.root}: " ++ ": ".intercalate e.causes

structure Analysis where
  config : Config
  /-- Without a counter no file has functions. -/
  counter : Option FunctionCounter
  scanner : SecretScanner
  /-- Replaces the checks of the configuration. -/
  checks : Option (List Check)

namespace Analysis

def ofConfig (config : Config) : Analysis := ⟨config, some .builtin, .builtin, none⟩

variable (a : Analysis)

def classifier : Classifier := .ofLayers a.config.layers

def countFunctions (path content : String) : Nat :=
  ((a.counter.bind fun count => count path content)).getD 0

def unit? (access : FileAccess) (path : String) : Option SourceUnit :=
  (access.read path).map fun content =>
    { SourceUnit.ofContent a.classifier path content with
      functions := a.countFunctions path content }

/-- The units of the files that can be read, in the order of their paths. -/
def units (access : FileAccess) (paths : List String) : List SourceUnit :=
  (paths.filterMap (a.unit? access)).mergeSort fun u v => decide (u.path ≤ v.path)

def activeChecks : List Check := a.checks.getD (Check.builtin a.config a.scanner)

def context (units : List SourceUnit) : Check.Context where
  units := units
  graph := .build units
  classifier := a.classifier
  severities := a.config.severityMap

def outputs (units : List SourceUnit) : List Check.Output :=
  a.activeChecks.map fun check => check.output (a.context units)

def report (units : List SourceUnit) : Report :=
  .aggregate (a.outputs units) units (.build units)

/-- Scans and reads a project and reports on it. Patterns that are given replace those of the
    configuration. -/
def run (access : FileAccess) (root : String) (includes excludes : Option (List String)) :
    Except ScanFailure Report :=
  match access.scan (includes.getD a.config.project.includes)
      (excludes.getD a.config.project.excludes) with
  | .ok paths => .ok (a.report (a.units access paths))
  | .error causes => .error ⟨root, causes⟩

section

variable {access : FileAccess} {includes excludes : Option (List String)}

theorem run_of_scan_ok {paths : List String}
    (h : access.scan (includes.getD a.config.project.includes) (excludes.getD a.config.project.excludes) =
      .ok paths) (root : String) :
    a.run access root includes excludes = .ok (a.report (a.units access paths)) := by
  simp only [run, h]

theorem run_of_scan_error {causes : List String}
    (h : access.scan (includes.getD a.config.project.includes) (excludes.getD a.config.project.excludes) =
      .error causes) (root : String) :
    a.run access root includes excludes = .error ⟨root, causes⟩ := by
  simp only [run, h]

end

end Analysis

end LayerLint
