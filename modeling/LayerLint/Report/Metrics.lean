/-
  LayerLint.Report.Metrics: counts over a project.

  The counts depend on the units alone. Every file is counted once, in its layer or among the
  unclassified ones.
-/

import LayerLint.Number.Binary64
import LayerLint.Source.Unit

namespace LayerLint

structure ProjectMetrics where
  totalFiles : Nat
  totalFunctions : Nat
  totalImports : Nat
  filesByLayer : PerLayer Nat
  unclassifiedFiles : Nat
  deriving DecidableEq, Repr

namespace ProjectMetrics

def filesIn (units : List SourceUnit) (layer : Option Layer) : Nat :=
  units.countP fun u => u.layer = layer

def ofUnits (units : List SourceUnit) : ProjectMetrics where
  totalFiles := units.length
  totalFunctions := (units.map (·.functions)).foldr (· + ·) 0
  totalImports := (units.map (·.imports.length)).foldr (· + ·) 0
  filesByLayer :=
    ⟨filesIn units (some .domain), filesIn units (some .application),
      filesIn units (some .infrastructure), filesIn units (some .shared)⟩
  unclassifiedFiles := filesIn units none

def fileCounts (m : ProjectMetrics) : List (String × Nat) :=
  [("application", m.filesByLayer.application), ("domain", m.filesByLayer.domain),
   ("infrastructure", m.filesByLayer.infrastructure), ("none", m.unclassifiedFiles),
   ("shared", m.filesByLayer.shared)]

/-- The share of files that are in some layer, in percent. An empty project is fully covered. -/
def coverage (m : ProjectMetrics) : Binary64 :=
  if m.totalFiles = 0 then .ofRatio 100 1
  else (Binary64.ofRatio (m.totalFiles - m.unclassifiedFiles) m.totalFiles).scale 100

def toJson (m : ProjectMetrics) : Json :=
  .obj [("total_files", .nat m.totalFiles), ("total_functions", .nat m.totalFunctions),
    ("total_imports", .nat m.totalImports),
    ("files_by_layer", .obj (m.fileCounts.map fun e => (e.1, .nat e.2)))]

end ProjectMetrics

end LayerLint
