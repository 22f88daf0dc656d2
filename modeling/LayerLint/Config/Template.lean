/-
  LayerLint.Config.Template: the settings file of a new project.

  The file spells the defaults out, so reading it gives the default settings.
-/

import LayerLint.Config.Basic

namespace LayerLint

namespace Config

namespace Template

def quote (s : String) : String := "\"" ++ s ++ "\""

def textLine (key value : String) : String := key ++ " = " ++ quote value

def listLine (key : String) (values : List String) : String :=
  key ++ " = [" ++ ", ".intercalate (values.map quote) ++ "]"

def project : List String :=
  ["[project]",
   listLine "include" Project.default.includes,
   listLine "exclude" Project.default.excludes,
   "# Concurrent file reads (0 = one per CPU)",
   "max_workers = 0"]

def layers : List String :=
  ["[layers]",
   "# Path segments that put a file into a layer. Checked in this order:",
   "# domain, application, infrastructure, shared."] ++
  Layer.all.map fun l => listLine l.name (Layers.defaultWords.get l)

def allowed : List String :=
  ["[layers.allowed]",
   "# Layers each layer may import from (same-layer imports are always allowed)"] ++
  Layer.all.map fun l => listLine l.name ((Layers.defaultAllowed.get l).map Layer.name)

def aggregates : List String :=
  ["[aggregates]",
   listLine "root_markers" Aggregates.default.rootMarkers,
   listLine "structural_folders" Aggregates.default.structuralFolders,
   "# Folders other aggregates may import from",
   listLine "shared_folders" Aggregates.default.sharedFolders]

def suffixes : List String :=
  ["[naming.suffixes]",
   textLine "repositories" "Repository",
   textLine "services" "Service",
   textLine "events" "Event",
   textLine "specifications" "Specification",
   textLine "errors" "Error",
   textLine "exceptions" "Error",
   textLine "factories" "Factory",
   textLine "policies" "Policy"]

def vagueSuffixes : List String :=
  ["[naming.vague_suffixes]",
   textLine "Manager" "Service",
   textLine "Helper" "Service",
   textLine "Util" "Service",
   textLine "Utils" "Service"]

def packages : List String :=
  ["[packages]",
   listLine "domain" Packages.default.domain,
   listLine "application" Packages.default.application]

def rules : List String :=
  ["[rules]",
   "# Severity levels: \"critical\", \"high\", \"medium\", \"low\"",
   textLine "fail_on" Rules.default.failOn.name,
   "# disabled = [\"naming\"]"]

/-- The rules, the gravest first. -/
def severities : List String :=
  ["[rules.severities]"] ++
  [Rule.layerDirection, .hardcodedSecret, .circularDependency, .forbiddenPackage,
    .aggregateBoundary, .naming].map fun r => textLine r.name r.severity.name

/-- The parts of the file, which are divided by empty lines. -/
def parts : List (List String) :=
  [["# Strata - Layered Architecture Analysis Configuration"], project, layers, allowed, aggregates,
   suffixes, vagueSuffixes, packages, rules, severities]

end Template

def template : String :=
  "\n".intercalate (Template.parts.map fun part => String.join (part.map (· ++ "\n")))

end Config

end LayerLint
