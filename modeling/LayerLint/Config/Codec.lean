/-
  LayerLint.Config.Codec: settings as JSON documents.

  `toJson` writes every section and field. `ofJson?` reads a document in which any section and any
  field may be missing and then has its default; a key that means nothing is passed over, and a value
  of the wrong type, null included, makes the whole document unreadable. `ofText?` reads the text of a
  settings file.
-/

import LayerLint.Config.Basic
import LayerLint.Json.Decode
import LayerLint.Toml.Parser

namespace LayerLint

namespace Config

open Json (Format)

def readLayer (format : Format) (v : Json) : Option Layer := v.tag? format >>= Layer.ofName?

def readSeverity (format : Format) (v : Json) : Option Severity :=
  v.tag? format >>= Severity.ofName?

def layerNames : List String := Layer.all.map Layer.name

def tableJson (t : List (String × String)) : Json := .obj (t.map fun e => (e.1, .str e.2))

namespace Project

def toJson (p : Project) : Json :=
  .obj [("include", .strings p.includes), ("exclude", .strings p.excludes),
    ("max_workers", .nat p.maxWorkers)]

def ofJson? (format : Format) (v : Json) : Option Project := do
  let r ← Json.record? format ["include", "exclude", "max_workers"] v
  let includes ← r.optional "include" Json.strings? defaultIncludes
  let excludes ← r.optional "exclude" Json.strings? defaultExcludes
  let maxWorkers ← r.optional "max_workers" Json.count? 0
  return ⟨includes, excludes, maxWorkers⟩

end Project

def allowedJson (a : PerLayer (List Layer)) : Json :=
  .obj (Layer.all.map fun l => (l.name, .strings ((a.get l).map Layer.name)))

def readAllowed (format : Format) (v : Json) : Option (PerLayer (List Layer)) := do
  let r ← Json.record? format layerNames v
  let field (l : Layer) :=
    r.optional l.name (Json.list? (readLayer format)) (Layers.allowedFrom l)
  return ⟨← field .domain, ← field .application, ← field .infrastructure, ← field .shared⟩

namespace Layers

def toJson (s : Layers) : Json :=
  .obj (Layer.all.map (fun l => (l.name, .strings (s.words.get l))) ++
    [("allowed", allowedJson s.allowed)])

def ofJson? (format : Format) (v : Json) : Option Layers := do
  let r ← Json.record? format (layerNames ++ ["allowed"]) v
  let field (l : Layer) := r.optional l.name Json.strings? (defaultWords.get l)
  let words := ⟨← field .domain, ← field .application, ← field .infrastructure, ← field .shared⟩
  let allowed ← r.optional "allowed" (readAllowed format) defaultAllowed
  return ⟨words, allowed⟩

end Layers

namespace Aggregates

def toJson (a : Aggregates) : Json :=
  .obj [("root_markers", .strings a.rootMarkers),
    ("structural_folders", .strings a.structuralFolders),
    ("shared_folders", .strings a.sharedFolders)]

def ofJson? (format : Format) (v : Json) : Option Aggregates := do
  let r ← Json.record? format ["root_markers", "structural_folders", "shared_folders"] v
  let rootMarkers ← r.optional "root_markers" Json.strings? defaultRootMarkers
  let structuralFolders ← r.optional "structural_folders" Json.strings? defaultStructuralFolders
  let sharedFolders ← r.optional "shared_folders" Json.strings? defaultSharedFolders
  return ⟨rootMarkers, structuralFolders, sharedFolders⟩

end Aggregates

namespace Naming

def toJson (n : Naming) : Json :=
  .obj [("suffixes", tableJson n.suffixes), ("vague_suffixes", tableJson n.vagueSuffixes)]

def ofJson? (format : Format) (v : Json) : Option Naming := do
  let r ← Json.record? format ["suffixes", "vague_suffixes"] v
  let suffixes ← r.optional "suffixes" (Json.table? Json.str?) defaultSuffixes
  let vagueSuffixes ← r.optional "vague_suffixes" (Json.table? Json.str?) defaultVagueSuffixes
  return ⟨suffixes, vagueSuffixes⟩

end Naming

namespace Packages

def toJson (p : Packages) : Json :=
  .obj (Layer.all.map fun l => (l.name, .strings (p.get l)))

def ofJson? (format : Format) (v : Json) : Option Packages := do
  let r ← Json.record? format layerNames v
  let field (l : Layer) := r.optional l.name Json.strings? (deniedIn l)
  return ⟨← field .domain, ← field .application, ← field .infrastructure, ← field .shared⟩

end Packages

namespace Rules

def toJson (s : Rules) : Json :=
  .obj [("severities", .obj (s.severities.map fun e => (e.1, .str e.2.name))),
    ("fail_on", .str s.failOn.name), ("disabled", .strings s.disabled)]

def ofJson? (format : Format) (v : Json) : Option Rules := do
  let r ← Json.record? format ["severities", "fail_on", "disabled"] v
  let severities ← r.optional "severities" (Json.table? (readSeverity format)) defaultSeverities
  let failOn ← r.optional "fail_on" (readSeverity format) defaultFailOn
  let disabled ← r.optional "disabled" Json.strings? []
  return ⟨severities, failOn, disabled⟩

end Rules

def toJson (c : Config) : Json :=
  .obj [("project", c.project.toJson), ("layers", c.layers.toJson),
    ("aggregates", c.aggregates.toJson), ("naming", c.naming.toJson),
    ("packages", Packages.toJson c.packages), ("rules", c.rules.toJson)]

def ofJson? (format : Format) (v : Json) : Option Config := do
  let r ← Json.record? format
    ["project", "layers", "aggregates", "naming", "packages", "rules"] v
  let project ← r.optional "project" (Project.ofJson? format) .default
  let layers ← r.optional "layers" (Layers.ofJson? format) .default
  let aggregates ← r.optional "aggregates" (Aggregates.ofJson? format) .default
  let naming ← r.optional "naming" (Naming.ofJson? format) .default
  let packages ← r.optional "packages" (Packages.ofJson? format) Packages.default
  let rules ← r.optional "rules" (Rules.ofJson? format) .default
  return ⟨project, layers, aggregates, naming, packages, rules⟩

/-! ## Settings files -/

def fileName : String := ".strata.toml"

def ofText? (text : String) : Option Config := do
  ofJson? .toml (.obj (Toml.entriesJson (← Toml.parse? text)))

def unreadable (path : String) : String :=
  s!"failed to parse '{path}'. Run \x60strata init\x60 to create a valid config file"

end Config

end LayerLint
