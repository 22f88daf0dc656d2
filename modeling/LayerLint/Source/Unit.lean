/-
  LayerLint.Source.Unit: one analysed file.

  A unit is what the rules look at: the path, the text, the imports and exports read from the text,
  the layer of the path, and the number of functions if a parser counted them.
-/

import LayerLint.Classifier
import LayerLint.Json.Decode
import LayerLint.Path
import LayerLint.Source.Export

namespace LayerLint

structure SourceUnit where
  /-- Relative to the project, divided by slashes. -/
  path : String
  content : String
  imports : List Import
  exports : List String
  layer : Option Layer
  functions : Nat
  deriving DecidableEq, Repr

namespace SourceUnit

/-- The unit of a file with this text, before any functions are counted. -/
def ofContent (classifier : Classifier) (path content : String) : SourceUnit where
  path := path
  content := content
  imports := Source.imports content
  exports := Source.exports content
  layer := classifier.classify path
  functions := 0

def stem (u : SourceUnit) : String := Path.stem u.path

def dir (u : SourceUnit) : String := Path.dir u.path

end SourceUnit

/-! ## Units as JSON -/

def Layer.toJson (l : Layer) : Json := .str l.name

def Layer.optionJson (l : Option Layer) : Json := (l.map toJson).getD .null

namespace Import

def toJson (i : Import) : Json := .obj [("specifier", .str i.specifier), ("line", .nat i.line)]

def ofJson? (v : Json) : Option Import := do
  let r ← Json.record? .json ["specifier", "line"] v
  return ⟨← r.required "specifier" Json.str?, ← r.required "line" Json.count?⟩

end Import

namespace SourceUnit

def toJson (u : SourceUnit) : Json :=
  .obj [("path", .str u.path), ("imports", .arr (u.imports.map Import.toJson)),
    ("exports", .strings u.exports), ("layer", Layer.optionJson u.layer),
    ("functions", .nat u.functions)]

/-- Reads a unit, whose text is then empty. -/
def ofJson? (v : Json) : Option SourceUnit := do
  let r ← Json.record? .json ["path", "imports", "exports", "layer", "functions"] v
  let path ← r.required "path" Json.str?
  let imports ← r.required "imports" (Json.list? Import.ofJson?)
  let exports ← r.required "exports" Json.strings?
  let layer ← r.optional "layer" (Json.nullable? fun v => v.tag? .json >>= Layer.ofName?) none
  let functions ← r.required "functions" Json.count?
  return ⟨path, "", imports, exports, layer, functions⟩

end SourceUnit

end LayerLint
