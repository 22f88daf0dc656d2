/-
  LayerLint.Check.Aggregate: imports that reach into another aggregate.

  The aggregate of a path is the first directory after a root marker that is not a structural folder.
  An import is followed as a text, never looked up, and is a breach when both ends have aggregates,
  they differ, and it neither passes a shared folder nor stays among the structural folders of its own
  aggregate.
-/

import LayerLint.Violation

namespace LayerLint

namespace Check.Aggregate

variable (settings : Config.Aggregates)

/-- Whether a segment is in a list, up to the case of ASCII letters. -/
def listed (names : List String) (seg : List Char) : Bool :=
  names.any fun n => Text.sameAscii n (String.ofList seg)

def afterMarker? (dirs : List (List Char)) : Option (List (List Char)) :=
  (dirs.findIdx? (listed settings.rootMarkers)).map fun i => dirs.drop (i + 1)

/-- The aggregate of a path. The last segment is the file and names none. -/
def infer? (path : String) : Option String := do
  let segs := (Path.segments path).filter (!·.isEmpty)
  let dirs ← afterMarker? settings segs.dropLast
  let seg ← dirs.find? (!listed settings.structuralFolders ·)
  return String.ofList seg

def passesShared (target : String) : Bool :=
  match afterMarker? settings (Path.segments target).dropLast with
  | some dirs => dirs.any (listed settings.sharedFolders)
  | none => false

def folder (u : SourceUnit) : List Char := (Path.fileName u.dir).toList

/-- `../X` or `../folder/X`, written in a structural folder and leading to one. -/
def isInternal (u : SourceUnit) (specifier : String) : Bool :=
  listed settings.structuralFolders (folder u) &&
    match Text.after? "../".toList specifier.toList with
    | none => false
    | some rest =>
      match Text.split Path.isSlash rest with
      | [name] => name != [] && name != ['.', '.']
      | [dir, name] => listed settings.structuralFolders dir && name != []
      | _ => false

/-- The breach of one import in a file of an aggregate. -/
def ofImport? (ctx : Context) (u : SourceUnit) (importing : String) (i : Import) :
    Option Violation := do
  if !i.isRelative then none
  let target ← Path.join? u.dir i.specifier
  let imported ← infer? settings target
  if imported == importing || passesShared settings target || isInternal settings u i.specifier then
    none
  return .of ctx.severities (.aggregateBoundary importing imported i.specifier)
    ⟨u.path, some i.line⟩
    s!"Aggregate '{importing}' imports from aggregate '{imported}' ('{i.specifier}')"
    s!"Reference '{imported}' by identity or through a domain event instead of importing it"

def ofUnit (ctx : Context) (u : SourceUnit) : List Violation :=
  match infer? settings u.path with
  | none => []
  | some importing => u.imports.filterMap (ofImport? settings ctx u importing)

def run (ctx : Context) : List Violation := ctx.units.flatMap (ofUnit settings ctx)

end Check.Aggregate

end LayerLint
