/-
  LayerLint.Path: relative paths, taken apart and joined as texts.

  Paths are divided by slashes and never looked up. `join?` follows a specifier from a directory:
  empty and `.` segments stay, `..` goes up, anything else goes down, and a path that would climb
  above the root has no result.
-/

import LayerLint.Text.Split

namespace LayerLint

namespace Path

def isSlash (c : Char) : Bool := c == '/'

def segments (path : String) : List (List Char) := Text.split isSlash path.toList

def ofSegments (segs : List (List Char)) : String := String.ofList (['/'].intercalate segs)

def fileName (path : String) : String :=
  match Text.cutLast? isSlash path.toList with
  | some (_, name) => String.ofList name
  | none => path

def dir (path : String) : String :=
  match Text.cutLast? isSlash path.toList with
  | some (front, _) => String.ofList front
  | none => ""

/-- The file name without its last extension. A dot at the start is not the mark of an extension. -/
def stem (path : String) : String :=
  match Text.cutLast? (· == '.') (fileName path).toList with
  | some (c :: front, _) => String.ofList (c :: front)
  | _ => fileName path

/-- Follows one segment from the directory whose segments are given innermost first. -/
def step? (dirs : List (List Char)) (seg : List Char) : Option (List (List Char)) :=
  if seg == [] || seg == ['.'] then some dirs
  else if seg == ['.', '.'] then dirs.tail?
  else some (seg :: dirs)

/-- The directories of a path, innermost first. -/
def ancestry (path : String) : List (List Char) := ((segments path).filter (!·.isEmpty)).reverse

def join? (dir specifier : String) : Option String :=
  ((segments specifier).foldlM step? (ancestry dir)).map fun dirs => ofSegments dirs.reverse

end Path

end LayerLint
