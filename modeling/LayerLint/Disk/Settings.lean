/-
  LayerLint.Disk.Settings: finding and loading settings files.

  The settings of a directory are in the nearest settings file, in the directory itself or above it.
  A directory that does not exist is taken as a text: the directories above it are its path with the
  last names left out. A file that was found but cannot be loaded counts as none.
-/

import LayerLint.Config.Codec
import LayerLint.Disk.Basic

namespace LayerLint

inductive Config.LoadError where
  | unreadable (path : String) (cause : DiskError)
  | invalid (path : String)
  deriving DecidableEq, Repr

def Config.LoadError.message : Config.LoadError → String
  | unreadable path cause => s!"failed to read config file '{path}': {cause.message}"
  | invalid path => Config.unreadable path

namespace Disk

def loadConfig (d : Disk) (path : String) : Except Config.LoadError Config :=
  match d.read path with
  | .error cause => .error (.unreadable path cause)
  | .ok text =>
    match Config.ofText? text with
    | some c => .ok c
    | none => .error (.invalid path)

/-- Drops what does not change a path from its end: empty names and dots. -/
def trimNames (names : List String) : List String :=
  match names with
  | [] => []
  | first :: rest =>
    first :: (rest.reverse.dropWhile fun n => n == "" || n == ".").reverse

def pathOf (names : List String) : String :=
  if names = [""] then "/" else "/".intercalate names

/-- The paths above a path with these names, the nearest first, at most `n` of them. The root has
    nothing above it, and above a single name is the empty path. -/
def pathsAbove : (n : Nat) → (names : List String) → List String
  | 0, _ => []
  | n + 1, names =>
    match trimNames names with
    | [] => []
    | [""] => []
    | [_] => [""]
    | names =>
      let above := trimNames names.dropLast
      pathOf above :: pathsAbove n above

def upwards (path : String) : List String :=
  let ns := names path
  path :: if path = "" then [] else pathsAbove ns.length ns

def absolute (l : Address) : String := "/" ++ "/".intercalate l

/-- The path of the settings file that holds for a directory. -/
def findConfig? (d : Disk) (dir : String) : Option String :=
  let start := match d.resolve dir with
    | .ok l => absolute l
    | .error _ => dir
  ((upwards start).map fun p => join p Config.fileName).find? d.has

def configOf (d : Disk) (dir : String) : Config :=
  match d.findConfig? dir with
  | none => .default
  | some path => ((d.loadConfig path).toOption).getD .default

end Disk

end LayerLint
