/-
  LayerLint.Disk.Scan: the files of a project on a disk.

  A scan lists every file below a directory whose path from there is wanted by the patterns, in the
  order of the paths. A backslash in a name is listed as a slash.
-/

import LayerLint.Analysis
import LayerLint.Disk.Basic
import LayerLint.Glob.Parser

namespace LayerLint

namespace Disk

/-- The names that lead from a directory to each file below it. -/
def filesBelow (d : Disk) (dir : Address) : List (List String) :=
  d.entries.filterMap fun (l, e) =>
    match e with
    | .file _ => if dir.isPrefixOf l then some (l.drop dir.length) else none
    | .dir => none

def listed (names : List String) : String :=
  String.ofList (("/".intercalate names).toList.map fun c => if c = '\\' then '/' else c)

/-- Whether a path is wanted: some include pattern takes it, unless there are none, and no exclude
    pattern does. -/
def wanted (includes excludes : List Glob) (path : String) : Bool :=
  (includes.isEmpty || includes.any (·.accepts path)) && !excludes.any (·.accepts path)

def listing (d : Disk) (dir : Address) (includes excludes : List Glob) : List String :=
  (((d.filesBelow dir).map listed).filter (wanted includes excludes)).mergeSort fun a b =>
    decide (a ≤ b)

def directory (d : Disk) (root : String) : Except (List String) Address :=
  match d.resolve root with
  | .error _ => .error [s!"directory '{root}' does not exist"]
  | .ok l => if d.entry? l = some .dir then .ok l else .error [s!"'{root}' is not a directory"]

/-- Scans a directory. The directory is looked at first, then the patterns. -/
def scan (d : Disk) (root : String) (includes excludes : List String) :
    Except (List String) (List String) := do
  let dir ← d.directory root
  let includes ← Glob.parseAll includes
  let excludes ← Glob.parseAll excludes
  return d.listing dir includes excludes

def readListed (d : Disk) (root path : String) : Except DiskError String := d.read (join root path)

def access (d : Disk) (root : String) : FileAccess where
  scan := d.scan root
  read path := (d.readListed root path).toOption

end Disk

end LayerLint
