/-
  LayerLint.Disk.Basic: a tree of directories and files.

  An address is the list of names that leads to an entry from the root. A path is a text that is
  followed from the working directory, or from the root if it starts with a slash: `.` and empty
  names stay where they are, `..` goes up, and every name but the last has to be a directory. There
  are no links, so each entry has one address, and no permissions: whatever is there can be read, and a
  write fails only if its file cannot be opened, because a directory stands in its place.
-/

import LayerLint.Path

namespace LayerLint

/-- The names that lead to an entry from the root. -/
abbrev Disk.Address := List String

inductive Disk.Entry where
  | dir
  /-- A file with this text, or one whose bytes are no text. -/
  | file (text : Option String)
  deriving DecidableEq, Repr

inductive DiskError where
  | notFound
  | notDirectory
  | isDirectory
  | notText
  deriving DecidableEq, Repr

def DiskError.message : DiskError → String
  | notFound => "No such file or directory (os error 2)"
  | notDirectory => "Not a directory (os error 20)"
  | isDirectory => "Is a directory (os error 21)"
  | notText => "stream did not contain valid UTF-8"

structure Disk where
  entries : List (Disk.Address × Disk.Entry)
  cwd : Disk.Address
  deriving DecidableEq, Repr

namespace Disk

def empty (cwd : Address) : Disk := ⟨[], cwd⟩

/-- The entry at an address. The root and the working directory are always directories. -/
def entry? (d : Disk) (l : Address) : Option Entry :=
  if l.isPrefixOf d.cwd then some .dir else d.entries.lookup l

/-- Puts an entry at an address, in the place of one that is there. -/
def put (d : Disk) (l : Address) (e : Entry) : Disk :=
  { d with entries :=
      if d.entries.any (·.1 == l) then d.entries.map fun x => if x.1 == l then (l, e) else x
      else d.entries ++ [(l, e)] }

/-! ## Paths -/

def step (d : Disk) (l : Address) (name : String) : Except DiskError Address :=
  match d.entry? l with
  | some .dir =>
    if name = "" ∨ name = "." then .ok l
    else if name = ".." then .ok l.dropLast
    else
      match d.entry? (l ++ [name]) with
      | some _ => .ok (l ++ [name])
      | none => .error .notFound
  | some (.file _) => .error .notDirectory
  | none => .error .notFound

def names (path : String) : List String := (Path.segments path).map String.ofList

def start (d : Disk) (path : String) : Address :=
  if path.startsWith "/" then [] else d.cwd

def resolve (d : Disk) (path : String) : Except DiskError Address :=
  if path = "" then .error .notFound else (names path).foldlM d.step (d.start path)

def find? (d : Disk) (path : String) : Option Entry :=
  (d.resolve path).toOption.bind d.entry?

def has (d : Disk) (path : String) : Bool := (d.find? path).isSome

def read (d : Disk) (path : String) : Except DiskError String := do
  let l ← d.resolve path
  match d.entry? l with
  | some (.file (some text)) => .ok text
  | some (.file none) => .error .notText
  | some .dir => .error .isDirectory
  | none => .error .notFound

def write (d : Disk) (name text : String) : Except DiskError Disk :=
  match d.entry? (d.cwd ++ [name]) with
  | some .dir => .error .isDirectory
  | _ => .ok (d.put (d.cwd ++ [name]) (.file (some text)))

/-- A path followed from another. One that starts with a slash stands for itself. -/
def join (root path : String) : String :=
  if path.startsWith "/" || root = "" then path
  else if root.endsWith "/" then root ++ path
  else root ++ "/" ++ path

/-! ## Building a disk -/

def addDir (d : Disk) (l : Address) : Disk :=
  (List.range l.length).foldl (fun d n =>
    let here := l.take (n + 1)
    if (d.entry? here).isSome then d else d.put here .dir) d

def addFile (d : Disk) (l : Address) (text : Option String) : Disk :=
  (d.addDir l.dropLast).put l (.file text)

/-- The address of a path that is not looked up: `.` and empty names stay and `..` goes up. -/
def place (d : Disk) (path : String) : Address :=
  (names path).foldl (fun l name =>
    if name = "" ∨ name = "." then l else if name = ".." then l.dropLast else l ++ [name])
    (d.start path)

end Disk

end LayerLint
