/-
  LayerLint.Main: the program on a real disk.

  What a request may look at is copied into a `Disk` first: the settings files in the working
  directory and above the project, the file given as settings, and everything below the project. The
  paths that a request names are followed through links, and links below a directory are left out. A
  settings file that the run has written is copied back.
-/

import LayerLint.Cli.Run

namespace LayerLint

namespace Cli

def Request.paths : Request → List String
  | .run (.analyze o) _ => o.path :: o.config.toList
  | .run (.check o) _ => o.path :: o.config.toList
  | _ => []

end Cli

def textOf (address : Disk.Address) : IO (Option String) := do
  return String.fromUTF8? (← IO.FS.readBinFile (Disk.absolute address))

/-- Adds an entry and everything below it, if it is there. -/
partial def addTree (d : Disk) (address : Disk.Address) : IO Disk := do
  let here := (← IO.currentDir) / Disk.absolute address
  if !(← here.pathExists) then return d
  match (← here.metadata).type with
  | .dir => (← here.readDir).foldlM (fun d e => do
      match (← e.path.symlinkMetadata).type with
      | .symlink => return d
      | _ => addTree d (address ++ [e.fileName])) (d.addDir address)
  | .file => return d.addFile address (← textOf address)
  | _ => return d

def addSettings (d : Disk) (address : Disk.Address) : IO Disk :=
  (List.range (address.length + 1)).foldlM (fun d n =>
    addTree d (address.take n ++ [Config.fileName])) d

/-- The part of the disk that a request may look at. -/
def snapshot (cwd : Disk.Address) (r : Cli.Request) : IO Disk := do
  let d ← addSettings (.empty cwd) cwd
  r.paths.foldlM (fun d path => do addTree (← addSettings d (d.place path)) (d.place path)) d

end LayerLint

open LayerLint in
def main (args : List String) : IO UInt32 := do
  let cwd := (Disk.names (← IO.currentDir).toString).filter (· ≠ "")
  let before ← snapshot cwd (Cli.request args)
  let (after, outcome) := Cli.run before (← (← IO.getStdout).isTty) args
  if before ≠ after then
    if let .ok text := after.read Config.fileName then IO.FS.writeFile Config.fileName text
  IO.print outcome.stdout
  IO.eprint outcome.stderr
  return outcome.code.toUInt32
