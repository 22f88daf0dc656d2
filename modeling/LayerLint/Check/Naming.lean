/-
  LayerLint.Check.Naming: file names that miss a convention.

  In the domain layer a vague ending such as `Manager` is a breach, the longest such ending first. In
  every layer a file that lies directly in a conventional folder carries the folder's ending, compared
  without case and without anything but ASCII letters and digits. A file gives at most one violation,
  and files named `index` give none.
-/

import LayerLint.Violation

namespace LayerLint

namespace Check.Naming

variable (settings : Config.Naming)

/-- Longer endings come first, and endings of one length in the order of the text. -/
def vagueBefore (a b : String × String) : Bool :=
  decide (b.1.utf8ByteSize < a.1.utf8ByteSize) ||
    (decide (a.1.utf8ByteSize = b.1.utf8ByteSize) && decide (a.1 ≤ b.1))

def vagueSuffixes : List (String × String) := settings.vagueSuffixes.mergeSort vagueBefore

/-- What stands before an ending, if the text is longer than the ending and ends with it. -/
def beforeSuffix? (stem suffix : String) : Option String :=
  let s := stem.toList
  let t := suffix.toList
  if t.length < s.length && Text.endsWith s t then some (String.ofList (s.take (s.length - t.length)))
  else none

/-- Letters and digits of a text, in small letters. -/
def normalized (stem : String) : List Char :=
  (stem.toList.filter Text.isAsciiAlphanumeric).map Text.lowerAscii

def extension (path : String) : String :=
  match Text.cutLast? (· == '.') path.toList with
  | some (_, e) => String.ofList e
  | none => "ts"

def folder (u : SourceUnit) : String := Text.lowercase (Path.fileName u.dir)

def violation (ctx : Context) (u : SourceUnit) (suggested message : String) : Violation :=
  .of ctx.severities (.naming (Path.fileName u.path) suggested) ⟨u.path, none⟩ message
    s!"Rename to '{suggested}'"

/-- The first vague ending of a stem, with the ending to prefer and what stands before it. -/
def vague? (stem : String) : Option (String × String × String) :=
  (vagueSuffixes settings).findSome? fun (suffix, preferred) =>
    (beforeSuffix? stem suffix).map fun base => (suffix, preferred, base)

/-- The ending that a file should carry and does not. -/
def missing? (u : SourceUnit) : Option String :=
  match settings.suffixes.find? (·.1 == folder u) with
  | none => none
  | some (_, suffix) =>
    if Text.endsWith (normalized u.stem) (Text.lowercase suffix).toList then none else some suffix

def ofMissing? (ctx : Context) (u : SourceUnit) : Option Violation :=
  (missing? settings u).map fun suffix =>
    violation ctx u (u.stem ++ suffix ++ "." ++ extension u.path)
      s!"'{u.stem}' in '{folder u}' should end with '{suffix}'"

def ofUnit? (ctx : Context) (u : SourceUnit) : Option Violation :=
  match u.layer with
  | none => none
  | some layer =>
    if u.stem.isEmpty || Text.sameAscii u.stem "index" then none
    else
      match if layer = .domain then vague? settings u.stem else none with
      | some (suffix, preferred, base) =>
        some (violation ctx u (base ++ preferred ++ "." ++ extension u.path)
          s!"'{u.stem}' uses the vague suffix '{suffix}' in the domain layer")
      | none => ofMissing? settings ctx u

def run (ctx : Context) : List Violation := ctx.units.filterMap (ofUnit? settings ctx)

end Check.Naming

end LayerLint
