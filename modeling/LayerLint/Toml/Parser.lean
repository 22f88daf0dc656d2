/-
  LayerLint.Toml.Parser: reading TOML documents.

  A document is read line by line: blank lines and comments, headers, and entries. Values may be
  nested up to `maxDepth`. Lists and inline tables may span lines and end with a comma.
-/

import LayerLint.Toml.Quoted
import LayerLint.Toml.Scalar

namespace LayerLint

namespace Toml

def skipSpace (s : List Char) : List Char := s.dropWhile isSpace

/-- The text behind a comment up to its line break, if the comment has no control characters. -/
def afterComment? (s : List Char) : Option (List Char) :=
  match s with
  | '#' :: rest =>
    match rest.dropWhile (!isForbidden ·) with
    | [] => some []
    | rest => (afterNewline? rest).map fun _ => rest
  | s => some s

def afterLine? (s : List Char) : Option (List Char) := do
  match ← afterComment? (skipSpace s) with
  | [] => some []
  | s => afterNewline? s

def skipLines : (fuel : Nat) → List Char → Option (List Char)
  | 0, s => some s
  | fuel + 1, s => do
    let s ← afterComment? (skipSpace s)
    match afterNewline? s with
    | some s => skipLines fuel s
    | none => some s

/-- Skips everything that may stand between the values of a list. -/
def skipGap (s : List Char) : Option (List Char) := skipLines (s.length + 1) s

/-! ## Keys -/

def isBare (c : Char) : Bool := Text.isAsciiAlphanumeric c || c == '-' || c == '_'

def simpleKey? (s : List Char) : Option (String × List Char) :=
  match s.span isBare with
  | ([], _) => singleQuoted? s
  | (name, rest) => some (String.ofList name, rest)

/-- The parts of a key that are divided by dots, and the text behind it and the blanks after it. -/
def key? : (fuel : Nat) → List Char → Option (List String × List Char)
  | 0, _ => none
  | fuel + 1, s => do
    let (name, s) ← simpleKey? (skipSpace s)
    match skipSpace s with
    | '.' :: s =>
      let (names, s) ← key? fuel s
      return (name :: names, s)
    | s => return ([name], s)

def dottedKey? (s : List Char) : Option ((List String × String) × List Char) := do
  let (names, s) ← key? (s.length + 1) s
  let last ← names.getLast?
  return ((names.dropLast, last), s)

/-! ## Values -/

abbrev ValueReader := List Char → Option (Toml × List Char)

def items (value : ValueReader) : (fuel : Nat) → (acc : List Toml) → ValueReader
  | 0, _, _ => none
  | fuel + 1, acc, s => do
    match ← skipGap s with
    | ']' :: rest => return (.array acc.reverse, rest)
    | s =>
      let (v, s) ← value s
      match ← skipGap s with
      | ',' :: rest => items value fuel (v :: acc) rest
      | ']' :: rest => return (.array (v :: acc).reverse, rest)
      | _ => none

def entry? (value : ValueReader) (s : List Char) :
    Option (((List String × String) × Toml) × List Char) := do
  let (key, s) ← dottedKey? s
  let (v, s) ← value (skipSpace (← after? '=' s))
  return ((key, v), s)

def inlineEntries (value : ValueReader) : (fuel : Nat) → (table : Entries) → ValueReader
  | 0, _, _ => none
  | fuel + 1, t, s => do
    match ← skipGap s with
    | '\x7d' :: rest => return (.table .inline t, rest)
    | s =>
      let (((path, key), v), s) ← entry? value s
      let t ← t.insert? v key path
      match ← skipGap s with
      | ',' :: rest => inlineEntries value fuel t rest
      | '\x7d' :: rest => return (.table .inline t, rest)
      | _ => none

def plainValue? (s : List Char) : Option (Toml × List Char) :=
  match s with
  | '"' :: _ => (quoted? s).map fun (t, s) => (.text t, s)
  | '\'' :: _ => (quoted? s).map fun (t, s) => (.text t, s)
  | _ =>
    let (run, rest) := splitScalar s
    (scalar? run).map fun v => (v, rest)

def value? : (depth : Nat) → ValueReader
  | 0, s => plainValue? s
  | depth + 1, s =>
    match s with
    | '[' :: rest => items (value? depth) (rest.length + 1) [] rest
    | '\x7b' :: rest => inlineEntries (value? depth) (rest.length + 1) [] rest
    | s => plainValue? s

def maxDepth : Nat := 80

/-! ## Documents -/

/-- A document as far as it was read: its tables, and the one that entries go to. -/
structure Draft where
  root : Entries
  current : List String

namespace Draft

def empty : Draft := ⟨[], []⟩

def header? (d : Draft) (s : List Char) : Option (Draft × List Char) := do
  match s with
  | '[' :: s =>
    let ((path, key), s) ← dottedKey? s
    let s ← after? ']' s
    let s ← after? ']' s
    return (⟨← d.root.openItem? path key, path ++ [key]⟩, s)
  | s =>
    let ((path, key), s) ← dottedKey? s
    let s ← after? ']' s
    return (⟨← d.root.openTable? path key, path ++ [key]⟩, s)

def entry? (d : Draft) (s : List Char) : Option (Draft × List Char) := do
  let (((path, key), v), s) ← Toml.entry? (value? maxDepth) s
  return ({ d with root := ← d.root.within? (Entries.insert? v key path) d.current }, s)

def lines? (d : Draft) : (fuel : Nat) → List Char → Option Entries
  | 0, _ => none
  | fuel + 1, s => do
    match ← skipGap s with
    | [] => some d.root
    | '[' :: s =>
      let (d, s) ← d.header? s
      lines? d fuel (← afterLine? s)
    | s =>
      let (d, s) ← d.entry? s
      lines? d fuel (← afterLine? s)

end Draft

/-- Reads a document. A byte order mark at its start is skipped. -/
def parse? (text : String) : Option Entries :=
  let s := match text.toList with
    | '\uFEFF' :: rest => rest
    | s => s
  Draft.empty.lines? (s.length + 1) s

end Toml

end LayerLint
