/-
  LayerLint.Json.Decode: reading records, lists, tables and names out of JSON values.

  A record is an object with a key for each field, where other keys are passed over, or a list of the
  fields' values in order. A list that ends early leaves its last fields out. What a list may hold
  after the last field, and how a name may be written as an object, depends on the format that the
  values come from (`Format`).
-/

import LayerLint.Json.Basic

namespace LayerLint

namespace Json

inductive Format where
  | json
  | toml
  deriving DecidableEq, Repr

/-- A record as the values of the fields that were given. -/
abbrev Fields := String → Option Json

/-- Reads a record with these fields. Only TOML lists may go on after the last field. -/
def record? (format : Format) (names : List String) : Json → Option Fields
  | .obj entries => some fun name => (entries.find? (·.1 == name)).map (·.2)
  | .arr items =>
    if format = .toml ∨ items.length ≤ names.length then
      some fun name => ((names.zip items).find? (·.1 == name)).map (·.2)
    else none
  | _ => none

namespace Fields

def optional {α : Type} (r : Fields) (name : String) (read : Json → Option α) (default : α) :
    Option α :=
  match r name with
  | some v => read v
  | none => some default

def required {α : Type} (r : Fields) (name : String) (read : Json → Option α) : Option α :=
  r name >>= read

end Fields

def list? {α : Type} (read : Json → Option α) : Json → Option (List α)
  | .arr items => items.mapM read
  | _ => none

def strings? : Json → Option (List String) := list? str?

def table? {α : Type} (read : Json → Option α) : Json → Option (List (String × α))
  | .obj entries => entries.mapM fun e => (read e.2).map fun a => (e.1, a)
  | _ => none

/-- Whether a value is empty: null in JSON, and in TOML, which has no null, an empty list or table. -/
def isVoid : Format → Json → Bool
  | .json, .null => true
  | .toml, .arr [] => true
  | .toml, .obj [] => true
  | _, _ => false

/-- A name, written as a string or as the one key of an object whose value is empty. -/
def tag? (format : Format) : Json → Option String
  | .str s => some s
  | .obj [(s, v)] => if isVoid format v then some s else none
  | _ => none

def nullable? {α : Type} (read : Json → Option α) : Json → Option (Option α)
  | .null => some none
  | v => (read v).map some

end Json

end LayerLint
