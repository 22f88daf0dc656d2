/-
  LayerLint.Toml.Basic: TOML values and the tables they are entered into.

  A table remembers how it came to be, since that decides what may still be added to it. `insert?`
  enters a value under a dotted key, `openTable?` and `openItem?` do what the headers `[a.b]` and
  `[[a.b]]` ask for, and `within?` adds to the table that a header opened. Each fails when the
  document defines something twice or adds to something that is complete.
-/

import LayerLint.Json.Basic

namespace LayerLint

/-- How a table came to be. -/
inductive Toml.Rise where
  /-- By a header of its own. -/
  | headed
  /-- By a header of a table inside of it. -/
  | implied
  /-- By a dotted key. -/
  | dotted
  /-- Between braces, where it is complete. -/
  | inline
  deriving DecidableEq, Repr

inductive Toml where
  | text (s : String)
  | integer (n : Int)
  | real (d : Decimal)
  /-- An infinity or not a number. -/
  | special (s : String)
  | bool (b : Bool)
  | date (s : String)
  | array (items : List Toml)
  | table (rise : Toml.Rise) (entries : List (String × Toml))
  /-- The tables of headers in double brackets. -/
  | tables (items : List (List (String × Toml)))
  deriving Repr

namespace Toml

abbrev Entries := List (String × Toml)

namespace Entries

def find? (t : Entries) (key : String) : Option Toml := (List.find? (·.1 == key) t).map (·.2)

def put (t : Entries) (key : String) (v : Toml) : Entries :=
  if t.any (·.1 == key) then t.map fun e => if e.1 == key then (key, v) else e else t ++ [(key, v)]

def updateLast? (f : Entries → Option Entries) (items : List Entries) : Option (List Entries) :=
  match items.getLast? with
  | some t => (f t).map fun t => items.dropLast ++ [t]
  | none => none

/-- Enters a value under a dotted key. The tables on the way are made, or were made by dotted keys;
    further out they may also be implied by headers. -/
def insert? (v : Toml) (key : String) : (path : List String) → Entries → Option Entries
  | [], t => if t.any (·.1 == key) then none else some (t ++ [(key, v)])
  | k :: path, t =>
    match t.find? k with
    | none => (insert? v key path []).map fun sub => t.put k (.table .dotted sub)
    | some (.table rise sub) =>
      if rise = .dotted ∨ rise = .implied ∧ path ≠ [] then
        (insert? v key path sub).map fun sub => t.put k (.table rise sub)
      else none
    | some (.tables items) =>
      if path ≠ [] then
        (updateLast? (insert? v key path) items).map fun items => t.put k (.tables items)
      else none
    | some _ => none

/-- Walks along the path of a header, where an inline table is no way and missing tables are
    implied, and changes the table at its end. -/
def within? (f : Entries → Option Entries) : (path : List String) → Entries → Option Entries
  | [], t => f t
  | k :: path, t =>
    match t.find? k with
    | none => (within? f path []).map fun sub => t.put k (.table .implied sub)
    | some (.table rise sub) =>
      if rise = .inline then none
      else (within? f path sub).map fun sub => t.put k (.table rise sub)
    | some (.tables items) =>
      (updateLast? (within? f path) items).map fun items => t.put k (.tables items)
    | some _ => none

def openTable? (path : List String) (key : String) : Entries → Option Entries :=
  within? (fun t =>
    match t.find? key with
    | none => some (t.put key (.table .headed []))
    | some (.table .implied sub) => some (t.put key (.table .headed sub))
    | some _ => none) path

def openItem? (path : List String) (key : String) : Entries → Option Entries :=
  within? (fun t =>
    match t.find? key with
    | none => some (t.put key (.tables [[]]))
    | some (.tables items) => some (t.put key (.tables (items ++ [[]])))
    | some _ => none) path

end Entries

/-! ## Values as JSON -/

def dateKey : String := "$__toml_private_datetime"

mutual

/-- A value as JSON, where a date is an object of its own and the infinities are null. -/
def toJson : Toml → Json
  | text s => .str s
  | integer n => .int n
  | real d => .real d
  | special _ => .null
  | bool b => .bool b
  | date s => .obj [(dateKey, .str s)]
  | array items => .arr (itemsJson items)
  | table _ entries => .obj (entriesJson entries)
  | tables items => .arr (tablesJson items)

def itemsJson : List Toml → List Json
  | [] => []
  | v :: rest => toJson v :: itemsJson rest

def entriesJson : List (String × Toml) → List (String × Json)
  | [] => []
  | (key, v) :: rest => (key, toJson v) :: entriesJson rest

def tablesJson : List (List (String × Toml)) → List Json
  | [] => []
  | t :: rest => .obj (entriesJson t) :: tablesJson rest

end

end Toml

end LayerLint
