/-
  LayerLint.Json.Basic: JSON values.

  Whole numbers and fractions are kept apart, since a count is only ever read from a whole number.
  An object is its list of entries in order.
-/

import LayerLint.Number.Decimal

namespace LayerLint

inductive Json where
  | null
  | bool (b : Bool)
  | int (n : Int)
  | real (d : Decimal)
  | str (s : String)
  | arr (items : List Json)
  | obj (entries : List (String × Json))
  deriving Repr

namespace Json

def nat (n : Nat) : Json := .int n

def strings (ss : List String) : Json := .arr (ss.map .str)

def get? (v : Json) (key : String) : Option Json :=
  match v with
  | .obj entries => (entries.find? (·.1 == key)).map (·.2)
  | _ => none

/-- The value of an entry that is present and not null. -/
def given? (v : Json) (key : String) : Option Json :=
  match v.get? key with
  | some .null => none
  | r => r

def str? : Json → Option String
  | .str s => some s
  | _ => none

def bool? : Json → Option Bool
  | .bool b => some b
  | _ => none

def arr? : Json → Option (List Json)
  | .arr items => some items
  | _ => none

/-- A whole number from 0 to 2 ^ 64 - 1. -/
def count? : Json → Option Nat
  | .int n => if 0 ≤ n ∧ n < twoPow 64 then some n.toNat else none
  | _ => none

end Json

end LayerLint
