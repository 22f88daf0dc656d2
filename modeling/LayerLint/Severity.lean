/-
  LayerLint.Severity: how grave a violation is.

  `rank` counts down from the gravest, so sorting by rank puts critical violations first, and
  `atLeast` compares ranks.
-/

import LayerLint.Text.Lowercase

namespace LayerLint

inductive Severity where
  | critical
  | high
  | medium
  | low
  deriving DecidableEq, Repr

namespace Severity

def all : List Severity := [critical, high, medium, low]

theorem mem_all (s : Severity) : s ∈ all := by cases s <;> decide

def rank : Severity → Nat
  | critical => 0
  | high => 1
  | medium => 2
  | low => 3

/-- Whether `s` is as grave as the threshold or graver. -/
def atLeast (s threshold : Severity) : Bool := decide (s.rank ≤ threshold.rank)

def name : Severity → String
  | critical => "critical"
  | high => "high"
  | medium => "medium"
  | low => "low"

def ofName? (s : String) : Option Severity := all.find? (·.name == s)

/-- The severity written so in any case; `med` is short for medium. -/
def parse? (s : String) : Option Severity :=
  let lower := Text.lowercase s
  if lower == "med" then some medium else ofName? lower

end Severity

end LayerLint
