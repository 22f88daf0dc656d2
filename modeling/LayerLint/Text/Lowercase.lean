/-
  LayerLint.Text.Lowercase: lower-casing of whole texts.

  A character becomes its lower-case form, `İ` becomes two characters, and a capital sigma takes its
  final form when a cased letter stands before it and none after it, where characters that carry no
  case (accents, apostrophes, full stops) are looked through. `lowerAscii` is the plain rule for
  names compared letter by letter.
-/

import LayerLint.Text.CaseTable
import LayerLint.Text.Class

namespace LayerLint.Text

def lowerAscii (c : Char) : Char :=
  if isAsciiUpper c then Char.ofNat (c.toNat + 32) else c

def CaseRun.get? (r : CaseRun) (n : Nat) : Option Nat :=
  if r.first ≤ n ∧ n ≤ r.last ∧ (n - r.first) % r.step = 0 then some (r.lower + (n - r.first)) else none

def lowerChar (c : Char) : List Char :=
  if isAscii c then [lowerAscii c]
  else if c == '\u0130' then ['i', '\u0307']
  else
    match lowerRuns.findSome? (·.get? c.toNat) with
    | some n => [Char.ofNat n]
    | none => [c]

/-- Whether the first character that is not case-ignorable is a cased letter. -/
def casedNext : List Char → Bool
  | [] => false
  | c :: rest => if caseIgnorable.has c then casedNext rest else cased.has c

/-- Lower-cases a text, given the characters before it, nearest first. -/
def lowerAfter (before : List Char) : List Char → List Char
  | [] => []
  | c :: rest =>
    (if c == 'Σ' then [if casedNext before && !casedNext rest then 'ς' else 'σ'] else lowerChar c) ++
      lowerAfter (c :: before) rest

def lowercase (s : String) : String := String.ofList (lowerAfter [] s.toList)

def sameAscii (s t : String) : Bool := s.toList.map lowerAscii == t.toList.map lowerAscii

end LayerLint.Text
