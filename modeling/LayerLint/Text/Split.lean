/-
  LayerLint.Text.Split: cutting texts at separators, line ends and blank borders.

  `split` keeps empty pieces, so `n` separators give `n + 1` pieces. `lines` cuts after each line
  feed, drops a carriage return right before it, and has no empty line after the last line feed.
-/

import LayerLint.Text.Class

namespace LayerLint.Text

/-- The pieces between the characters of `sep`, empty ones included. -/
def split (sep : CharSet) (s : List Char) : List (List Char) :=
  s.foldr (fun c pieces =>
    if sep c then [] :: pieces
    else match pieces with
      | [] => [[c]]
      | p :: ps => (c :: p) :: ps) [[]]

def dropReturn (line : List Char) : List Char :=
  if line.getLast? == some '\r' then line.dropLast else line

def lines (s : List Char) : List (List Char) :=
  let pieces := split (· == '\n') s
  pieces.dropLast.map dropReturn ++ pieces.getLast?.toList.filter (!·.isEmpty)

def trimBoth (p : CharSet) (s : List Char) : List Char :=
  ((s.dropWhile p).reverse.dropWhile p).reverse

def trim (s : List Char) : List Char := trimBoth isBlank s

def after? : (lead s : List Char) → Option (List Char)
  | [], s => some s
  | _ :: _, [] => none
  | a :: lead, c :: s => if a == c then after? lead s else none

/-- Drops `lead` from the front as often as it stands there, at most `n` times. -/
def dropTimes (lead : List Char) : (n : Nat) → List Char → List Char
  | 0, s => s
  | n + 1, s =>
    match after? lead s with
    | some rest => dropTimes lead n rest
    | none => s

/-- Drops `lead`, which is not empty, from the front as often as it stands there. -/
def dropAll (lead s : List Char) : List Char := dropTimes lead s.length s

def cut? (mid : List Char) : (s : List Char) → Option (List Char × List Char)
  | [] => if mid.isEmpty then some ([], []) else none
  | c :: s =>
    match after? mid (c :: s) with
    | some rest => some ([], rest)
    | none => (cut? mid s).map fun (a, b) => (c :: a, b)

/-- What stands before and after the last character of `sep`. -/
def cutLast? (sep : CharSet) (s : List Char) : Option (List Char × List Char) :=
  let tail := s.reverse.takeWhile (!sep ·)
  match s.reverse.drop tail.length with
  | [] => none
  | _ :: front => some (front.reverse, tail.reverse)

def endsWith (s tail : List Char) : Bool := tail.isSuffixOf s

def byteSize (s : List Char) : Nat := s.foldl (fun n c => n + c.utf8Size) 0

def newlines (s : List Char) : Nat := s.count '\n'

end LayerLint.Text
