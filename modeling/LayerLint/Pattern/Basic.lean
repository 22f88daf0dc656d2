/-
  LayerLint.Pattern.Basic: text patterns and where they end.

  A pattern is read at a `Spot` of a text, which knows what stands on both sides, so that word
  borders and line borders can be part of a pattern. `ends` lists every spot where a match may end,
  the preferred one first: the left side of `either` is preferred to its right side, a greedy run
  prefers to be long and a lazy one to be short. The head of the list is therefore the match that a
  backtracking search finds first.

  Only single characters are repeated, so no run can stand still, and `ends` is total by recursion on
  the pattern.
-/

import LayerLint.Text.Split

namespace LayerLint

open Text (CharSet)

/-- A place in a text: what stands before it, nearest first, and what stands after it. -/
structure Spot where
  before : List Char
  after : List Char
  deriving DecidableEq, Repr

namespace Spot

def start (text : List Char) : Spot := ⟨[], text⟩

def next? (s : Spot) : Option (Char × Spot) :=
  match s.after with
  | [] => none
  | c :: rest => some (c, ⟨c :: s.before, rest⟩)

def position (s : Spot) : Nat := s.before.length

def textTo (s t : Spot) : List Char := (t.before.take (t.position - s.position)).reverse

def atLineStart (s : Spot) : Bool :=
  match s.before with
  | [] => true
  | c :: _ => c == '\n'

def atLineEnd (s : Spot) : Bool :=
  match s.after with
  | [] => true
  | c :: _ => c == '\n'

def atWordEdge (s : Spot) : Bool :=
  (s.before.head?.any Text.isWord) != (s.after.head?.any Text.isWord)

end Spot

/-- Which of the possible lengths a run prefers. -/
inductive Appetite where
  | greedy
  | lazy
  deriving DecidableEq, Repr

inductive Pattern where
  | empty
  /-- One character of the set. -/
  | one (set : CharSet)
  /-- At least `least` characters of the set, and at most `most` if that is given. -/
  | run (set : CharSet) (least : Nat) (most : Option Nat) (appetite : Appetite)
  | seq (p q : Pattern)
  | either (p q : Pattern)
  | wordEdge
  | lineStart
  | lineEnd

namespace Pattern

/-- The spots reached by taking characters of the set one by one, the furthest first, followed by
    the spots of `acc`. At most `room` characters are taken if that is given. -/
def runSpots (set : CharSet) (before : List Char) (acc : List Spot) :
    (room : Option Nat) → (after : List Char) → List Spot
  | some 0, after => ⟨before, after⟩ :: acc
  | _, [] => ⟨before, []⟩ :: acc
  | room, c :: rest =>
    if set c then
      runSpots set (c :: before) (⟨before, c :: rest⟩ :: acc) (room.map (· - 1)) rest
    else ⟨before, c :: rest⟩ :: acc

def runEnds (set : CharSet) (least : Nat) (most : Option Nat) (s : Spot) : List Spot :=
  (runSpots set s.before [] most s.after).filter fun t => s.position + least ≤ t.position

/-- Every spot where a match from `s` may end, the preferred one first. -/
def ends : Pattern → Spot → List Spot
  | empty, s => [s]
  | one set, s =>
    match s.next? with
    | some (c, t) => if set c then [t] else []
    | none => []
  | run set least most .greedy, s => runEnds set least most s
  | run set least most .lazy, s => (runEnds set least most s).reverse
  | seq p q, s => (p.ends s).flatMap q.ends
  | either p q, s => p.ends s ++ q.ends s
  | wordEdge, s => if s.atWordEdge then [s] else []
  | lineStart, s => if s.atLineStart then [s] else []
  | lineEnd, s => if s.atLineEnd then [s] else []

/-! ## Building patterns -/

def inOrder : List Pattern → Pattern
  | [] => empty
  | [p] => p
  | p :: ps => seq p (inOrder ps)

/-- The first of the patterns that leads to a match. The list is not empty. -/
def oneOf (p : Pattern) : List Pattern → Pattern
  | [] => p
  | q :: qs => either p (oneOf q qs)

/-- Prefers to match `p`, and may leave it out. -/
def optional (p : Pattern) : Pattern := either p empty

def text (s : String) : Pattern := inOrder (s.toList.map fun c => one (· == c))

def zeroOrMore (set : CharSet) : Pattern := run set 0 none .greedy

def oneOrMore (set : CharSet) : Pattern := run set 1 none .greedy

def atLeast (n : Nat) (set : CharSet) : Pattern := run set n none .greedy

def exactly (n : Nat) (set : CharSet) : Pattern := run set n (some n) .greedy

end Pattern

end LayerLint
