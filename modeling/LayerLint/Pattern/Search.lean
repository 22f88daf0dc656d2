/-
  LayerLint.Pattern.Search: finding patterns in texts.

  The search goes from left to right, takes at each place the preferred match, and goes on behind
  it, so the matches it lists do not overlap. An `Extractor` is a pattern with a part to be taken
  out; `Find` is one of its matches.
-/

import LayerLint.Pattern.Basic

namespace LayerLint

namespace Pattern

def matchAt? (p : Pattern) (s : Spot) : Option Spot := (p.ends s).head?

def findFrom? (p : Pattern) (before : List Char) : (after : List Char) → Option Spot
  | [] => if (p.matchAt? ⟨before, []⟩).isSome then some ⟨before, []⟩ else none
  | c :: rest =>
    if (p.matchAt? ⟨before, c :: rest⟩).isSome then some ⟨before, c :: rest⟩
    else findFrom? p (c :: before) rest

def find? (p : Pattern) (text : List Char) : Option Spot := p.findFrom? [] text

end Pattern

/-- A pattern in three parts, of which the middle one is wanted. -/
structure Extractor where
  lead : Pattern
  body : Pattern
  trail : Pattern

/-- A match of an extractor: the wanted part lies from `first` to `last`, the match ends at `stop`. -/
structure Find where
  first : Spot
  last : Spot
  stop : Spot
  deriving DecidableEq, Repr

namespace Find

def content (f : Find) : List Char := f.first.textTo f.last

/-- How many bytes of the text stand before the wanted part. -/
def offset (f : Find) : Nat := Text.byteSize f.first.before

def line (f : Find) : Nat := Text.newlines f.first.before + 1

end Find

namespace Extractor

def findsAt (e : Extractor) (s : Spot) : List Find :=
  (e.lead.ends s).flatMap fun a =>
    (e.body.ends a).flatMap fun b =>
      (e.trail.ends b).map fun c => ⟨a, b, c⟩

/-- The matches from a place on, left to right. The first `skip` characters belong to the match found
    last, so no match starts before they are passed. -/
def findsFrom (e : Extractor) (before : List Char) : (skip : Nat) → (after : List Char) → List Find
  | 0, [] => (e.findsAt ⟨before, []⟩).head?.toList
  | _ + 1, [] => []
  | skip + 1, c :: rest => findsFrom e (c :: before) skip rest
  | 0, c :: rest =>
    match (e.findsAt ⟨before, c :: rest⟩).head? with
    | some f => f :: findsFrom e (c :: before) (f.stop.position - before.length - 1) rest
    | none => findsFrom e (c :: before) 0 rest

/-- The matches in a text, left to right, none of which overlaps the one before it. -/
def finds (e : Extractor) (text : List Char) : List Find := e.findsFrom [] 0 text

end Extractor

end LayerLint
