/-
  LayerLint.Glob.Parser: reading globs.

  A glob is read from left to right. Braces open and close groups whose branches are divided by
  commas; outside of groups a comma stands for itself. The first fault ends the reading.
-/

import LayerLint.Glob.Basic

namespace LayerLint

namespace Glob

inductive Fault where
  | unclosedRange
  | invertedRange (lo hi : Char)
  | unclosedGroup
  | unopenedGroup
  | danglingEscape
  deriving DecidableEq, Repr

def Fault.message : Fault → String
  | unclosedRange => "unclosed character class; missing ']'"
  | invertedRange lo hi => s!"invalid range; '{lo}' > '{hi}'"
  | unclosedGroup =>
    "unclosed alternate group; missing '\x7d' (maybe escape '\x7b' with '[\x7b]'?)"
  | unopenedGroup =>
    "unopened alternate group; missing '\x7b' (maybe escape '\x7d' with '[\x7d]'?)"
  | danglingEscape => "dangling '\\'"

/-- The ranges up to the closing bracket, and the text behind it. A bracket or a hyphen at the start
    and a hyphen at the end stand for themselves. `ranges` holds those read, last one first. -/
def readRanges (first pending : Bool) (ranges : List (Char × Char)) :
    List Char → Except Fault (List (Char × Char) × List Char)
  | [] => .error .unclosedRange
  | c :: rest =>
    if c == ']' && !first then .ok ((if pending then ('-', '-') :: ranges else ranges).reverse, rest)
    else if c == '-' && !first && !pending then readRanges false true ranges rest
    else
      match pending, ranges with
      | true, (lo, _) :: before =>
        if c < lo then .error (.invertedRange lo c)
        else readRanges false false ((lo, c) :: before) rest
      | _, _ => readRanges false false ((c, c) :: ranges) rest

def readRange (s : List Char) : Except Fault (Piece × List Char) := do
  let (negated, s) := match s with
    | '!' :: t => (true, t)
    | '^' :: t => (true, t)
    | t => (false, t)
  let (ranges, rest) ← readRanges true false [] s
  return (.range negated ranges, rest)

/-- A group that is not closed yet: the pieces before it, last one first, and its finished branches,
    last one first. -/
structure OpenGroup where
  before : List Piece
  branches : List (List Piece)

/-- A glob as far as it was read: the open groups, innermost first, and the pieces of the branch that
    is being read, last one first. -/
structure Draft where
  groups : List OpenGroup
  branch : List Piece

namespace Draft

def empty : Draft := ⟨[], []⟩

def push (d : Draft) (p : Piece) : Draft := { d with branch := p :: d.branch }

def isVoid (branch : List Piece) : Bool :=
  branch.all fun
    | .group [] => true
    | _ => false

def openGroup (d : Draft) : Draft := ⟨⟨d.branch, []⟩ :: d.groups, []⟩

/-- Starts the next branch of the innermost group, or takes a comma outside of groups. -/
def nextBranch (d : Draft) : Draft :=
  match d.groups with
  | [] => d.push (.literal ',')
  | g :: outer => ⟨{ g with branches := d.branch.reverse :: g.branches } :: outer, []⟩

/-- Closes the innermost group. Void branches are dropped. -/
def closeGroup (d : Draft) : Except Fault Draft :=
  match d.groups with
  | [] => .error .unopenedGroup
  | g :: outer =>
    let branches := (d.branch.reverse :: g.branches).reverse.filter (!isVoid ·)
    .ok ⟨outer, .group branches :: g.before⟩

/-- The slash before two asterisks becomes part of the directories they stand for. -/
def replaceSlash (d : Draft) (p : Piece) : Draft :=
  match d.branch with
  | .leadingDirs :: _ => d
  | .trailingDirs :: _ => d
  | _ :: before => { d with branch := p :: before }
  | [] => d

def twoStars (d : Draft) : Draft := (d.push .star).push .star

/-- Reads on after two asterisks, where `before` is the character in front of them. They stand for
    directories if they are alone between slashes, the start and the end of a branch. -/
def doubleStar (d : Draft) (before : Option Char) (s : List Char) :
    Draft × Option Char × List Char :=
  let plain := (d.twoStars, some '*', s)
  let grouped := !d.groups.isEmpty
  if d.branch.isEmpty then
    match s with
    | [] => (d.push .leadingDirs, none, [])
    | '/' :: rest => (d.push .leadingDirs, some '/', rest)
    | _ => plain
  else if before == some '/' || (grouped && (before == some ',' || before == some '\x7b')) then
    match s with
    | [] => (d.replaceSlash .trailingDirs, none, [])
    | '/' :: rest => (d.replaceSlash .middleDirs, some '/', rest)
    | c :: _ =>
      if grouped && (c == ',' || c == '\x7d') then
        (d.replaceSlash .trailingDirs, some '*', s)
      else plain
  else plain

def read (d : Draft) (before : Option Char) : (fuel : Nat) → List Char → Except Fault Glob
  | 0, _ => .ok d.branch.reverse
  | _ + 1, [] => if d.groups.isEmpty then .ok d.branch.reverse else .error .unclosedGroup
  | fuel + 1, c :: s =>
    match c, s with
    | '?', s => read (d.push .any) (some c) fuel s
    | '*', '*' :: s =>
      let (d, before, s) := d.doubleStar before s
      read d before fuel s
    | '*', s => read (d.push .star) (some c) fuel s
    | '[', s =>
      match readRange s with
      | .ok (p, s) => read (d.push p) (some ']') fuel s
      | .error e => .error e
    | '\x7b', s => read d.openGroup (some c) fuel s
    | '\x7d', s =>
      match d.closeGroup with
      | .ok d => read d (some c) fuel s
      | .error e => .error e
    | ',', s => read d.nextBranch (some c) fuel s
    | '\\', [] => .error .danglingEscape
    | '\\', e :: s => read (d.push (.literal e)) (some e) fuel s
    | c, s => read (d.push (.literal c)) (some c) fuel s

end Draft

def parse (text : String) : Except Fault Glob :=
  let s := text.toList
  Draft.empty.read none (s.length + 1) s

def causes (text : String) (fault : Fault) : List String :=
  [s!"invalid glob '{text}'", s!"error parsing glob '{text}': {fault.message}"]

/-- Reads several globs. The first one with a fault gives the causes. -/
def parseAll (texts : List String) : Except (List String) (List Glob) :=
  texts.mapM fun text => (parse text).mapError (causes text)

end Glob

end LayerLint
