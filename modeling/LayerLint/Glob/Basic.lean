/-
  LayerLint.Glob.Basic: glob patterns and the texts they accept.

  A glob is a row of pieces and is matched on the bytes of a whole path. `rests` gives, for one piece
  and one text, what may be left of the text when the piece has taken its part; a glob accepts a text
  if nothing may be left in the end. One asterisk takes any bytes, slashes too. Two asterisks between
  slashes stand for any number of directories.
-/

namespace LayerLint

abbrev Bytes := List UInt8

def bytesOf (s : List Char) : Bytes := s.flatMap String.utf8EncodeChar

def slash : UInt8 := 0x2f

inductive Glob.Piece where
  | literal (c : Char)
  /-- One byte. -/
  | any
  /-- Any bytes. -/
  | star
  /-- Directories before the rest of the path, or none. -/
  | leadingDirs
  /-- A slash and everything below it. -/
  | trailingDirs
  /-- A slash, or directories between two slashes. -/
  | middleDirs
  /-- One byte of the ranges, or one outside of them. -/
  | range (negated : Bool) (ranges : List (Char × Char))
  /-- One of the branches. A group without branches takes nothing. -/
  | group (branches : List (List Glob.Piece))
  deriving Repr

abbrev Glob := List Glob.Piece

namespace Glob

def tails : Bytes → List Bytes
  | [] => [[]]
  | b :: s => (b :: s) :: tails s

/-- The ends of a text that follow a slash. -/
def dirTails : Bytes → List Bytes
  | [] => []
  | b :: s => if b = slash then s :: dirTails s else dirTails s

def afterSlash : Bytes → List Bytes
  | [] => []
  | b :: s => if b = slash then [s] else []

def afterBytes (lead s : Bytes) : List Bytes :=
  if lead.isPrefixOf s then [s.drop lead.length] else []

/-- The ranges of bytes that a range of characters comes to: the bytes of its ends, with the range
    between the last byte of the one and the first byte of the other. -/
def byteRanges (r : Char × Char) : List (UInt8 × UInt8) :=
  let single (b : UInt8) : UInt8 × UInt8 := (b, b)
  let lo := String.utf8EncodeChar r.1
  if r.1 = r.2 then lo.map single
  else
    match lo.getLast?, String.utf8EncodeChar r.2 with
    | some a, b :: more => lo.dropLast.map single ++ [(a, b)] ++ more.map single
    | _, _ => []

def inRanges (ranges : List (Char × Char)) (b : UInt8) : Bool :=
  (ranges.flatMap byteRanges).any fun (lo, hi) => decide (lo ≤ b) && decide (b ≤ hi)

def afterByte (p : UInt8 → Bool) : Bytes → List Bytes
  | [] => []
  | b :: s => if p b then [s] else []

mutual

/-- What may be left of a text after a piece, each rest once. -/
def rests : Piece → Bytes → List Bytes
  | .literal c, s => afterBytes (String.utf8EncodeChar c) s
  | .any, s => afterByte (fun _ => true) s
  | .star, s => tails s
  | .leadingDirs, s => (s :: dirTails s).eraseDups
  | .trailingDirs, s => (afterSlash s).flatMap tails
  | .middleDirs, s => (afterSlash s ++ (afterSlash s).flatMap dirTails).eraseDups
  | .range negated ranges, s => afterByte (fun b => inRanges ranges b != negated) s
  | .group [], s => [s]
  | .group (b :: bs), s => (restsAll b [s] ++ restsAny bs s).eraseDups

/-- What may be left of some texts after a row of pieces. -/
def restsAll : List Piece → List Bytes → List Bytes
  | [], starts => starts
  | p :: ps, starts => restsAll ps (starts.flatMap (rests p)).eraseDups

def restsAny : List (List Piece) → Bytes → List Bytes
  | [], _ => []
  | b :: bs, s => restsAll b [s] ++ restsAny bs s

end

/-- Whether a glob takes the whole of a path. Two asterisks alone take every path. -/
def accepts (g : Glob) (path : String) : Bool :=
  match g with
  | [.leadingDirs] => true
  | g => (restsAll g [bytesOf path.toList]).contains []

end Glob

end LayerLint
