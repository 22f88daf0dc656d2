/-
  LayerLint.Json.Printer: the text of a JSON value.

  The compact layout has no blanks at all. The pretty layout puts each item and entry on a line of
  its own, two blanks further in than its container, and writes empty containers on one line. Inside
  strings the quote, the backslash and the characters below the blank are escaped; everything else
  stands for itself.

  `write` puts the text of a value in front of the text that follows it.
-/

import LayerLint.Json.Basic

namespace LayerLint

namespace Json

inductive Layout where
  | compact
  | pretty
  deriving DecidableEq, Repr

def hexDigit (n : Nat) : Char := Nat.digitChar n

/-- One character of a string, as it is written between quotes. -/
def escape (c : Char) : List Char :=
  if c == '"' then ['\\', '"']
  else if c == '\\' then ['\\', '\\']
  else if c == '\x08' then ['\\', 'b']
  else if c == '\x0c' then ['\\', 'f']
  else if c == '\n' then ['\\', 'n']
  else if c == '\r' then ['\\', 'r']
  else if c == '\t' then ['\\', 't']
  else if c.toNat < 0x20 then
    ['\\', 'u', '0', '0', hexDigit (c.toNat / 16), hexDigit (c.toNat % 16)]
  else [c]

def writeString (s : String) (k : List Char) : List Char :=
  '"' :: (s.toList.flatMap escape ++ '"' :: k)

def intText (n : Int) : List Char :=
  if n < 0 then '-' :: Nat.toDigits 10 n.natAbs else Nat.toDigits 10 n.natAbs

/-- A line break and the indentation of the given depth, in the pretty layout only. -/
def breakLine (layout : Layout) (depth : Nat) (k : List Char) : List Char :=
  match layout with
  | .compact => k
  | .pretty => '\n' :: (List.replicate (2 * depth) ' ' ++ k)

def colon (layout : Layout) (k : List Char) : List Char :=
  match layout with
  | .compact => ':' :: k
  | .pretty => ':' :: ' ' :: k

mutual

/-- The text of a value at the given depth, followed by `k`. -/
def write (layout : Layout) (depth : Nat) : Json → List Char → List Char
  | .null, k => 'n' :: 'u' :: 'l' :: 'l' :: k
  | .bool true, k => 't' :: 'r' :: 'u' :: 'e' :: k
  | .bool false, k => 'f' :: 'a' :: 'l' :: 's' :: 'e' :: k
  | .int n, k => intText n ++ k
  | .real d, k => d.text ++ k
  | .str s, k => writeString s k
  | .arr [], k => '[' :: ']' :: k
  | .arr (item :: rest), k =>
    '[' :: breakLine layout (depth + 1)
      (write layout (depth + 1) item (writeItems layout depth rest k))
  | .obj [], k => '\x7b' :: '\x7d' :: k
  | .obj ((key, value) :: rest), k =>
    '\x7b' :: breakLine layout (depth + 1)
      (writeString key (colon layout
        (write layout (depth + 1) value (writeEntries layout depth rest k))))

def writeItems (layout : Layout) (depth : Nat) : List Json → List Char → List Char
  | [], k => breakLine layout depth (']' :: k)
  | item :: rest, k =>
    ',' :: breakLine layout (depth + 1)
      (write layout (depth + 1) item (writeItems layout depth rest k))

def writeEntries (layout : Layout) (depth : Nat) : List (String × Json) → List Char → List Char
  | [], k => breakLine layout depth ('\x7d' :: k)
  | (key, value) :: rest, k =>
    ',' :: breakLine layout (depth + 1)
      (writeString key (colon layout
        (write layout (depth + 1) value (writeEntries layout depth rest k))))

end

def render (layout : Layout) (v : Json) : String := String.ofList (v.write layout 0 [])

end Json

end LayerLint
