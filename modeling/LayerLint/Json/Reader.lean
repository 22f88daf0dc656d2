/-
  LayerLint.Json.Reader: reading JSON texts.

  The reader accepts the JSON grammar and nothing else. A number with a fraction or an exponent, and
  minus zero, is a `real` in lowest terms; every other number is an `int`. Of two entries with one
  key the later one counts.

  Each nested value and each character of a string is one step of the fuel, so the length of the text
  is always enough.
-/

import LayerLint.Json.Basic
import LayerLint.Text.Class

namespace LayerLint

namespace Json

def isSpace (c : Char) : Bool := c == ' ' || c == '\t' || c == '\n' || c == '\r'

def skipSpace (s : List Char) : List Char := s.dropWhile isSpace

def hexValue? (c : Char) : Option Nat :=
  if Text.isAsciiDigit c then some (c.toNat - 48)
  else if 'a' ≤ c ∧ c ≤ 'f' then some (c.toNat - 87)
  else if 'A' ≤ c ∧ c ≤ 'F' then some (c.toNat - 55)
  else none

def hex4? : List Char → Option (Nat × List Char)
  | a :: b :: c :: d :: rest => do
    let a ← hexValue? a
    let b ← hexValue? b
    let c ← hexValue? c
    let d ← hexValue? d
    return (((a * 16 + b) * 16 + c) * 16 + d, rest)
  | _ => none

/-- A character given by its number, where a high surrogate has to be followed by a low one. -/
def numbered? (s : List Char) : Option (Char × List Char) := do
  let (hi, rest) ← hex4? s
  if 0xD800 ≤ hi ∧ hi < 0xDC00 then
    match rest with
    | '\\' :: 'u' :: more =>
      let (lo, rest) ← hex4? more
      if 0xDC00 ≤ lo ∧ lo < 0xE000 then
        return (Char.ofNat (0x10000 + (hi - 0xD800) * 0x400 + (lo - 0xDC00)), rest)
      else none
    | _ => none
  else if 0xDC00 ≤ hi ∧ hi < 0xE000 then none
  else return (Char.ofNat hi, rest)

def unescape? : List Char → Option (Char × List Char)
  | '"' :: rest => some ('"', rest)
  | '\\' :: rest => some ('\\', rest)
  | '/' :: rest => some ('/', rest)
  | 'b' :: rest => some ('\x08', rest)
  | 'f' :: rest => some ('\x0c', rest)
  | 'n' :: rest => some ('\n', rest)
  | 'r' :: rest => some ('\r', rest)
  | 't' :: rest => some ('\t', rest)
  | 'u' :: rest => numbered? rest
  | _ => none

/-- The rest of a string up to its closing quote. `acc` holds what was read, last character first. -/
def readChars (acc : List Char) : (fuel : Nat) → List Char → Option (String × List Char)
  | 0, _ => none
  | _ + 1, [] => none
  | fuel + 1, c :: rest =>
    if c == '"' then some (String.ofList acc.reverse, rest)
    else if c == '\\' then
      match unescape? rest with
      | some (e, rest) => readChars (e :: acc) fuel rest
      | none => none
    else if c.toNat < 0x20 then none
    else readChars (c :: acc) fuel rest

def digitsValue (ds : List Char) : Nat := ds.foldl (fun n c => n * 10 + (c.toNat - 48)) 0

def digitRow (s : List Char) : List Char × List Char := s.span Text.isAsciiDigit

def fraction? : List Char → Option (Option (List Char) × List Char)
  | '.' :: s =>
    match digitRow s with
    | ([], _) => none
    | (ds, rest) => some (some ds, rest)
  | s => some (none, s)

def power? (s : List Char) : Option (Option Int × List Char) :=
  match s with
  | c :: t =>
    if c == 'e' || c == 'E' then
      let (sign, t) : Int × List Char := match t with
        | '-' :: u => (-1, u)
        | '+' :: u => (1, u)
        | u => (1, u)
      match digitRow t with
      | ([], _) => none
      | (ds, rest) => some (some (sign * digitsValue ds), rest)
    else some (none, s)
  | [] => some (none, s)

def readNumber (s : List Char) : Option (Json × List Char) := do
  let (negative, s) : Bool × List Char := match s with
    | '-' :: t => (true, t)
    | t => (false, t)
  let (whole, s) := digitRow s
  if whole.isEmpty || (whole.length > 1 && whole.head? == some '0') then none
  let (frac, s) ← fraction? s
  let (power, s) ← power? s
  let n := digitsValue whole
  match frac, power with
  | none, none =>
    if negative && n == 0 then return (.real ⟨true, 0, 0⟩, s)
    return (.int (if negative then -n else n), s)
  | _, _ =>
    let ds := frac.getD []
    let e : Int := power.getD 0
    return (.real (Decimal.ofDigits negative (digitsValue (whole ++ ds)) (e - ds.length)), s)

def word? (w : String) (v : Json) (s : List Char) : Option (Json × List Char) :=
  if w.toList.isPrefixOf s then some (v, s.drop w.length) else none

/-- The entries with the keys that come again later taken out. -/
def lastOfEach : List (String × Json) → List (String × Json)
  | [] => []
  | e :: rest => if rest.any (·.1 == e.1) then lastOfEach rest else e :: lastOfEach rest

mutual

def readValue : (fuel : Nat) → List Char → Option (Json × List Char)
  | 0, _ => none
  | fuel + 1, s =>
    match skipSpace s with
    | [] => none
    | '"' :: rest => (readChars [] (rest.length + 1) rest).map fun (t, k) => (.str t, k)
    | '[' :: rest =>
      match skipSpace rest with
      | ']' :: k => some (.arr [], k)
      | _ => (readItems fuel [] rest).map fun (items, k) => (.arr items, k)
    | '\x7b' :: rest =>
      match skipSpace rest with
      | '\x7d' :: k => some (.obj [], k)
      | _ => (readEntries fuel [] rest).map fun (entries, k) => (.obj (lastOfEach entries), k)
    | 'n' :: rest => word? "null" .null ('n' :: rest)
    | 't' :: rest => word? "true" (.bool true) ('t' :: rest)
    | 'f' :: rest => word? "false" (.bool false) ('f' :: rest)
    | c :: rest => readNumber (c :: rest)

def readItems : (fuel : Nat) → (acc : List Json) → List Char → Option (List Json × List Char)
  | 0, _, _ => none
  | fuel + 1, acc, s =>
    match readValue fuel s with
    | none => none
    | some (v, s) =>
      match skipSpace s with
      | ',' :: rest => readItems fuel (v :: acc) rest
      | ']' :: rest => some ((v :: acc).reverse, rest)
      | _ => none

def readEntries : (fuel : Nat) → (acc : List (String × Json)) → List Char →
    Option (List (String × Json) × List Char)
  | 0, _, _ => none
  | fuel + 1, acc, s =>
    match skipSpace s with
    | '"' :: s =>
      match readChars [] (s.length + 1) s with
      | none => none
      | some (key, s) =>
        match skipSpace s with
        | ':' :: s =>
          match readValue fuel s with
          | none => none
          | some (v, s) =>
            match skipSpace s with
            | ',' :: rest => readEntries fuel ((key, v) :: acc) rest
            | '\x7d' :: rest => some (((key, v) :: acc).reverse, rest)
            | _ => none
        | _ => none
    | _ => none

end

def parse? (text : String) : Option Json :=
  let s := text.toList
  match readValue (s.length + 1) s with
  | some (v, rest) => if (skipSpace rest).isEmpty then some v else none
  | none => none

end Json

end LayerLint
