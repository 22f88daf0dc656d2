/-
  LayerLint.Toml.Scalar: numbers, truth values and dates.

  A scalar is a run of plain characters that is read as a whole. Integers fit into 128 bits and
  fractions into a double; digits may be grouped by single low lines. A date has the days of its month
  and a time the hours of a day, with seconds up to the leap second or none.
-/

import LayerLint.Json.Reader
import LayerLint.Number.Decimal
import LayerLint.Toml.Basic

namespace LayerLint

namespace Toml

open Text (isAsciiDigit)
open Json (hexValue? digitsValue)

def sign (s : List Char) : Bool × List Char :=
  match s with
  | '-' :: t => (true, t)
  | '+' :: t => (false, t)
  | t => (false, t)

/-- Digits that may be grouped by single low lines, without the low lines. -/
def digitGroups? (isDigit : Char → Bool) : List Char → Option (List Char)
  | [] => none
  | [c] => if isDigit c then some [c] else none
  | c :: '_' :: rest => if isDigit c then (digitGroups? isDigit rest).map (c :: ·) else none
  | c :: rest => if isDigit c then (digitGroups? isDigit rest).map (c :: ·) else none

/-- The digits of a decimal number, which start with a zero only if it is zero. -/
def wholeDigits? (s : List Char) : Option (List Char) :=
  match digitGroups? isAsciiDigit s with
  | some ('0' :: _ :: _) => none
  | r => r

/-- A number in a base that its letter announces. -/
def based? (base : Nat) (s : List Char) : Option Nat := do
  let digits ← digitGroups? (fun c => (hexValue? c).any (· < base)) s
  return digits.foldl (fun n c => n * base + (hexValue? c).getD 0) 0

def integerValue? : List Char → Option Int
  | '0' :: 'x' :: s => (based? 16 s).map Int.ofNat
  | '0' :: 'o' :: s => (based? 8 s).map Int.ofNat
  | '0' :: 'b' :: s => (based? 2 s).map Int.ofNat
  | s =>
    let (negative, s) := sign s
    (wholeDigits? s).map fun ds => if negative then -(digitsValue ds) else digitsValue ds

def integer? (s : List Char) : Option Toml := do
  let n ← integerValue? s
  if -(twoPow 127 : Int) ≤ n ∧ n < twoPow 128 then some (.integer n) else none

/-- Whether a fraction is too large for a double: it rounds to two to the power of 1024. -/
def overflows (digits : Nat) (exponent : Int) : Bool :=
  let least := twoPow 1024 - twoPow 970
  if digits = 0 then false
  else if exponent ≤ 0 then decide (least * tenPow (min (-exponent).toNat (digits.log2 + 1)) ≤ digits)
  else exponent > 400 || decide (least ≤ digits * tenPow exponent.toNat)

def exponent? (s : List Char) : Option Int :=
  let (negative, s) := sign s
  (digitGroups? isAsciiDigit s).map fun ds => if negative then -(digitsValue ds) else digitsValue ds

def fraction? (s : List Char) : Option Toml := do
  let (negative, s) := sign s
  let (mantissa, mark) := s.span fun c => c != 'e' && c != 'E'
  let (whole, point) := mantissa.span (· != '.')
  if mark.isEmpty && point.isEmpty then none
  let power ← if mark.isEmpty then some 0 else exponent? (mark.drop 1)
  let places ← if point.isEmpty then some [] else digitGroups? isAsciiDigit (point.drop 1)
  let digits := digitsValue ((← wholeDigits? whole) ++ places)
  let exponent := power - places.length
  if overflows digits exponent then none else some (.real (.ofDigits negative digits exponent))

def special? (s : List Char) : Option Toml :=
  let name := String.ofList (sign s).2
  if name = "inf" ∨ name = "nan" then some (.special (String.ofList s)) else none

def bool? (s : List Char) : Option Toml :=
  if s = "true".toList then some (.bool true)
  else if s = "false".toList then some (.bool false)
  else none

/-! ## Dates and times -/

def two? : List Char → Option (Nat × List Char)
  | a :: b :: rest =>
    if isAsciiDigit a && isAsciiDigit b then some (digitsValue [a, b], rest) else none
  | _ => none

def after? (c : Char) : List Char → Option (List Char)
  | d :: rest => if d = c then some rest else none
  | [] => none

def isLeapYear (y : Nat) : Bool := y % 4 == 0 && (y % 100 != 0 || y % 400 == 0)

def daysIn (year month : Nat) : Nat :=
  if month = 2 then if isLeapYear year then 29 else 28
  else if month = 4 ∨ month = 6 ∨ month = 9 ∨ month = 11 then 30
  else 31

def afterDate? (s : List Char) : Option (List Char) := do
  let (century, s) ← two? s
  let (year, s) ← two? s
  let (month, s) ← two? (← after? '-' s)
  let (day, s) ← two? (← after? '-' s)
  if 1 ≤ month ∧ month ≤ 12 ∧ 1 ≤ day ∧ day ≤ daysIn (century * 100 + year) month then some s
  else none

/-- The text behind the fraction of a second, which may be missing. -/
def afterFraction? : List Char → Option (List Char)
  | '.' :: s =>
    match s.span isAsciiDigit with
    | ([], _) => none
    | (_, rest) => some rest
  | s => some s

def afterTime? (s : List Char) : Option (List Char) := do
  let (hour, s) ← two? s
  let (minute, s) ← two? (← after? ':' s)
  if hour > 23 ∨ minute > 59 then none
  match s with
  | ':' :: s =>
    let (second, s) ← two? s
    if second ≤ 60 then afterFraction? s else none
  | s => some s

def isOffset (s : List Char) : Bool :=
  match s with
  | [] => true
  | ['Z'] => true
  | ['z'] => true
  | c :: s =>
    (c == '+' || c == '-') &&
    match two? s with
    | some (hours, ':' :: s) =>
      match two? s with
      | some (minutes, []) => decide (minutes ≤ 59 ∧ hours * 60 + minutes ≤ 24 * 60)
      | _ => false
    | _ => false

def isMoment (s : List Char) : Bool :=
  match afterDate? s with
  | some [] => true
  | some (c :: rest) =>
    (c == 'T' || c == 't' || c == ' ') &&
    match afterTime? rest with
    | some offset => isOffset offset
    | none => false
  | none => afterTime? s == some []

def date? (s : List Char) : Option Toml :=
  if isMoment s then some (.date (String.ofList s)) else none

def scalar? (s : List Char) : Option Toml :=
  bool? s <|> integer? s <|> fraction? s <|> special? s <|> date? s

def isPlain (c : Char) : Bool :=
  Text.isAsciiAlphanumeric c || c == '+' || c == '-' || c == '_' || c == '.' || c == ':'

/-- Splits the run of a scalar off. A blank goes on with the run if it stands between a date and a
    digit. -/
def splitScalar (s : List Char) : List Char × List Char :=
  let (run, rest) := s.span isPlain
  match rest with
  | ' ' :: c :: more =>
    if afterDate? run == some [] && isAsciiDigit c then
      let (time, rest) := (c :: more).span isPlain
      (run ++ ' ' :: time, rest)
    else (run, rest)
  | _ => (run, rest)

end Toml

end LayerLint
