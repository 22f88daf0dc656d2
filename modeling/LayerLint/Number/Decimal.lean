/-
  LayerLint.Number.Decimal: powers, decimal fractions and their text.

  A decimal is `digits · 10 ^ exponent`. Its text always shows a fraction or an exponent, so that it
  never reads as a whole number: positional with at least one place while the point stands among
  sixteen digits or up to four zeros follow it, and scientific beyond.
-/

namespace LayerLint

def twoPow (n : Nat) : Nat := Nat.pow 2 n

def tenPow (n : Nat) : Nat := Nat.pow 10 n

/-- The fraction `±digits · 10 ^ exponent`. -/
structure Decimal where
  negative : Bool
  digits : Nat
  exponent : Int
  deriving DecidableEq, Repr

namespace Decimal

def zero : Decimal := ⟨false, 0, 0⟩

/-- The same fraction with no zero at the end of its digits, tried at most `n` times. -/
def dropZeros : (n : Nat) → (digits : Nat) → (exponent : Int) → Nat × Int
  | 0, d, e => (d, e)
  | n + 1, d, e => if d % 10 = 0 then dropZeros n (d / 10) (e + 1) else (d, e)

/-- A fraction in lowest terms. Zero has exponent zero. -/
def ofDigits (negative : Bool) (digits : Nat) (exponent : Int) : Decimal :=
  if digits = 0 then ⟨negative, 0, 0⟩
  else
    let (d, e) := dropZeros (Nat.log2 digits + 1) digits exponent
    ⟨negative, d, e⟩

def digitsOf (n : Nat) : List Char := Nat.toDigits 10 n

def zeros (n : Nat) : List Char := List.replicate n '0'

def unsigned (d : Decimal) : List Char :=
  if d.digits = 0 then ['0', '.', '0']
  else
    let ds := digitsOf d.digits
    /- The value lies between `10 ^ (point - 1)` and `10 ^ point`. -/
    let point : Int := ds.length + d.exponent
    if 0 ≤ d.exponent ∧ point ≤ 16 then ds ++ zeros d.exponent.toNat ++ ['.', '0']
    else if 0 < point ∧ point ≤ 16 then ds.take point.toNat ++ ['.'] ++ ds.drop point.toNat
    else if -5 < point ∧ point ≤ 0 then ['0', '.'] ++ zeros (-point).toNat ++ ds
    else
      let mantissa := match ds with
        | [] => []
        | [c] => [c]
        | c :: rest => c :: '.' :: rest
      let power := point - 1
      mantissa ++ ['e'] ++ (if power < 0 then ['-'] else []) ++ digitsOf power.natAbs

def text (d : Decimal) : List Char := if d.negative then '-' :: d.unsigned else d.unsigned

end Decimal

end LayerLint
