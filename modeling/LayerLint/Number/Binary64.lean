/-
  LayerLint.Number.Binary64: quotients of counts as 64-bit binary fractions.

  A fraction is `mantissa · 2 ^ exponent` with at most 53 bits in the mantissa. `ofRatio` rounds a
  quotient to the nearest such fraction, and a value halfway between two goes to the one with the
  even mantissa; `scale` rounds once more after a multiplication. `fixed` writes a fraction with a
  fixed number of decimal places, where the exact value is rounded in the same way. All of it is
  exact arithmetic on whole numbers.
-/

import LayerLint.Number.Decimal

namespace LayerLint

/-- The fraction `mantissa · 2 ^ exponent`. -/
structure Binary64 where
  mantissa : Nat
  exponent : Int
  deriving DecidableEq, Repr

/-- The whole number nearest to a quotient; halfway between two, the even one. -/
def roundDiv (num den : Nat) : Nat :=
  let q := num / den
  let r := num % den
  if 2 * r < den ∨ (2 * r = den ∧ q % 2 = 0) then q else q + 1

namespace Binary64

def zero : Binary64 := ⟨0, 0⟩

def num (x : Binary64) : Nat := x.mantissa * twoPow x.exponent.toNat

def den (x : Binary64) : Nat := twoPow (-x.exponent).toNat

/-- `num / den` in units of `2 ^ e`, rounded. -/
def unitsOf (num den : Nat) (e : Int) : Nat :=
  roundDiv (num * twoPow (-e).toNat) (den * twoPow e.toNat)

/-- The exponent at which a quotient has a mantissa of 53 bits. -/
def exponentOf (num den : Nat) : Int :=
  let e : Int := (num.log2 : Int) - den.log2 - 52
  if num * twoPow (-e).toNat < twoPow 52 * (den * twoPow e.toNat) then e - 1 else e

def ofRatio (num den : Nat) : Binary64 :=
  if num = 0 ∨ den = 0 then zero
  else
    let e := exponentOf num den
    let m := unitsOf num den e
    if m = twoPow 53 then ⟨twoPow 52, e + 1⟩ else ⟨m, e⟩

def scale (x : Binary64) (k : Nat) : Binary64 := ofRatio (x.num * k) x.den

/-! ## Fixed places -/

def lastPlaces (x : Binary64) (places : Nat) : Nat := roundDiv (x.num * tenPow places) x.den

/-- The value with these many decimal places, at least one. -/
def fixed (x : Binary64) (places : Nat) : String :=
  let units := x.lastPlaces places
  let frac := Nat.toDigits 10 (units % tenPow places)
  String.ofList
    (Nat.toDigits 10 (units / tenPow places) ++
      '.' :: (List.replicate (places - frac.length) '0' ++ frac))

end Binary64

end LayerLint
