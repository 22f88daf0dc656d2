/-
  LayerLint.Number.Shortest: the shortest decimal that reads back as a given binary fraction.

  The reals that round to `m · 2 ^ e` lie between the midpoints to its neighbours, midpoints included
  when `m` is even. For one digit, two digits, and so on, the two decimals next to the value are
  tested against that interval; the first hit is the answer, and of two hits the nearer one.
-/

import LayerLint.Number.Binary64

namespace LayerLint

namespace Binary64

/-- No positive fraction of 64 bits lies below the power of ten with this exponent, negated. -/
def tenths : Nat := 330

/-- The number of digits before the point, or minus the number of zeros after it: a positive value
    lies from `10 ^ (magnitude - 1)` up to `10 ^ magnitude`. -/
def magnitude (x : Binary64) : Int :=
  (Nat.toDigits 10 (x.num * tenPow tenths / x.den)).length - (tenths : Int)

/-- A quarter unit of the mantissa counted `k` times, against the decimal `d · 10 ^ e`, both as whole
    numbers of one scale. -/
def quarters (x : Binary64) (k : Nat) (e : Int) : Nat :=
  k * twoPow (x.exponent - 2).toNat * tenPow (-e).toNat

def tens (x : Binary64) (d : Nat) (e : Int) : Nat :=
  d * tenPow e.toNat * twoPow (2 - x.exponent).toNat

/-- The lower end of the interval that rounds to the value, in quarter units. Below a power of two
    the fractions lie twice as close. -/
def lowest (x : Binary64) : Nat :=
  if x.mantissa = twoPow 52 then 4 * x.mantissa - 1 else 4 * x.mantissa - 2

def roundsFrom (x : Binary64) (d : Nat) (e : Int) : Bool :=
  let lo := x.quarters x.lowest e
  let hi := x.quarters (4 * x.mantissa + 2) e
  let t := x.tens d e
  if x.mantissa % 2 = 0 then decide (lo ≤ t) && decide (t ≤ hi)
  else decide (lo < t) && decide (t < hi)

def withDigits? (x : Binary64) (n : Nat) : Option Decimal :=
  let e := x.magnitude - n
  let v := x.quarters (4 * x.mantissa) e
  let unit := x.tens 1 e
  let below := v / unit
  let above := below + 1
  let nearer := if 2 * (v - unit * below) ≤ unit then [below, above] else [above, below]
  (nearer.find? (x.roundsFrom · e)).map fun d => .ofDigits false d e

/-- The shortest decimal that rounds to the value. Seventeen digits are always enough. -/
def shortest (x : Binary64) : Decimal :=
  if x.mantissa = 0 then .zero
  else ((List.range' 1 17).findSome? x.withDigits?).getD .zero

end Binary64

end LayerLint
