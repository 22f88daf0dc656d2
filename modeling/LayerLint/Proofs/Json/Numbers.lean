/-
  LayerLint.Proofs.Json.Numbers: how numbers are written.

  Whole numbers and decimals are written in the grammar of JSON numbers, as themselves (`numberText_int`, `numberText_real`). A
  decimal has many spellings as digits and exponent, of which the reader gives back the one in lowest terms
  (`Decimal.ofDigits_tenPow`); the shortest decimal of a binary fraction is in lowest terms (`Binary64.lowest_shortest`).
-/

import LayerLint.Json.Printer
import LayerLint.Number.Shortest
import LayerLint.Proofs.Json.Grammar

namespace LayerLint

/-! ## Lowest terms -/

theorem tenPow_zero : tenPow 0 = 1 := rfl

theorem tenPow_succ (j : Nat) : tenPow (j + 1) = 10 * tenPow j := Nat.mul_comm _ _

theorem twoPow_succ (j : Nat) : twoPow (j + 1) = 2 * twoPow j := Nat.mul_comm _ _

namespace Decimal

/-- No zero ends the digits, and zero has the exponent zero. -/
def Lowest (d : Decimal) : Prop := d.digits % 10 ≠ 0 ∨ d.digits = 0 ∧ d.exponent = 0

theorem dropZeros_tenPow {d : Nat} (hd : d % 10 ≠ 0) : ∀ {j n : Nat}, j < n → ∀ e : Int,
    dropZeros n (d * tenPow j) e = (d, e + j) := by
  intro j
  induction j with
  | zero =>
    intro n hn e
    obtain ⟨n, rfl⟩ := Nat.exists_eq_succ_of_ne_zero (Nat.ne_of_gt hn)
    simp [dropZeros, tenPow, hd]
  | succ j ih =>
    intro n hn e
    obtain ⟨n, rfl⟩ := Nat.exists_eq_succ_of_ne_zero (Nat.ne_of_gt (Nat.zero_lt_of_lt hn))
    have hmul : d * tenPow (j + 1) = 10 * (d * tenPow j) := by rw [tenPow_succ, Nat.mul_left_comm]
    have hstep : dropZeros (n + 1) (d * tenPow (j + 1)) e = dropZeros n (d * tenPow j) (e + 1) := by
      rw [hmul, dropZeros, if_pos (Nat.mul_mod_right 10 _), Nat.mul_div_cancel_left _ (by decide)]
    rw [hstep, ih (by omega)]
    simp only [Prod.mk.injEq, true_and]
    omega

theorem dropZeros_mod {n : Nat} : ∀ {d : Nat}, d ≠ 0 → d < twoPow n → ∀ e : Int, (dropZeros n d e).1 % 10 ≠ 0 := by
  induction n with
  | zero =>
    intro d hd hlt
    simp [twoPow] at hlt
    omega
  | succ n ih =>
    intro d hd hlt e
    rw [twoPow_succ] at hlt
    unfold dropZeros
    split
    · exact ih (by omega) (by omega) _
    · assumption

theorem lowest_ofDigits (negative : Bool) (digits : Nat) (exponent : Int) :
    (ofDigits negative digits exponent).Lowest := by
  unfold ofDigits
  split
  · exact .inr ⟨rfl, rfl⟩
  · next h => exact .inl (dropZeros_mod h Nat.lt_log2_self exponent)

/-- A decimal in lowest terms is found again behind any number of zeros. -/
theorem ofDigits_tenPow {d : Decimal} (h : d.digits % 10 ≠ 0) (j : Nat) :
    ofDigits d.negative (d.digits * tenPow j) (d.exponent - j) = d := by
  have hpos : 0 < d.digits := by omega
  have hten : twoPow j ≤ d.digits * tenPow j := calc
    twoPow j ≤ tenPow j := Nat.pow_le_pow_left (by decide) j
    _ ≤ d.digits * tenPow j := Nat.le_mul_of_pos_left _ hpos
  have hne : d.digits * tenPow j ≠ 0 := Nat.ne_of_gt (Nat.mul_pos hpos (Nat.pow_pos (by decide)))
  have hj : j < (d.digits * tenPow j).log2 + 1 := Nat.lt_succ_of_le ((Nat.le_log2 hne).mpr hten)
  simp only [ofDigits, hne, if_false, dropZeros_tenPow h hj, Int.sub_add_cancel]

end Decimal

theorem Binary64.lowest_shortest (x : Binary64) : x.shortest.Lowest := by
  have hzero : Decimal.zero.Lowest := .inr ⟨rfl, rfl⟩
  unfold shortest
  split
  · exact hzero
  · cases h : (List.range' 1 17).findSome? x.withDigits? with
    | none => exact hzero
    | some d =>
      obtain ⟨n, -, hn⟩ := List.exists_of_findSome?_eq_some h
      obtain ⟨digits, -, rfl⟩ := Option.map_eq_some_iff.mp hn
      exact Decimal.lowest_ofDigits ..

/-! ## Digits -/

namespace Json

theorem isAsciiDigit_eq (c : Char) : Text.isAsciiDigit c = c.isDigit := rfl

theorem digitsValue_eq (ds : List Char) : digitsValue ds = Nat.ofDigitChars 10 ds 0 := by
  simp only [digitsValue, Nat.ofDigitChars_eq_foldl, Nat.mul_comm]
  rfl

theorem digitsValue_toDigits (n : Nat) : digitsValue (Nat.toDigits 10 n) = n := by
  rw [digitsValue_eq, Nat.ofDigitChars_ten_toDigits]

theorem digitsValue_append_zeros (ds : List Char) (j : Nat) :
    digitsValue (ds ++ Decimal.zeros j) = digitsValue ds * tenPow j := by
  rw [digitsValue_eq, Nat.ofDigitChars_append, Decimal.zeros, Nat.ofDigitChars_replicate_zero, ← digitsValue_eq,
    Nat.mul_comm]
  rfl

theorem digitsValue_zeros_append (j : Nat) (ds : List Char) :
    digitsValue (Decimal.zeros j ++ ds) = digitsValue ds := by
  rw [digitsValue_eq, Nat.ofDigitChars_append, Decimal.zeros, Nat.ofDigitChars_replicate_zero, Nat.mul_zero,
    ← digitsValue_eq]

theorem digits_toDigits (n : Nat) : Digits (Nat.toDigits 10 n) where
  ne_nil := Nat.toDigits_ne_nil
  digit c hc := by rw [isAsciiDigit_eq, Nat.isDigit_of_mem_toDigits (by decide) (by decide) hc]

theorem digit_zeros {j : Nat} {c : Char} (h : c ∈ Decimal.zeros j) : Text.isAsciiDigit c = true := by
  rw [List.eq_of_mem_replicate h]
  rfl

theorem head?_toDigits {n : Nat} (h : 0 < n) : (Nat.toDigits 10 n).head? ≠ some '0' := by
  induction n using Nat.strongRecOn with
  | _ n ih =>
    rw [Nat.toDigits_eq_if (by decide)]
    split
    · intro hc
      have := Nat.digitChar_eq_zero.mp (Option.some.inj hc)
      omega
    · have hlead := ih (n / 10) (by omega) (by omega)
      cases hds : Nat.toDigits 10 (n / 10) with
      | nil => exact absurd hds Nat.toDigits_ne_nil
      | cons d rest =>
        rw [hds] at hlead
        exact hlead

theorem whole_toDigits (n : Nat) : Whole (Nat.toDigits 10 n) where
  toDigits := digits_toDigits n
  lead hlen := by
    refine head?_toDigits (Nat.pos_of_ne_zero ?_)
    rintro rfl
    exact absurd hlen (by decide)

/-! ## Numbers as text -/

theorem numberText_int (n : Int) : NumberText (.int n) (intText n) := by
  have hnumber := NumberText.mk (decide (n < 0)) (whole_toDigits n.natAbs) .absent .absent
  by_cases h : n < 0
  · have hzero : (n.natAbs == 0) = false := by rw [beq_eq_false_iff_ne]; omega
    have hvalue : -(n.natAbs : Int) = n := by omega
    simpa only [numberValue, digitsValue_toDigits, minusSign, intText, h, decide_true, hzero, hvalue, Bool.and_false,
      Bool.false_eq_true, reduceIte, List.append_nil, List.cons_append, List.nil_append] using hnumber
  · have hvalue : (n.natAbs : Int) = n := by omega
    simpa only [numberValue, digitsValue_toDigits, minusSign, intText, h, decide_false, hvalue, Bool.false_and,
      Bool.false_eq_true, reduceIte, List.append_nil, List.nil_append] using hnumber

/-- A text without sign whose parts mean the decimal, once it has the decimal's sign. -/
def Numeral (d : Decimal) (t : List Char) : Prop :=
  ∃ whole frac f power p, Whole whole ∧ Fraction frac f ∧ Power power p ∧ t = whole ++ (f ++ p) ∧
    numberValue d.negative whole frac power = .real d

variable {d : Decimal}

theorem numeral_zero (h : d.digits = 0) (he : d.exponent = 0) : Numeral d ['0', '.', '0'] := by
  obtain ⟨negative, digits, exponent⟩ := d
  cases h
  cases he
  have hdigit : Digits ['0'] := ⟨by simp, by simp [Text.isAsciiDigit]⟩
  exact ⟨['0'], some ['0'], _, none, _, ⟨hdigit, by simp⟩, .digits hdigit, .absent, rfl, rfl⟩

section Layouts

variable (h : d.digits % 10 ≠ 0)
include h

/-- A number with a point or a power means the decimal if it has its digits, perhaps with zeros behind them, and the
    exponent fits. -/
theorem numberValue_eq_real {whole : List Char} {frac : Option (List Char)} {power : Option Int} (j : Nat)
    (hform : frac.isSome ∨ power.isSome) (hvalue : digitsValue (whole ++ frac.getD []) = d.digits * tenPow j)
    (he : power.getD 0 - (frac.getD []).length = d.exponent - j) :
    numberValue d.negative whole frac power = .real d := by
  have hreal : numberValue d.negative whole frac power =
      .real (.ofDigits d.negative (digitsValue (whole ++ frac.getD [])) (power.getD 0 - (frac.getD []).length)) := by
    rcases frac with _ | ds <;> rcases power with _ | e
    · simp at hform
    all_goals rfl
  rw [hreal, hvalue, he, Decimal.ofDigits_tenPow h]

variable {ds : List Char} (hds : Digits ds) (hvalue : digitsValue ds = d.digits)
include hds hvalue

/-- The form `digits000.0`. -/
theorem numeral_integral (hlead : ds.head? ≠ some '0') (he : 0 ≤ d.exponent) :
    Numeral d (ds ++ Decimal.zeros d.exponent.toNat ++ ['.', '0']) := by
  have hwhole : Whole (ds ++ Decimal.zeros d.exponent.toNat) := by
    refine ⟨⟨by simp [hds.ne_nil], ?_⟩, fun _ => ?_⟩
    · intro c hc
      rcases List.mem_append.mp hc with hc | hc
      · exact hds.digit c hc
      · exact digit_zeros hc
    · obtain ⟨c, rest, rfl, -⟩ := hds.exists_cons
      exact hlead
  have hall : ds ++ Decimal.zeros d.exponent.toNat ++ ['0'] = ds ++ Decimal.zeros (d.exponent.toNat + 1) := by
    rw [List.append_assoc, Decimal.zeros, Decimal.zeros, List.replicate_succ']
  refine ⟨_, some ['0'], _, none, [], hwhole, .digits ⟨by simp, by simp [Text.isAsciiDigit]⟩, .absent, by simp, ?_⟩
  refine numberValue_eq_real h (d.exponent.toNat + 1) (.inl rfl) ?_ ?_
  · rw [Option.getD_some, hall, digitsValue_append_zeros, hvalue]
  · simp
    omega

/-- The form `dig.its`. -/
theorem numeral_positional (hlead : ds.head? ≠ some '0') {point : Nat} (hpos : 0 < point) (hlt : point < ds.length)
    (he : (ds.length : Int) + d.exponent = point) : Numeral d (ds.take point ++ ['.'] ++ ds.drop point) := by
  have htake : Whole (ds.take point) := by
    refine ⟨⟨?_, fun c hc => hds.digit c (List.mem_of_mem_take hc)⟩, fun _ => ?_⟩
    · rw [Ne, List.take_eq_nil_iff]
      exact not_or.mpr ⟨by omega, hds.ne_nil⟩
    · rwa [List.head?_take, if_neg (by omega)]
  have hdrop : Digits (ds.drop point) := by
    refine ⟨?_, fun c hc => hds.digit c (List.mem_of_mem_drop hc)⟩
    rw [Ne, List.drop_eq_nil_iff]
    omega
  refine ⟨_, _, _, none, [], htake, .digits hdrop, .absent, by simp, ?_⟩
  refine numberValue_eq_real h 0 (.inl rfl) ?_ ?_
  · rw [Option.getD_some, List.take_append_drop, hvalue, tenPow_zero, Nat.mul_one]
  · simp
    omega

/-- The form `0.000digits`. -/
theorem numeral_small {gap : Nat} (he : (ds.length : Int) + d.exponent = -gap) :
    Numeral d (['0', '.'] ++ Decimal.zeros gap ++ ds) := by
  have hwhole : Whole ['0'] := ⟨⟨by simp, by simp [Text.isAsciiDigit]⟩, by simp⟩
  have hfrac : Digits (Decimal.zeros gap ++ ds) := by
    refine ⟨by simp [hds.ne_nil], ?_⟩
    intro c hc
    rcases List.mem_append.mp hc with hc | hc
    · exact digit_zeros hc
    · exact hds.digit c hc
  have hall : ['0'] ++ (Decimal.zeros gap ++ ds) = Decimal.zeros (gap + 1) ++ ds := rfl
  refine ⟨_, _, _, none, [], hwhole, .digits hfrac, .absent, by simp, ?_⟩
  refine numberValue_eq_real h 0 (.inl rfl) ?_ ?_
  · rw [Option.getD_some, hall, digitsValue_zeros_append, hvalue, tenPow_zero, Nat.mul_one]
  · simp [Decimal.zeros]
    omega

/-- The form `d.igitse-9`, or `de-9` if there is only one digit. -/
theorem numeral_scientific {c : Char} {frac : Option (List Char)} {f : List Char} (hf : Fraction frac f)
    (hparts : ds = c :: frac.getD []) {power : Int} (he : (ds.length : Int) + d.exponent = power + 1) :
    Numeral d (c :: f ++ ['e'] ++ (if power < 0 then ['-'] else []) ++ Decimal.digitsOf power.natAbs) := by
  have hwhole : Whole [c] := ⟨⟨by simp, by simp [hds.digit c, hparts]⟩, by simp⟩
  obtain ⟨p, hp, htext⟩ : ∃ p, Power (some power) p ∧
      p = ['e'] ++ (if power < 0 then ['-'] else []) ++ Decimal.digitsOf power.natAbs := by
    have hdigits := digits_toDigits power.natAbs
    by_cases hneg : power < 0
    · have hp := Power.minus (.inl rfl) hdigits
      rw [digitsValue_toDigits, show -(power.natAbs : Int) = power by omega] at hp
      exact ⟨_, hp, by simp [hneg, Decimal.digitsOf]⟩
    · have hp := Power.bare (.inl rfl) hdigits
      rw [digitsValue_toDigits, show (power.natAbs : Int) = power by omega] at hp
      exact ⟨_, hp, by simp [hneg, Decimal.digitsOf]⟩
  refine ⟨_, _, _, _, _, hwhole, hf, hp, by simp [htext], ?_⟩
  refine numberValue_eq_real h 0 (.inr rfl) ?_ ?_
  · rw [List.singleton_append, ← hparts, hvalue, tenPow_zero, Nat.mul_one]
  · rw [hparts, List.length_cons] at he
    simp
    omega

end Layouts

theorem numeral_unsigned (h : d.Lowest) : Numeral d d.unsigned := by
  unfold Decimal.unsigned
  rcases h with h | ⟨h, he⟩
  · rw [if_neg (by omega)]
    have hds : Digits (Decimal.digitsOf d.digits) := digits_toDigits d.digits
    have hlead : (Decimal.digitsOf d.digits).head? ≠ some '0' := head?_toDigits (by omega)
    have hvalue : digitsValue (Decimal.digitsOf d.digits) = d.digits := digitsValue_toDigits d.digits
    generalize Decimal.digitsOf d.digits = ds at hds hlead hvalue
    dsimp only
    split
    · next hint => exact numeral_integral h hds hvalue hlead hint.1
    split
    · next hint hpos => exact numeral_positional h hds hvalue hlead (by omega) (by omega) (by omega)
    split
    · next hsmall => exact numeral_small h hds hvalue (by omega)
    · rcases ds with _ | ⟨c, _ | ⟨c', rest⟩⟩
      · exact absurd rfl hds.ne_nil
      · exact numeral_scientific h hds hvalue .absent rfl (by omega)
      · have hrest : Digits (c' :: rest) := ⟨by simp, fun x hx => hds.digit x (List.mem_cons_of_mem c hx)⟩
        exact numeral_scientific h hds hvalue (.digits hrest) rfl (by omega)
  · rw [if_pos h]
    exact numeral_zero h he

theorem numberText_real (h : d.Lowest) : NumberText (.real d) d.text := by
  obtain ⟨whole, frac, f, power, p, hw, hf, hp, htext, hvalue⟩ := numeral_unsigned h
  have hnumber := NumberText.mk d.negative hw hf hp
  rw [hvalue, ← htext] at hnumber
  have hsign : d.text = minusSign d.negative ++ d.unsigned := by
    unfold Decimal.text minusSign
    split <;> rfl
  rwa [hsign]

end Json

end LayerLint
