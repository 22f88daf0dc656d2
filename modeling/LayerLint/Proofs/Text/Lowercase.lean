/-
  LayerLint.Proofs.Text.Lowercase: what lower-casing looks at and what it leaves.

  The form of a capital sigma depends on its neighbours, so a text is not lower-cased character by character.
  But neighbours are looked for only as far as the first character that is neither a letter with a case nor one
  to look through. The text before such a border and the text after it are lower-cased each for itself
  (`lowerAfter_border`), and the slash and the backslash are borders.

  Among ASCII characters there is no sigma, and each is lower-cased for itself (`lowerAfter_of_isAscii`). In
  general a character may become two, but none is lost (`length_le_length_lowerAfter`).
-/

import LayerLint.Text.Lowercase

namespace LayerLint.Text

/-- A character that lower-casing leaves as it is and does not look past. -/
structure Border (c : Char) : Prop where
  kept : lowerChar c = [c]
  uncased : cased.has c = false
  seen : caseIgnorable.has c = false

theorem border_slash : Border '/' := ⟨by decide, by decide +kernel, by decide +kernel⟩

theorem border_backslash : Border '\\' := ⟨by decide, by decide +kernel, by decide +kernel⟩

variable {c : Char}

theorem Border.ne_sigma (h : Border c) : c ≠ 'Σ' := by
  rintro rfl
  have hcased : cased.has 'Σ' = true := by decide +kernel
  rw [h.uncased] at hcased
  cases hcased

theorem casedNext_border (h : Border c) (s t : List Char) : casedNext (s ++ c :: t) = casedNext s := by
  induction s with
  | nil => simp [casedNext, h.uncased, h.seen]
  | cons a s ih =>
    rw [List.cons_append, casedNext, casedNext, ih]

/-- What stands before a border does not matter behind it. -/
theorem lowerAfter_past_border (h : Border c) (near far s : List Char) :
    lowerAfter (near ++ c :: far) s = lowerAfter near s := by
  induction s generalizing near with
  | nil => rfl
  | cons a s ih =>
    rw [lowerAfter, lowerAfter, casedNext_border h, ← List.cons_append, ih]

/-- The two sides of a border are lower-cased each for itself. -/
theorem lowerAfter_border (h : Border c) (before s t : List Char) :
    lowerAfter before (s ++ c :: t) = lowerAfter before s ++ c :: lowerAfter [] t := by
  induction s generalizing before with
  | nil =>
    have hsigma : (c == 'Σ') = false := beq_eq_false_iff_ne.mpr h.ne_sigma
    have hpast : lowerAfter (c :: before) t = lowerAfter [] t := lowerAfter_past_border h [] before t
    simp [lowerAfter, hsigma, h.kept, hpast]
  | cons a s ih =>
    rw [List.cons_append, lowerAfter, lowerAfter, casedNext_border h, ih, List.append_assoc]

/-! ## ASCII -/

theorem isAsciiUpper_iff : isAsciiUpper c = true ↔ 65 ≤ c.toNat ∧ c.toNat ≤ 90 := by
  simp only [isAsciiUpper, Bool.and_eq_true, decide_eq_true_eq, Char.le_def, UInt32.le_iff_toNat_le]
  exact Iff.rfl

theorem isAscii_of_isAsciiAlphanumeric (h : isAsciiAlphanumeric c = true) : isAscii c = true := by
  simp only [isAsciiAlphanumeric, isAsciiLetter, isAsciiUpper, isAsciiLower, isAsciiDigit, Bool.or_eq_true,
    Bool.and_eq_true, decide_eq_true_eq, Char.le_def, UInt32.le_iff_toNat_le] at h
  have hZ : 'Z'.val.toNat = 90 := rfl
  have hz : 'z'.val.toNat = 122 := rfl
  have h9 : '9'.val.toNat = 57 := rfl
  have hlt : c.val.toNat < 128 := by omega
  exact decide_eq_true hlt

theorem isAsciiAlphanumeric_lowerAscii (c : Char) : isAsciiAlphanumeric (lowerAscii c) = isAsciiAlphanumeric c := by
  unfold lowerAscii
  split
  · rename_i hupper
    obtain ⟨hlow, hhigh⟩ := isAsciiUpper_iff.mp hupper
    have hsmall : ∀ n < 26, isAsciiAlphanumeric (Char.ofNat (65 + n + 32)) = true := by decide
    have hn : c.toNat = 65 + (c.toNat - 65) := by omega
    rw [hn, hsmall _ (by omega)]
    simp [isAsciiAlphanumeric, isAsciiLetter, hupper]
  · rfl

theorem lowerAfter_of_isAscii {s : List Char} (h : ∀ c ∈ s, isAscii c = true) (before : List Char) :
    lowerAfter before s = s.map lowerAscii := by
  induction s generalizing before with
  | nil => rfl
  | cons c s ih =>
    have hc : isAscii c = true := h c List.mem_cons_self
    have hsigma : (c == 'Σ') = false := by
      refine beq_eq_false_iff_ne.mpr ?_
      rintro rfl
      cases hc
    have hrest := ih (fun a ha => h a (List.mem_cons_of_mem c ha)) (c :: before)
    simp [lowerAfter, hsigma, lowerChar, hc, hrest]

/-! ## Lengths -/

theorem one_le_length_lowerChar (c : Char) : 1 ≤ (lowerChar c).length := by
  unfold lowerChar
  split
  · simp
  · split
    · simp
    · split <;> simp

theorem length_le_length_lowerAfter (before s : List Char) : s.length ≤ (lowerAfter before s).length := by
  induction s generalizing before with
  | nil => exact Nat.le_refl 0
  | cons c s ih =>
    have hrest := ih (c :: before)
    have hchar := one_le_length_lowerChar c
    rw [lowerAfter, List.length_append, List.length_cons]
    split
    · rw [List.length_singleton]
      omega
    · omega

end LayerLint.Text
