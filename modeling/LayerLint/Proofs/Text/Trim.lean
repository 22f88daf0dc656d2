/-
  LayerLint.Proofs.Text.Trim: trimming, dropping a lead, and cutting at the first occurrence of a text.

  White space at an end of a text is trimmed away with the rest of it (`trim_cons_of_blank`, `trim_append_of_blank`). A
  text without it at both ends is kept (`trim_eq_self`).
-/

import LayerLint.Proofs.Text.Split

namespace LayerLint.Text

variable {s t lead rest : List Char} {c : Char}

/-! ## Trimming -/

theorem trim_cons_of_blank (hc : isBlank c = true) (s : List Char) : trim (c :: s) = trim s := by
  unfold trim trimBoth
  rw [List.dropWhile_cons_of_pos hc]

theorem trim_append_of_blank (hc : isBlank c = true) (s : List Char) : trim (s ++ [c]) = trim s := by
  induction s with
  | nil => exact trim_cons_of_blank hc []
  | cons a s ih =>
    by_cases ha : isBlank a = true
    · rw [List.cons_append, trim_cons_of_blank ha, trim_cons_of_blank ha, ih]
    · unfold trim trimBoth
      rw [List.cons_append, List.dropWhile_cons_of_neg ha, List.dropWhile_cons_of_neg ha, ← List.cons_append,
        List.reverse_append, List.reverse_singleton, List.singleton_append, List.dropWhile_cons_of_pos hc]

theorem trim_eq_self (hfirst : ∀ c ∈ s.head?, isBlank c = false) (hlast : ∀ c ∈ s.getLast?, isBlank c = false) :
    trim s = s := by
  have hkeep : ∀ {l : List Char}, (∀ c ∈ l.head?, isBlank c = false) → l.dropWhile isBlank = l := by
    intro l hl
    cases l with
    | nil => rfl
    | cons c l => exact List.dropWhile_cons_of_neg (by simp [hl c rfl])
  unfold trim trimBoth
  rw [hkeep hfirst, hkeep (by rw [List.head?_reverse]; exact hlast), List.reverse_reverse]

theorem mem_of_mem_trim (h : c ∈ trim s) : c ∈ s := by
  unfold trim trimBoth at h
  have hdrop := (List.dropWhile_sublist _).subset (List.mem_reverse.mp h)
  exact (List.dropWhile_sublist _).subset (List.mem_reverse.mp hdrop)

/-! ## Leads -/

theorem dropTimes_suffix (lead : List Char) (n : Nat) (s : List Char) : dropTimes lead n s <:+ s := by
  induction n generalizing s with
  | zero => exact List.suffix_refl s
  | succ n ih =>
    rw [dropTimes]
    cases hs : after? lead s with
    | none => exact List.suffix_refl s
    | some rest =>
      rw [after?_eq_some_iff] at hs
      exact (ih rest).trans ⟨lead, hs.symm⟩

theorem dropAll_of_none (h : after? lead s = none) : dropAll lead s = s := by
  unfold dropAll
  cases s.length with
  | zero => rfl
  | succ n => rw [dropTimes, h]

theorem dropAll_once (h : after? lead s = some t) (ht : after? lead t = none) : dropAll lead s = t := by
  unfold dropAll
  cases hs : s.length with
  | zero =>
    obtain rfl := List.length_eq_zero_iff.mp hs
    rw [after?_eq_some_iff] at h
    exact (List.append_eq_nil_iff.mp h.symm).2.symm
  | succ n =>
    rw [dropTimes, h]
    cases n with
    | zero => rfl
    | succ n => exact show dropTimes lead (n + 1) t = t by rw [dropTimes, ht]

/-- No lead is left after as many times as the text is long. -/
theorem dropTimes_eq_dropAll (hne : lead ≠ []) {n : Nat} (h : s.length ≤ n) : dropTimes lead n s = dropAll lead s := by
  have henough : ∀ {m n : Nat} {s : List Char}, s.length ≤ m → s.length ≤ n → dropTimes lead m s = dropTimes lead n s := by
    intro m
    induction m with
    | zero =>
      intro n s hm _
      obtain rfl := List.length_eq_zero_iff.mp (Nat.le_zero.mp hm)
      have hnone : after? lead [] = none := by
        obtain ⟨a, rest, rfl⟩ := List.exists_cons_of_ne_nil hne
        rfl
      cases n with
      | zero => rfl
      | succ n => rw [dropTimes, dropTimes, hnone]
    | succ m ih =>
      intro n s hm hn
      cases hs : after? lead s with
      | none =>
        cases n with
        | zero => rw [dropTimes, dropTimes, hs]
        | succ n => rw [dropTimes, dropTimes, hs]
      | some rest =>
        have hlength := congrArg List.length (after?_eq_some_iff.mp hs)
        have hpos := List.length_pos_iff.mpr hne
        rw [List.length_append] at hlength
        cases n with
        | zero => omega
        | succ n =>
          rw [dropTimes, dropTimes, hs]
          exact ih (by omega) (by omega)
  exact henough h (Nat.le_refl _)

/-! ## First occurrences -/

theorem after?_cons_of_ne {a : Char} (h : a ≠ c) (lead s : List Char) : after? (a :: lead) (c :: s) = none := by
  rw [after?, if_neg (by simpa using h)]

theorem suffix_of_cut? {p : List Char × List Char} (h : cut? lead s = some p) : p.2 <:+ s := by
  induction s generalizing p with
  | nil =>
    rw [cut?] at h
    split at h
    · cases h
      exact List.suffix_refl _
    · cases h
  | cons a s ih =>
    rw [cut?] at h
    cases hhere : after? lead (a :: s) with
    | some rest =>
      rw [hhere] at h
      cases h
      exact ⟨lead, (after?_eq_some_iff.mp hhere).symm⟩
    | none =>
      rw [hhere] at h
      obtain ⟨q, hq, rfl⟩ := Option.map_eq_some_iff.mp h
      exact (ih hq).trans (List.suffix_cons a s)

theorem cut?_eq_none (h : c ∉ s) (lead : List Char) : cut? (c :: lead) s = none := by
  induction s with
  | nil => rfl
  | cons a s ih =>
    rw [List.mem_cons, not_or] at h
    rw [cut?, after?_cons_of_ne h.1, ih h.2]
    rfl

theorem cut?_append (h : c ∉ s) (lead rest : List Char) :
    cut? (c :: lead) (s ++ (c :: lead ++ rest)) = some (s, rest) := by
  induction s with
  | nil =>
    have hhere : after? (c :: lead) (c :: (lead ++ rest)) = some rest := after?_eq_some_iff.mpr rfl
    rw [List.nil_append, List.cons_append, cut?, hhere]
  | cons a s ih =>
    rw [List.mem_cons, not_or] at h
    rw [List.cons_append, cut?, after?_cons_of_ne h.1, ih h.2]
    rfl

end LayerLint.Text
