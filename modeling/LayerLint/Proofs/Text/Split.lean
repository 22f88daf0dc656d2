/-
  LayerLint.Proofs.Text.Split: cutting a text at separators undoes joining.

  A separator divides what stands before it from what follows (`split_append`), and a text without one is
  a single piece (`split_eq_singleton`). So pieces without separators that are joined by one come back as
  they were (`split_intercalate`), a text that is cut can be joined again (`intercalate_split`), and no piece
  has a separator in it (`mem_of_mem_split`). The cuts that leave two parts are told by how the text is put
  together again (`cutLast?_eq_some`, `cutLast?_append`, `after?_eq_some_iff`), and there is one first and one last
  separator to cut at (`cut_inj`, `cutLast_inj`).
-/

import LayerLint.Text.Split

namespace LayerLint.Text

section

variable (p : Char → Prop) [DecidablePred p]

/-- What is asked of all characters of a text is asked of one after the other, not of all characters there are. -/
instance (priority := 2000) decidableForall (s : List Char) : Decidable (∀ c ∈ s, p c) := List.decidableBAll p s

instance (priority := 2000) decidableForallOption (o : Option Char) : Decidable (∀ c ∈ o, p c) :=
  Option.decidableForallMem o

end

/-- A text without a character, as cuts at that character ask for it. -/
theorem not_mem_iff_beq {c : Char} {s : List Char} : c ∉ s ↔ ∀ a ∈ s, (a == c) = false := by
  constructor
  · intro h a ha
    exact beq_eq_false_iff_ne.mpr fun e => h (e ▸ ha)
  · intro h hm
    have hc := h c hm
    rw [beq_self_eq_true] at hc
    cases hc

variable {sep : CharSet}

theorem split_cons_of_sep {c : Char} (h : sep c = true) (s : List Char) : split sep (c :: s) = [] :: split sep s := by
  simp [split, h]

/-- There is a first piece, even of an empty text. -/
theorem exists_split_eq (sep : CharSet) (s : List Char) : ∃ p ps, split sep s = p :: ps := by
  cases s with
  | nil => exact ⟨[], [], rfl⟩
  | cons c s =>
    simp only [split, List.foldr_cons]
    split
    · exact ⟨_, _, rfl⟩
    · split
      · exact ⟨_, _, rfl⟩
      · exact ⟨_, _, rfl⟩

/-- A character that is no separator goes to the front of the first piece. -/
theorem split_cons {c : Char} (h : sep c = false) {s p : List Char} {ps : List (List Char)} (hs : split sep s = p :: ps) :
    split sep (c :: s) = (c :: p) :: ps := by
  rw [split] at hs
  rw [split, List.foldr_cons, hs]
  simp [h]

theorem split_append {c : Char} (h : sep c = true) (s t : List Char) :
    split sep (s ++ c :: t) = split sep s ++ split sep t := by
  induction s with
  | nil => exact split_cons_of_sep h t
  | cons a s ih =>
    cases ha : sep a with
    | true => rw [List.cons_append, split_cons_of_sep ha, split_cons_of_sep ha, ih, List.cons_append]
    | false =>
      obtain ⟨p, ps, hs⟩ := exists_split_eq sep s
      rw [hs, List.cons_append] at ih
      rw [List.cons_append, split_cons ha ih, split_cons ha hs, List.cons_append]

theorem split_eq_singleton {s : List Char} (h : ∀ c ∈ s, sep c = false) : split sep s = [s] := by
  induction s with
  | nil => rfl
  | cons c s ih => exact split_cons (h c (by simp)) (ih fun a ha => h a (by simp [ha]))

theorem eq_of_split_eq_singleton {s p : List Char} (h : split sep s = [p]) : s = p := by
  induction s generalizing p with
  | nil => simpa [split] using h
  | cons c s ih =>
    obtain ⟨q, qs, hs⟩ := exists_split_eq sep s
    cases hc : sep c with
    | true =>
      rw [split_cons_of_sep hc, hs] at h
      cases h
    | false =>
      rw [split_cons hc hs] at h
      obtain ⟨rfl, rfl⟩ := List.cons.inj h
      rw [ih hs]

/-- Behind the first of several pieces stands a separator, and the other pieces are those of what follows. -/
theorem exists_of_split_eq_cons_cons {s p q : List Char} {ps : List (List Char)} (h : split sep s = p :: q :: ps) :
    ∃ c, sep c = true ∧ ∃ t, s = p ++ c :: t ∧ split sep t = q :: ps := by
  induction s generalizing p with
  | nil => cases h
  | cons a s ih =>
    cases ha : sep a with
    | true =>
      rw [split_cons_of_sep ha] at h
      obtain ⟨rfl, hs⟩ := List.cons.inj h
      exact ⟨a, ha, s, rfl, hs⟩
    | false =>
      obtain ⟨r, rs, hs⟩ := exists_split_eq sep s
      rw [split_cons ha hs] at h
      obtain ⟨rfl, rfl⟩ := List.cons.inj h
      obtain ⟨c, hc, t, rfl, ht⟩ := ih hs
      exact ⟨c, hc, t, rfl, ht⟩

/-- A text without separators at the end goes to the last piece. -/
theorem split_append_plain (s : List Char) {t : List Char} (h : ∀ a ∈ t, sep a = false) :
    ∃ front last, split sep s = front ++ [last] ∧ split sep (s ++ t) = front ++ [last ++ t] := by
  induction s with
  | nil => exact ⟨[], [], rfl, split_eq_singleton h⟩
  | cons c s ih =>
    obtain ⟨front, last, hs, ht⟩ := ih
    cases hc : sep c with
    | true =>
      refine ⟨[] :: front, last, ?_, ?_⟩
      · rw [split_cons_of_sep hc, hs, List.cons_append]
      · rw [List.cons_append, split_cons_of_sep hc, ht, List.cons_append]
    | false =>
      cases front with
      | nil => exact ⟨[], c :: last, split_cons hc hs, split_cons hc ht⟩
      | cons p front => exact ⟨(c :: p) :: front, last, split_cons hc hs, split_cons hc ht⟩

theorem split_intercalate {c : Char} (hc : sep c = true) {pieces : List (List Char)} (hne : pieces ≠ [])
    (h : ∀ p ∈ pieces, ∀ a ∈ p, sep a = false) : split sep ([c].intercalate pieces) = pieces := by
  induction pieces with
  | nil => exact absurd rfl hne
  | cons p ps ih =>
    have hp := split_eq_singleton (h p (by simp))
    cases ps with
    | nil => rw [List.intercalate_singleton, hp]
    | cons q qs =>
      have hrest := ih (by simp) fun x hx => h x (by simp [hx])
      rw [List.intercalate_cons_cons, List.append_assoc, List.singleton_append, split_append hc, hp, hrest,
        List.singleton_append]

theorem length_split_le (sep : CharSet) (s : List Char) : (split sep s).length ≤ s.length + 1 := by
  induction s with
  | nil => exact Nat.le_refl 1
  | cons c s ih =>
    obtain ⟨p, ps, hs⟩ := exists_split_eq sep s
    cases hc : sep c with
    | true =>
      rw [split_cons_of_sep hc, List.length_cons, List.length_cons]
      omega
    | false =>
      rw [hs, List.length_cons] at ih
      rw [split_cons hc hs, List.length_cons, List.length_cons]
      omega

/-- Joining by a character undoes a cut at that character only. -/
theorem intercalate_split {c : Char} (hc : ∀ a, sep a = true → a = c) (s : List Char) :
    [c].intercalate (split sep s) = s := by
  induction s with
  | nil => rfl
  | cons a s ih =>
    obtain ⟨p, ps, hs⟩ := exists_split_eq sep s
    rw [hs] at ih
    cases ha : sep a with
    | true =>
      rw [split_cons_of_sep ha, hs, List.intercalate_cons_cons, ih, hc a ha]
      rfl
    | false =>
      rw [split_cons ha hs]
      cases ps with
      | nil =>
        rw [List.intercalate_singleton] at ih ⊢
        rw [ih]
      | cons q qs =>
        rw [List.intercalate_cons_cons] at ih ⊢
        rw [List.cons_append, List.cons_append, ih]

theorem intercalate_snoc (c : Char) {pieces : List (List Char)} (hne : pieces ≠ []) (p : List Char) :
    [c].intercalate (pieces ++ [p]) = [c].intercalate pieces ++ c :: p := by
  induction pieces with
  | nil => exact absurd rfl hne
  | cons q qs ih =>
    by_cases hqs : qs = []
    · subst hqs
      simp
    · rw [List.cons_append, List.intercalate_cons_of_ne_nil (by simp), List.intercalate_cons_of_ne_nil hqs, ih hqs]
      simp

theorem mem_intercalate {a c : Char} {pieces : List (List Char)} (h : a ∈ [c].intercalate pieces) :
    a = c ∨ ∃ p ∈ pieces, a ∈ p := by
  induction pieces with
  | nil => cases h
  | cons p ps ih =>
    cases ps with
    | nil =>
      rw [List.intercalate_singleton] at h
      exact .inr ⟨p, List.mem_cons_self, h⟩
    | cons q qs =>
      rw [List.intercalate_cons_cons, List.append_assoc] at h
      rcases List.mem_append.mp h with h | h
      · exact .inr ⟨p, List.mem_cons_self, h⟩
      · rcases List.mem_cons.mp h with h | h
        · exact .inl h
        · obtain h | ⟨r, hr, ha⟩ := ih h
          · exact .inl h
          · exact .inr ⟨r, List.mem_cons_of_mem p hr, ha⟩

/-- The pieces hold characters of the text, and no separators. -/
theorem mem_of_mem_split {s p : List Char} (hp : p ∈ split sep s) {a : Char} (ha : a ∈ p) : a ∈ s ∧ sep a = false := by
  induction s generalizing p with
  | nil =>
    obtain rfl : p = [] := by simpa [split] using hp
    cases ha
  | cons c s ih =>
    cases hc : sep c with
    | true =>
      rw [split_cons_of_sep hc] at hp
      rcases List.mem_cons.mp hp with rfl | hp
      · cases ha
      · exact ⟨List.mem_cons_of_mem c (ih hp ha).1, (ih hp ha).2⟩
    | false =>
      obtain ⟨q, qs, hs⟩ := exists_split_eq sep s
      rw [split_cons hc hs] at hp
      rcases List.mem_cons.mp hp with rfl | hp
      · rcases List.mem_cons.mp ha with rfl | ha
        · exact ⟨List.mem_cons_self, hc⟩
        · have := ih (hs ▸ List.mem_cons_self) ha
          exact ⟨List.mem_cons_of_mem c this.1, this.2⟩
      · have := ih (hs ▸ List.mem_cons_of_mem q hp) ha
        exact ⟨List.mem_cons_of_mem c this.1, this.2⟩

/-! ## Two parts -/

theorem cutLast?_eq_some {s front tail : List Char} (h : cutLast? sep s = some (front, tail)) :
    (∃ c, sep c = true ∧ s = front ++ c :: tail) ∧ ∀ a ∈ tail, sep a = false := by
  have hwhole := List.takeWhile_append_dropWhile (p := (!sep ·)) (l := s.reverse)
  have hdrop : s.reverse.drop (s.reverse.takeWhile (!sep ·)).length = s.reverse.dropWhile (!sep ·) := by
    have hleft := @List.drop_left _ (s.reverse.takeWhile (!sep ·)) (s.reverse.dropWhile (!sep ·))
    rwa [hwhole] at hleft
  unfold cutLast? at h
  simp only [hdrop] at h
  split at h
  · cases h
  · rename_i c back hback
    obtain ⟨rfl, rfl⟩ := Prod.mk.inj (Option.some.inj h)
    refine ⟨⟨c, ?_, ?_⟩, ?_⟩
    · have hhead := List.head_dropWhile_not (!sep ·) (l := s.reverse) (by simp [hback])
      simpa [hback] using hhead
    · rw [hback] at hwhole
      simpa using (congrArg List.reverse hwhole).symm
    · intro a ha
      simpa using List.all_eq_true.mp List.all_takeWhile a (List.mem_reverse.mp ha)

theorem cutLast?_append {c : Char} (hc : sep c = true) {front tail : List Char} (h : ∀ a ∈ tail, sep a = false) :
    cutLast? sep (front ++ c :: tail) = some (front, tail) := by
  have hback : (front ++ c :: tail).reverse = tail.reverse ++ c :: front.reverse := by simp
  have htail : (tail.reverse ++ c :: front.reverse).takeWhile (!sep ·) = tail.reverse := by
    rw [List.takeWhile_append_of_pos]
    · simp [hc]
    · intro a ha
      simp [h a (List.mem_reverse.mp ha)]
  simp only [cutLast?, hback, htail, List.drop_left, List.reverse_reverse]

theorem cutLast?_eq_none {s : List Char} (h : ∀ a ∈ s, sep a = false) : cutLast? sep s = none := by
  cases hcut : cutLast? sep s with
  | none => rfl
  | some parts =>
    obtain ⟨⟨c, hc, rfl⟩, -⟩ := cutLast?_eq_some hcut
    rw [h c (by simp)] at hc
    cases hc

/-- A character of a text has a last occurrence in it. -/
theorem exists_last_of_mem {c : Char} {s : List Char} (h : c ∈ s) : ∃ front tail, s = front ++ c :: tail ∧ c ∉ tail := by
  obtain ⟨tail, front, hs, htail⟩ := List.eq_append_cons_of_mem (List.mem_reverse.mpr h)
  refine ⟨front.reverse, tail.reverse, ?_, by simpa using htail⟩
  simpa using congrArg List.reverse hs

/-- A text is cut in one way at its last separator. -/
theorem cutLast_inj {v w x y : List Char} {c d : Char} (hx : ∀ a ∈ x, sep a = false) (hy : ∀ a ∈ y, sep a = false)
    (hc : sep c = true) (hd : sep d = true) (h : v ++ c :: x = w ++ d :: y) : v = w ∧ c = d ∧ x = y := by
  have hcut : cutLast? sep (v ++ c :: x) = some (v, x) := cutLast?_append hc hx
  rw [h, cutLast?_append hd hy] at hcut
  obtain ⟨rfl, rfl⟩ := Prod.mk.inj (Option.some.inj hcut)
  obtain ⟨rfl, -⟩ := List.cons.inj (List.append_cancel_left h)
  exact ⟨rfl, rfl, rfl⟩

/-- A text is cut in one way at its first separator. -/
theorem cut_inj {v w x y : List Char} {c d : Char} (hv : ∀ a ∈ v, sep a = false) (hw : ∀ a ∈ w, sep a = false)
    (hc : sep c = true) (hd : sep d = true) (h : v ++ c :: x = w ++ d :: y) : v = w ∧ c = d ∧ x = y := by
  have hback : x.reverse ++ c :: v.reverse = y.reverse ++ d :: w.reverse := by
    simpa using congrArg List.reverse h
  obtain ⟨hx, hcd, hv⟩ := cutLast_inj (by simpa using hv) (by simpa using hw) hc hd hback
  exact ⟨List.reverse_inj.mp hv, hcd, List.reverse_inj.mp hx⟩

/-- Where a text is put together of two parts, one of its characters stands in the second or in the first. -/
theorem append_cons_cases {u v x y : List Char} {c : Char} (h : u ++ c :: v = x ++ y) :
    (∃ m, u = x ++ m ∧ y = m ++ c :: v) ∨ ∃ m, x = u ++ c :: m ∧ v = m ++ y := by
  rcases List.append_eq_append_iff.mp h with ⟨m, hx, hrest⟩ | ⟨m, hu, hrest⟩
  · cases m with
    | nil => exact .inl ⟨[], by rw [hx]; simp, hrest.symm⟩
    | cons d m =>
      obtain ⟨rfl, hv⟩ := List.cons.inj hrest
      exact .inr ⟨m, hx, hv⟩
  · exact .inl ⟨m, hu, hrest⟩

theorem after?_eq_some_iff {lead s rest : List Char} : after? lead s = some rest ↔ s = lead ++ rest := by
  induction lead generalizing s with
  | nil => simp [after?]
  | cons a lead ih =>
    cases s with
    | nil => simp [after?]
    | cons c s =>
      unfold after?
      by_cases e : a = c
      · simp [e, ih]
      · simp [e, Ne.symm e]

end LayerLint.Text
