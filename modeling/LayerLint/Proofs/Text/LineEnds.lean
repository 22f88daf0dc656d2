/-
  LayerLint.Proofs.Text.LineEnds: texts whose lines end in a carriage return and a line feed.

  `withReturns` writes a text that way. It has as many line feeds (`newlines_withReturns`), and the same lines if
  the text had no carriage returns before (`lines_withReturns`). Places in it are further from the start, but in
  the same order (`byteSize_withReturns_le_iff`).
-/

import LayerLint.Proofs.Text.Trim

namespace LayerLint.Text

def returned (c : Char) : List Char := if c = '\n' then ['\r', '\n'] else [c]

def withReturns (s : List Char) : List Char := s.flatMap returned

theorem returned_of_ne {c : Char} (h : c ≠ '\n') : returned c = [c] := if_neg h

theorem withReturns_append (s t : List Char) : withReturns (s ++ t) = withReturns s ++ withReturns t :=
  List.flatMap_append

theorem withReturns_cons (c : Char) (s : List Char) : withReturns (c :: s) = returned c ++ withReturns s := rfl

theorem withReturns_cons_feed (s : List Char) : withReturns ('\n' :: s) = '\r' :: '\n' :: withReturns s := rfl

theorem withReturns_cons_of_ne {c : Char} (h : c ≠ '\n') (s : List Char) :
    withReturns (c :: s) = c :: withReturns s := by
  rw [withReturns_cons, returned_of_ne h]
  rfl

theorem withReturns_eq_self {s : List Char} (h : '\n' ∉ s) : withReturns s = s := by
  induction s with
  | nil => rfl
  | cons c s ih =>
    have hc : c ≠ '\n' := fun e => h (e ▸ List.mem_cons_self)
    rw [withReturns_cons_of_ne hc, ih fun hm => h (List.mem_cons_of_mem _ hm)]

theorem return_mem_withReturns {s : List Char} (h : '\n' ∈ s) : '\r' ∈ withReturns s :=
  List.mem_flatMap.mpr ⟨'\n', h, by decide⟩

/-- What stands before a line feed is a carriage return. -/
theorem eq_concat_of_withReturns {s a b : List Char} (h : withReturns s = a ++ '\n' :: b) : ∃ front, a = front ++ ['\r'] := by
  induction s generalizing a with
  | nil =>
    have hmem : '\n' ∈ withReturns [] := by simp [h]
    cases hmem
  | cons c s ih =>
    by_cases hc : c = '\n'
    · subst hc
      rw [withReturns_cons_feed] at h
      cases a with
      | nil => simp at h
      | cons d a =>
        obtain ⟨rfl, hrest⟩ := List.cons.inj h
        cases a with
        | nil => exact ⟨[], rfl⟩
        | cons d a =>
          obtain ⟨front, hfront⟩ := ih (List.cons.inj hrest).2
          exact ⟨'\r' :: d :: front, by rw [hfront]; rfl⟩
    · rw [withReturns_cons_of_ne hc] at h
      cases a with
      | nil => exact absurd (List.cons.inj h).1 hc
      | cons d a =>
        obtain ⟨front, hfront⟩ := ih (List.cons.inj h).2
        exact ⟨d :: front, by rw [hfront]; rfl⟩

theorem newlines_withReturns (s : List Char) : newlines (withReturns s) = newlines s := by
  unfold newlines
  induction s with
  | nil => rfl
  | cons c s ih =>
    rw [withReturns_cons, List.count_append, ih, List.count_cons]
    by_cases hc : c = '\n'
    · subst hc
      show 1 + _ = _ + 1
      omega
    · rw [returned_of_ne hc, List.count_singleton]
      simp [hc]

def backWithReturns (s : List Char) : List Char := (withReturns s.reverse).reverse

theorem backWithReturns_append (s t : List Char) :
    backWithReturns (s ++ t) = backWithReturns s ++ backWithReturns t := by
  unfold backWithReturns
  rw [List.reverse_append, withReturns_append, List.reverse_append]

theorem backWithReturns_cons_feed (s : List Char) : backWithReturns ('\n' :: s) = '\n' :: '\r' :: backWithReturns s :=
  backWithReturns_append ['\n'] s

theorem backWithReturns_cons_of_ne {c : Char} (h : c ≠ '\n') (s : List Char) :
    backWithReturns (c :: s) = c :: backWithReturns s := by
  have hone : backWithReturns [c] = [c] := by
    show (returned c ++ []).reverse = [c]
    rw [returned_of_ne h]
    rfl
  rw [← List.singleton_append, backWithReturns_append, hone]
  rfl

/-! ## Lines -/

theorem split_withReturns (s : List Char) :
    split (· == '\n') (withReturns s) =
      (split (· == '\n') s).dropLast.map (· ++ ['\r']) ++ (split (· == '\n') s).getLast?.toList := by
  induction s with
  | nil => rfl
  | cons c s ih =>
    obtain ⟨p, ps, hs⟩ := exists_split_eq (· == '\n') s
    rw [hs] at ih
    by_cases hc : c = '\n'
    · subst hc
      have hreturn : split (· == '\n') ('\r' :: '\n' :: withReturns s) =
          ['\r'] :: split (· == '\n') (withReturns s) :=
        split_cons rfl (split_cons_of_sep rfl _)
      rw [split_cons_of_sep rfl, hs]
      exact hreturn.trans (congrArg _ ih)
    · rw [withReturns_cons_of_ne hc, split_cons (by simpa using hc) hs]
      cases ps with
      | nil => exact split_cons (by simpa using hc) ih
      | cons q qs => exact split_cons (by simpa using hc) ih

theorem dropReturn_of_not_mem {line : List Char} (h : '\r' ∉ line) : dropReturn line = line := by
  unfold dropReturn
  rw [if_neg]
  intro hlast
  exact h (List.mem_of_getLast? (by simpa using hlast))

theorem dropReturn_snoc (line : List Char) : dropReturn (line ++ ['\r']) = line := by
  simp [dropReturn]

/-- The carriage returns are no part of the lines. -/
theorem lines_withReturns {s : List Char} (h : '\r' ∉ s) : lines (withReturns s) = lines s := by
  have hpieces : ∀ p ∈ split (· == '\n') s, '\r' ∉ p := fun p hp hr => h (mem_of_mem_split hp hr).1
  obtain ⟨p, ps, hs⟩ := exists_split_eq (· == '\n') s
  have hne : split (· == '\n') s ≠ [] := by rw [hs]; exact List.cons_ne_nil _ _
  obtain ⟨front, last, hsplit⟩ : ∃ front last, split (· == '\n') s = front ++ [last] :=
    ⟨_, _, (List.dropLast_concat_getLast hne).symm⟩
  have hplain : front.map dropReturn = front := by
    refine (List.map_congr_left fun q hq => ?_).trans (List.map_id _)
    exact dropReturn_of_not_mem (hpieces q (by rw [hsplit]; exact List.mem_append_left _ hq))
  have hreturns : (front.map (· ++ ['\r'])).map dropReturn = front := by
    rw [List.map_map]
    exact (List.map_congr_left fun q _ => dropReturn_snoc q).trans (List.map_id _)
  unfold lines
  rw [split_withReturns, hsplit]
  simp only [List.dropLast_concat, List.getLast?_concat, Option.toList_some, hplain, hreturns]

/-! ## Parts -/

/-- Cutting at other characters cuts both texts in the same places. -/
theorem split_withReturns_of_not_sep {sep : CharSet} (hn : sep '\n' = false) (hr : sep '\r' = false) (s : List Char) :
    split sep (withReturns s) = (split sep s).map withReturns := by
  induction s with
  | nil => rfl
  | cons c s ih =>
    obtain ⟨p, ps, hs⟩ := exists_split_eq sep s
    rw [hs, List.map_cons] at ih
    by_cases hc : c = '\n'
    · subst hc
      rw [withReturns_cons_feed, split_cons hn hs]
      exact split_cons hr (split_cons hn ih)
    · rw [withReturns_cons_of_ne hc]
      cases hsep : sep c with
      | true =>
        rw [split_cons_of_sep hsep, split_cons_of_sep hsep, ih, hs]
        rfl
      | false => rw [split_cons hsep hs, split_cons hsep ih, List.map_cons, withReturns_cons_of_ne hc]

/-- If line feeds are written as blanks and nothing else changes, the blanks at the start can be dropped before or
    after. -/
theorem dropWhile_flatMap {f : Char → List Char} (hfeed : ∀ d ∈ f '\n', isBlank d = true)
    (hother : ∀ c, c ≠ '\n' → f c = [c]) (s : List Char) :
    (s.flatMap f).dropWhile isBlank = (s.dropWhile isBlank).flatMap f := by
  induction s with
  | nil => rfl
  | cons c s ih =>
    rw [List.flatMap_cons]
    by_cases hc : c = '\n'
    · subst hc
      rw [List.dropWhile_append_of_pos hfeed, List.dropWhile_cons_of_pos (by decide), ih]
    · rw [hother c hc, List.singleton_append]
      by_cases hblank : isBlank c = true
      · rw [List.dropWhile_cons_of_pos hblank, List.dropWhile_cons_of_pos hblank, ih]
      · rw [List.dropWhile_cons_of_neg hblank, List.dropWhile_cons_of_neg hblank, List.flatMap_cons, hother c hc,
          List.singleton_append]

theorem dropWhile_withReturns (s : List Char) : (withReturns s).dropWhile isBlank = withReturns (s.dropWhile isBlank) :=
  dropWhile_flatMap (by decide) (fun _ hc => returned_of_ne hc) s

theorem dropWhile_backWithReturns (s : List Char) :
    (backWithReturns s).dropWhile isBlank = backWithReturns (s.dropWhile isBlank) := by
  have hback : ∀ t, backWithReturns t = t.flatMap fun c => (returned c).reverse := by
    intro t
    rw [backWithReturns, withReturns, List.reverse_flatMap, List.reverse_reverse]
    rfl
  rw [hback, hback]
  refine dropWhile_flatMap (by decide) (fun c hc => ?_) s
  rw [returned_of_ne hc]
  rfl

theorem trim_withReturns (s : List Char) : trim (withReturns s) = withReturns (trim s) := by
  have hback : ∀ t : List Char, (withReturns t).reverse = backWithReturns t.reverse := by
    intro t
    rw [backWithReturns, List.reverse_reverse]
  unfold trim trimBoth
  rw [dropWhile_withReturns, hback, dropWhile_backWithReturns, backWithReturns, List.reverse_reverse]

section

variable {lead : List Char}

theorem after?_withReturns (h : '\n' ∉ lead ∧ '\r' ∉ lead) (s : List Char) :
    after? lead (withReturns s) = (after? lead s).map withReturns := by
  induction lead generalizing s with
  | nil => rfl
  | cons a lead ih =>
    obtain ⟨⟨hn, hnrest⟩, hr, hrrest⟩ : ('\n' ≠ a ∧ '\n' ∉ lead) ∧ '\r' ≠ a ∧ '\r' ∉ lead := by simpa using h
    cases s with
    | nil => rfl
    | cons c s =>
      by_cases hc : c = '\n'
      · subst hc
        rw [withReturns_cons_feed, after?_cons_of_ne (Ne.symm hr), after?_cons_of_ne (Ne.symm hn)]
        rfl
      · rw [withReturns_cons_of_ne hc, after?, after?, ih ⟨hnrest, hrrest⟩]
        split
        · rfl
        · rfl

theorem dropTimes_withReturns (h : '\n' ∉ lead ∧ '\r' ∉ lead) (n : Nat) (s : List Char) :
    dropTimes lead n (withReturns s) = withReturns (dropTimes lead n s) := by
  induction n generalizing s with
  | zero => rfl
  | succ n ih =>
    rw [dropTimes, dropTimes, after?_withReturns h]
    cases after? lead s with
    | none => rfl
    | some rest => exact ih rest

theorem length_le_withReturns (s : List Char) : s.length ≤ (withReturns s).length := by
  induction s with
  | nil => exact Nat.le_refl 0
  | cons c s ih =>
    have hc : 1 ≤ (returned c).length := by
      unfold returned
      split <;> simp
    rw [withReturns_cons, List.length_append, List.length_cons]
    omega

theorem dropAll_withReturns (hne : lead ≠ []) (h : '\n' ∉ lead ∧ '\r' ∉ lead) (s : List Char) :
    dropAll lead (withReturns s) = withReturns (dropAll lead s) := by
  rw [dropAll, dropTimes_withReturns h, dropTimes_eq_dropAll hne (length_le_withReturns s)]

theorem cut?_withReturns (hne : lead ≠ []) (h : '\n' ∉ lead ∧ '\r' ∉ lead) (s : List Char) :
    cut? lead (withReturns s) = (cut? lead s).map fun p => (withReturns p.1, withReturns p.2) := by
  obtain ⟨a, rest, rfl⟩ := List.exists_cons_of_ne_nil hne
  have ha : a ≠ '\n' ∧ a ≠ '\r' := by
    constructor
    · rintro rfl
      exact h.1 List.mem_cons_self
    · rintro rfl
      exact h.2 List.mem_cons_self
  induction s with
  | nil => rfl
  | cons c s ih =>
    by_cases hc : c = '\n'
    · subst hc
      rw [withReturns_cons_feed, cut?, after?_cons_of_ne ha.2, cut?, after?_cons_of_ne ha.1, cut?, after?_cons_of_ne ha.1, ih,
        Option.map_map, Option.map_map, Option.map_map]
      rfl
    · have hhere := after?_withReturns h (c :: s)
      rw [withReturns_cons_of_ne hc] at hhere ⊢
      rw [cut?, cut?, hhere, ih]
      cases after? (a :: rest) (c :: s) with
      | some rest => rfl
      | none =>
        rw [Option.map_none, Option.map_map, Option.map_map]
        refine Option.map_congr fun p _ => ?_
        exact Prod.ext (withReturns_cons_of_ne hc p.1).symm rfl

end

/-! ## Places -/

theorem foldl_utf8Size (s : List Char) (n : Nat) :
    s.foldl (fun n c => n + c.utf8Size) n = n + byteSize s := by
  unfold byteSize
  induction s generalizing n with
  | nil => rfl
  | cons c s ih =>
    rw [List.foldl_cons, List.foldl_cons, ih, ih (0 + c.utf8Size)]
    omega

theorem byteSize_append (s t : List Char) : byteSize (s ++ t) = byteSize s + byteSize t := by
  rw [byteSize, List.foldl_append, foldl_utf8Size]
  rfl

theorem byteSize_cons (c : Char) (s : List Char) : byteSize (c :: s) = c.utf8Size + byteSize s := by
  rw [byteSize, List.foldl_cons, foldl_utf8Size]
  omega

theorem byteSize_reverse (s : List Char) : byteSize s.reverse = byteSize s := by
  induction s with
  | nil => rfl
  | cons c s ih =>
    have hc : byteSize [c] = c.utf8Size := byteSize_cons c []
    rw [List.reverse_cons, byteSize_append, ih, hc, byteSize_cons]
    omega

theorem byteSize_pos {s : List Char} (h : s ≠ []) : 0 < byteSize s := by
  cases s with
  | nil => exact absurd rfl h
  | cons c s =>
    have hc := c.utf8Size_pos
    rw [byteSize_cons]
    omega

theorem length_le_byteSize (s : List Char) : s.length ≤ byteSize s := by
  induction s with
  | nil => exact Nat.le_refl 0
  | cons c s ih =>
    have hc := c.utf8Size_pos
    rw [byteSize_cons, List.length_cons]
    omega

theorem withReturns_ne_nil {s : List Char} (h : s ≠ []) : withReturns s ≠ [] := by
  cases s with
  | nil => exact absurd rfl h
  | cons c s =>
    by_cases hc : c = '\n'
    · subst hc
      exact List.cons_ne_nil _ _
    · rw [withReturns_cons_of_ne hc]
      exact List.cons_ne_nil _ _

theorem byteSize_withReturns_le_iff {s t text : List Char} (hs : s <+: text) (ht : t <+: text) :
    byteSize (withReturns s) ≤ byteSize (withReturns t) ↔ byteSize s ≤ byteSize t := by
  -- of two beginnings of one text one is the beginning of the other
  rcases List.prefix_or_prefix_of_prefix hs ht with ⟨w, rfl⟩ | ⟨w, rfl⟩
  · rw [withReturns_append, byteSize_append, byteSize_append]
    omega
  · rw [withReturns_append, byteSize_append, byteSize_append]
    by_cases hw : w = []
    · subst hw
      show _ + 0 ≤ _ ↔ _ + 0 ≤ _
      omega
    · have h := byteSize_pos hw
      have hr := byteSize_pos (withReturns_ne_nil hw)
      omega

end LayerLint.Text
