/-
  LayerLint.Proofs.Pattern.Lines: extractors whose matches start at the starts of lines.

  Such an extractor has at most one match in a line, which starts with the line (`finds_line`). Whether a match runs on
  into the next line is seen at the start of the line too (`not_crosses_line`). Where no part of the pattern reads a
  line feed (`InLine`), no match does so, and every text is read line by line (`not_crosses`).
-/

import LayerLint.Proofs.Pattern.Borders
import LayerLint.Proofs.Pattern.Words

namespace LayerLint

open Text (CharSet)

/-! ## Patterns within a line -/

namespace Pattern

def InLine (p : Pattern) : Prop := ∀ s t : Spot, t ∈ p.ends s → ∃ w, s.Reaches w t ∧ '\n' ∉ w

variable {p q : Pattern} {set : CharSet}

theorem inLine_empty : empty.InLine := by
  intro s t h
  obtain rfl := List.mem_singleton.mp h
  exact ⟨[], .refl t, by simp⟩

theorem inLine_run {least : Nat} {most : Option Nat} {appetite : Appetite} (h : set '\n' = false) :
    (run set least most appetite).InLine := by
  intro s t ht
  obtain ⟨w, hreach, hset⟩ := reaches_of_mem_run ht
  refine ⟨w, hreach, fun hfeed => ?_⟩
  rw [hset _ hfeed] at h
  cases h

theorem InLine.seq (hp : p.InLine) (hq : q.InLine) : (seq p q).InLine := by
  intro s t ht
  obtain ⟨u, hu, ht⟩ := List.mem_flatMap.mp ht
  obtain ⟨v, hv, hvfeed⟩ := hp s u hu
  obtain ⟨w, hw, hwfeed⟩ := hq u t ht
  refine ⟨v ++ w, hv.trans hw, ?_⟩
  rw [List.mem_append, not_or]
  exact ⟨hvfeed, hwfeed⟩

theorem InLine.either (hp : p.InLine) (hq : q.InLine) : (either p q).InLine := by
  intro s t ht
  rcases mem_ends_either.mp ht with ht | ht
  · exact hp s t ht
  · exact hq s t ht

theorem InLine.optional (hp : p.InLine) : (optional p).InLine := hp.either inLine_empty

theorem inLine_inOrder {ps : List Pattern} (h : ∀ p ∈ ps, p.InLine) : (inOrder ps).InLine :=
  inOrder_induction inLine_empty (fun _ _ hp hq => hp.seq hq) h

theorem inLine_text {word : String} (h : '\n' ∉ word.toList) : (text word).InLine := by
  intro s t ht
  exact ⟨word.toList, mem_ends_text.mp ht, h⟩

theorem inLine_lineStart : lineStart.InLine := by
  intro s t ht
  obtain ⟨rfl, -⟩ := mem_ends_lineStart.mp ht
  exact ⟨[], .refl t, by simp⟩

theorem mem_ends_lineEnd {s t : Spot} : t ∈ lineEnd.ends s ↔ t = s ∧ s.atLineEnd = true := by
  rw [ends]
  split <;> simp_all

theorem inLine_lineEnd : lineEnd.InLine := by
  intro s t ht
  obtain ⟨rfl, -⟩ := mem_ends_lineEnd.mp ht
  exact ⟨[], .refl t, by simp⟩

end Pattern

/-! ## Searches -/

/-- A line feed stands at the end of the text or nowhere. -/
def Text.OneLine (s : List Char) : Prop := '\n' ∉ s.dropLast

theorem Text.oneLine_of_not_mem {s : List Char} (h : '\n' ∉ s) : OneLine s :=
  fun hmem => h (List.dropLast_subset s hmem)

theorem Text.oneLine_append_feed {s : List Char} (h : '\n' ∉ s) : OneLine (s ++ ['\n']) := by
  unfold OneLine
  rw [List.dropLast_concat]
  exact h

/-- A line with or without its end. -/
theorem Text.oneLine_append {s z : String} (h : '\n' ∉ s.toList) (hz : z = "" ∨ z = "\n") : OneLine (s ++ z).toList := by
  rw [String.toList_append]
  rcases hz with rfl | rfl
  · exact oneLine_of_not_mem (by simpa using h)
  · exact oneLine_append_feed h

theorem Text.OneLine.cons {c : Char} {s : List Char} (h : OneLine (c :: s)) (hs : s ≠ []) : c ≠ '\n' ∧ OneLine s := by
  unfold OneLine at h
  rw [List.dropLast_cons_of_ne_nil hs, List.mem_cons, not_or] at h
  exact ⟨Ne.symm h.1, h.2⟩

theorem Text.OneLine.suffix {w s : List Char} (h : OneLine (w ++ s)) : OneLine s := by
  by_cases hs : s = []
  · rw [hs]
    exact oneLine_of_not_mem List.not_mem_nil
  · unfold OneLine at h ⊢
    rw [List.dropLast_append_of_ne_nil hs, List.mem_append, not_or] at h
    exact h.2

/-- A text is made of lines that are ended and of the rest, in which no line ends. -/
theorem Text.exists_last_line (text : List Char) : ∃ front last, text = front ++ last ∧ EndsLine front ∧ '\n' ∉ last := by
  induction text with
  | nil => exact ⟨[], [], rfl, .inl rfl, List.not_mem_nil⟩
  | cons c text ih =>
    obtain ⟨front, last, rfl, hfront, hlast⟩ := ih
    rcases hfront with rfl | ⟨lines, rfl⟩
    · by_cases hc : c = '\n'
      · exact ⟨[c], last, rfl, .inr ⟨[], by rw [hc]; rfl⟩, hlast⟩
      · refine ⟨[], c :: last, rfl, .inl rfl, ?_⟩
        rw [List.mem_cons, not_or]
        exact ⟨Ne.symm hc, hlast⟩
    · exact ⟨c :: (lines ++ ['\n']), last, rfl, .inr ⟨c :: lines, rfl⟩, hlast⟩

namespace Extractor

def Anchored (e : Extractor) : Prop := ∀ (s : Spot) (f : Find), f ∈ e.findsAt s → s.atLineStart = true

variable {e : Extractor} {s : Spot} {f : Find} {text x y : List Char}

theorem Anchored.findsAt_eq_nil (he : e.Anchored) (hs : s.atLineStart = false) : e.findsAt s = [] := by
  rw [List.eq_nil_iff_forall_not_mem]
  intro f hf
  rw [he s f hf] at hs
  cases hs

theorem atLineStart_cons {c : Char} (hc : c ≠ '\n') (before after : List Char) :
    Spot.atLineStart ⟨c :: before, after⟩ = false :=
  beq_eq_false_iff_ne.mpr hc

/-- Nothing is found from the middle of the last line on. -/
theorem Anchored.findsOn_eq_nil (he : e.Anchored) (hsolid : e.Solid) (hstart : s.atLineStart = false)
    (hline : Text.OneLine s.after) : e.findsOn s = [] := by
  obtain ⟨before, after⟩ := s
  -- on the rest of the line, which has no start of a line before its end
  induction after generalizing before with
  | nil =>
    rw [findsOn_of_none (by rw [hsolid.findsAt_nil]; rfl)]
    rfl
  | cons c rest ih =>
    rw [findsOn_of_none (by rw [he.findsAt_eq_nil hstart]; rfl)]
    show e.findsOn ⟨c :: before, rest⟩ = []
    by_cases hrest : rest = []
    · rw [hrest, findsOn_of_none (by rw [hsolid.findsAt_nil]; rfl)]
      rfl
    · obtain ⟨hc, hline⟩ := hline.cons hrest
      exact ih (c :: before) (atLineStart_cons hc before rest) hline

/-- In a single line there is the preferred match at its start, or none. -/
theorem Anchored.finds_line (he : e.Anchored) (hsolid : e.Solid) (hline : Text.OneLine text) :
    e.finds text = (e.findsAt (.start text)).head?.toList := by
  show e.findsOn (.start text) = _
  cases hf : (e.findsAt (.start text)).head? with
  | none =>
    rw [findsOn_of_none hf]
    cases text with
    | nil => rfl
    | cons c rest =>
      show e.findsOn ⟨[c], rest⟩ = []
      by_cases hrest : rest = []
      · rw [hrest, findsOn_of_none (by rw [hsolid.findsAt_nil]; rfl)]
        rfl
      · obtain ⟨hc, hline⟩ := hline.cons hrest
        exact he.findsOn_eq_nil hsolid (atLineStart_cons hc [] rest) hline
  | some f =>
    -- a match does not end at the start of a line, since its last character is no line feed
    obtain ⟨w, c, hw, hc⟩ := hsolid _ f (List.mem_of_mem_head? hf)
    have hstart : f.stop.atLineStart = false := by
      rw [Spot.atLineStart_eq, hw.1]
      simpa using hc
    have hrest : Text.OneLine f.stop.after := by
      have hafter : text = (w ++ [c]) ++ f.stop.after := hw.2
      rw [hafter] at hline
      exact hline.suffix
    rw [findsOn_of_some hf hw, if_neg (by simp), he.findsOn_eq_nil hsolid hstart hrest]
    rfl

/-- Whether a match runs on from a line into the text behind it is seen at the start of the line. -/
theorem Anchored.not_crosses_line (he : e.Anchored) (hline : Text.OneLine x)
    (h : ∀ f ∈ e.findsAt (.start (x ++ y)), f.stop.ahead y = true) : ¬ e.Crosses x y := by
  rintro ⟨⟨before, after⟩, f, hs, hne, hf, hstop⟩
  have hstart := he _ f hf
  have hbefore : before = [] := by
    cases before with
    | nil => rfl
    | cons c before =>
      obtain rfl : c = '\n' := beq_iff_eq.mp hstart
      rw [← hs, Spot.whole, Text.OneLine, List.dropLast_append_of_ne_nil hne] at hline
      exact absurd (List.mem_append_left _ (by simp)) hline
  subst hbefore
  obtain rfl : after = x := hs
  rw [h f hf] at hstop
  cases hstop

/-- Matches start at the starts of lines, are not empty and read no line feed. -/
structure Lined (e : Extractor) : Prop where
  anchored : e.Anchored
  inLine : ∀ (s : Spot) (f : Find), f ∈ e.findsAt s → ∃ w, s.Reaches w f.stop ∧ w ≠ [] ∧ '\n' ∉ w

theorem Lined.solid (he : e.Lined) : e.Solid := by
  intro s f hf
  obtain ⟨w, hw, hne, hfeed⟩ := he.inLine s f hf
  rw [← List.dropLast_concat_getLast hne] at hw
  refine ⟨w.dropLast, w.getLast hne, hw, fun h => hfeed ?_⟩
  rw [← h]
  exact List.getLast_mem hne

/-- No match runs across a line end. -/
theorem Lined.not_crosses (he : e.Lined) (hx : Text.EndsLine x) (y : List Char) : ¬ e.Crosses x y := by
  rintro ⟨s, f, hs, hne, hf, hstop⟩
  obtain ⟨w, hw, -, hfeed⟩ := he.inLine _ f hf
  rw [hw.ahead_of_feed_not_mem (hs ▸ hx) hne hfeed] at hstop
  cases hstop

/-- Lines are searched one by one. -/
theorem Lined.finds_append (he : e.Lined) (hx : Text.EndsLine x) (y : List Char) :
    e.finds (x ++ y) = (e.finds x).map (Find.followedBy y) ++ (e.finds y).map (Find.precededBy x) :=
  Extractor.finds_append he.solid hx (he.not_crosses hx y)

end Extractor

end LayerLint
