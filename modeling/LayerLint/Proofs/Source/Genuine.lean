/-
  LayerLint.Proofs.Source.Genuine: every import is written in the text, at a place of its own.

  A match has its specifier between two quotes (`genuine_placed`). No two matches have theirs at the same place. Those
  of one extractor follow each other in the text (`pairwise_offset`). Those of different extractors differ in the
  character that stands before the opening quote and the spaces in front of it (`mark`): it is the last letter of `from`
  or of `import`, or else a bracket or another blank. So nothing stands at one place twice (`dropSamePlace_found`), and
  the imports of a text are all its matches (`imports_genuine`).
-/

import LayerLint.Proofs.Source.Places
import Mathlib.Data.List.Forall2

namespace LayerLint

open Text (isSpaceOrTab isBlank)

namespace Source

variable {text : List Char} {f : Find}

/-! ## One extractor -/

/-- A match ends behind its specifier, and the next one starts behind that. -/
theorem pairwise_offset {e : Extractor} (he : e ∈ extractors) (text : List Char) :
    (e.finds text).Pairwise fun f g => f.offset < g.offset := by
  refine (Extractor.findsOn_in_order e (.start text)).2.imp_of_mem ?_
  intro f g hf _ hfg
  obtain ⟨s, head, spec, tail, -, hquotes, -⟩ := quotes_of_mem_allFinds (mem_allFinds.mpr ⟨e, he, hf⟩)
  obtain ⟨w, hw⟩ := hfg
  obtain ⟨q, -, htrail⟩ := hquotes.trail
  have hspec := Text.byteSize_pos hquotes.nonempty
  have hlast := hquotes.body.byteSize_before
  have hstop := htrail.byteSize_before
  have hnext := hw.byteSize_before
  unfold Find.offset
  omega

/-! ## Different extractors -/

def mark (f : Find) : Option Char := (f.first.before.tail.dropWhile isSpaceOrTab).head?

theorem mark_eq {s : Spot} {head : List Char} {q : Char} (h : s.Reaches (head ++ [q]) f.first) :
    mark f = ((head.reverse ++ s.before).dropWhile isSpaceOrTab).head? := by
  rw [mark, h.1, List.reverse_append, List.reverse_singleton, List.singleton_append, List.cons_append, List.tail_cons]

/-- A word with spaces behind it is marked by its last letter. -/
theorem mark_of_word {s : Spot} {head front spaces : List Char} {c q : Char} (h : s.Reaches (head ++ [q]) f.first)
    (hhead : head = front ++ c :: spaces) (hc : isSpaceOrTab c = false)
    (hspaces : ∀ a ∈ spaces, isSpaceOrTab a = true) : mark f = some c := by
  have hreverse : head.reverse ++ s.before = spaces.reverse ++ (c :: (front.reverse ++ s.before)) := by simp [hhead]
  have hdrop : ∀ a ∈ spaces.reverse, isSpaceOrTab a = true := fun a ha => hspaces a (List.mem_reverse.mp ha)
  rw [mark_eq h, hreverse, List.dropWhile_append_of_pos hdrop, List.dropWhile_cons_of_neg (by simp [hc])]
  rfl

theorem mark_importFrom (h : f ∈ importFrom.finds text) : mark f = some 'm' := by
  obtain ⟨s, -, hf⟩ := Extractor.mem_findsFrom h
  obtain ⟨-, head, spec, ⟨indent, word, clause, spaces, hhead, -, -, -, hspaces⟩, hquotes⟩ := mem_importFrom.mp hf
  obtain ⟨q, -, hlead⟩ := hquotes.lead
  have hfrom : head = (indent ++ (word ++ (clause ++ "fro".toList))) ++ 'm' :: spaces := by simp [hhead]
  exact mark_of_word hlead hfrom rfl hspaces

theorem mark_importBare (h : f ∈ importBare.finds text) : mark f = some 't' := by
  obtain ⟨s, -, hf⟩ := Extractor.mem_findsFrom h
  obtain ⟨-, head, spec, ⟨indent, spaces, hhead, -, hspaces⟩, hquotes⟩ := mem_importBare.mp hf
  obtain ⟨q, -, hlead⟩ := hquotes.lead
  have himport : head = (indent ++ "impor".toList) ++ 't' :: spaces := by simp [hhead]
  exact mark_of_word hlead himport rfl hspaces

/-- Behind what is dropped comes one of the characters before a sign that is not dropped, or that sign. -/
theorem head?_dropWhile_append {p : Char → Bool} {c : Char} (hc : p c = false) (before after : List Char) :
    ∃ a, ((before ++ c :: after).dropWhile p).head? = some a ∧ (a ∈ before ∨ a = c) := by
  induction before with
  | nil => exact ⟨c, by simp [hc], .inr rfl⟩
  | cons b before ih =>
    by_cases hb : p b = true
    · obtain ⟨a, ha, hmem⟩ := ih
      refine ⟨a, by simpa [hb] using ha, ?_⟩
      rcases hmem with hmem | rfl
      · exact .inl (List.mem_cons_of_mem b hmem)
      · exact .inr rfl
    · exact ⟨b, by simp [hb], .inl List.mem_cons_self⟩

theorem mark_importCall (h : f ∈ importCall.finds text) : mark f ≠ some 'm' ∧ mark f ≠ some 't' := by
  obtain ⟨s, -, hf⟩ := Extractor.mem_findsFrom h
  obtain ⟨-, head, spec, tail, ⟨word, blanks, more, rfl, -, -, hmore⟩, -, hquotes⟩ := mem_importCall.mp hf
  obtain ⟨q, -, hlead⟩ := hquotes.lead
  have hreverse : (word ++ (blanks ++ ("(".toList ++ more))).reverse ++ s.before =
      more.reverse ++ '(' :: (blanks.reverse ++ (word.reverse ++ s.before)) := by
    simp
  obtain ⟨a, ha, hmem⟩ := head?_dropWhile_append (p := isSpaceOrTab) (c := '(') rfl more.reverse
    (blanks.reverse ++ (word.reverse ++ s.before))
  have hsign : isBlank a = true ∨ a = '(' := hmem.imp_left fun h => hmore a (List.mem_reverse.mp h)
  rw [mark_eq hlead, hreverse, ha, ne_eq, ne_eq, Option.some_inj, Option.some_inj]
  constructor
  · rintro rfl
    exact absurd hsign (by decide)
  · rintro rfl
    exact absurd hsign (by decide)

/-- Matches of different extractors stand at different places. -/
theorem pairwise_extractors (text : List Char) :
    extractors.Pairwise fun e e' => ∀ f ∈ e.finds text, ∀ g ∈ e'.finds text, f.offset ≠ g.offset := by
  -- what stands at one place has the same mark, since the same text comes before it
  have hmark : ∀ {e e' : Extractor} {f g : Find}, f ∈ e.finds text → g ∈ e'.finds text → mark f ≠ mark g →
      f.offset ≠ g.offset := by
    intro e e' f g hf hg hne hsame
    have hbefore := before_eq (Extractor.whole_of_mem_finds hf) (Extractor.whole_of_mem_finds hg) hsame
    exact hne (by rw [mark, mark, hbefore])
  refine .cons ?_ (.cons ?_ (.cons (fun e he => absurd he List.not_mem_nil) .nil))
  · intro e he f hf g hg
    apply hmark hf hg
    rw [mark_importFrom hf]
    rcases List.mem_cons.mp he with rfl | he
    · rw [mark_importBare hg]
      decide
    · obtain rfl := List.mem_singleton.mp he
      exact (mark_importCall hg).1.symm
  · intro e he f hf g hg
    apply hmark hf hg
    obtain rfl := List.mem_singleton.mp he
    rw [mark_importBare hf]
    exact (mark_importCall hg).2.symm

/-! ## All matches -/

def found (text : List Char) : List (Nat × Import) := extractors.flatMap fun e => importsOf e text

theorem found_eq (text : List Char) : found text = (allFinds text).map Find.placed := by
  rw [allFinds, List.map_flatMap]
  rfl

theorem pairwise_found (text : List Char) : (found text).Pairwise fun p p' => p.1 ≠ p'.1 := by
  rw [found_eq, List.pairwise_map, allFinds, List.pairwise_flatMap]
  exact ⟨fun e he => (pairwise_offset he text).imp Nat.ne_of_lt, pairwise_extractors text⟩

/-- Neighbours at different places all stay. -/
theorem dropSamePlace_eq_self {α : Type} {l : List (Nat × α)} {last : Option Nat}
    (h : l.Pairwise fun p p' => p.1 ≠ p'.1) (hlast : ∀ n ∈ last, ∀ p ∈ l, n ≠ p.1) : dropSamePlace last l = l := by
  induction l generalizing last with
  | nil => rfl
  | cons p l ih =>
    obtain ⟨hp, hl⟩ := List.pairwise_cons.mp h
    have hne : last ≠ some p.1 := fun hsame => hlast p.1 hsame p List.mem_cons_self rfl
    rw [dropSamePlace, if_neg hne, ih hl]
    intro n hn p' hp'
    obtain rfl := Option.some.inj hn
    exact hp p' hp'

theorem dropSamePlace_found (text : List Char) :
    dropSamePlace none (inTextOrder (found text)) = inTextOrder (found text) := by
  refine dropSamePlace_eq_self ?_ (by simp)
  exact (List.mergeSort_perm _ _).symm.pairwise (pairwise_found text) Ne.symm

/-! ## Imports -/

/-- An import stands at a place of a text: there is an opening quote right before the place, its specifier goes on from
    there to a closing quote and holds neither quotes nor line ends, and its line is that of the place. -/
structure Genuine (text : List Char) (place : Nat) (i : Import) : Prop where
  quoted : ∃ before after q q', text = before ++ [q] ++ (i.specifier.toList ++ q' :: after) ∧ isQuote q = true ∧
    isQuote q' = true ∧ Text.byteSize (before ++ [q]) = place ∧ i.line = 1 + Text.newlines (before ++ [q])
  nonempty : i.specifier ≠ ""
  plain : ∀ c ∈ i.specifier.toList, isQuote c = false ∧ c ≠ '\n'

theorem genuine_placed (h : f ∈ allFinds text) : Genuine text f.placed.1 f.placed.2 := by
  obtain ⟨s, head, spec, tail, -, hquotes, -⟩ := quotes_of_mem_allFinds h
  obtain ⟨q, hq, hlead⟩ := hquotes.lead
  obtain ⟨q', hq', htrail⟩ := hquotes.trail
  have hspec : f.placed.2.specifier.toList = spec := by
    rw [← content_eq_of_quotes hquotes]
    exact String.toList_ofList
  have hbefore : s.before.reverse ++ head ++ [q] = f.first.before.reverse := by rw [hlead.1]; simp
  refine ⟨⟨s.before.reverse ++ head, tail ++ f.stop.after, q, q', ?_, hq, hq', ?_, ?_⟩, ?_, ?_⟩
  · rw [hbefore, hspec, ← whole_of_mem_allFinds h, Spot.whole, hquotes.body.2, htrail.2, List.cons_append]
  · rw [hbefore, Text.byteSize_reverse]
    rfl
  · rw [hbefore, Text.newlines_reverse, Nat.add_comm]
    rfl
  · intro hempty
    rw [hempty] at hspec
    exact hquotes.nonempty hspec.symm
  · intro c hc
    have hplain := hquotes.plain c (hspec ▸ hc)
    simpa [inSpecifier] using hplain

/-- Every import is written in the text, with its specifier in quotes at a place of its own and in the order of the
    places. No place is found by two of the extractors, so dropping what repeats a place drops nothing, and the imports
    are all that the extractors find. -/
theorem imports_genuine (content : String) :
    (∃ places : List Nat, places.Pairwise (· < ·) ∧
        List.Forall₂ (Genuine content.toList) places (imports content)) ∧
      ([importFrom, importBare, importCall].Pairwise fun e e' =>
        ∀ p ∈ importsOf e content.toList, ∀ p' ∈ importsOf e' content.toList, p.1 ≠ p'.1) ∧
      dropSamePlace none (inTextOrder (found content.toList)) = inTextOrder (found content.toList) ∧
      (imports content).Perm ((found content.toList).map (·.2)) := by
  refine ⟨⟨(places content.toList).map (·.1), ?_, ?_⟩, ?_, dropSamePlace_found _, ?_⟩
  · exact List.pairwise_map.mpr (pairwise_places content.toList)
  · rw [imports_eq_places, List.forall₂_map_left_iff, List.forall₂_map_right_iff, List.forall₂_same]
    intro p hp
    obtain ⟨f, hf, rfl⟩ := mem_places.mp hp
    exact genuine_placed hf
  · refine (pairwise_extractors content.toList).imp ?_
    intro e e' h p hp p' hp'
    obtain ⟨f, hf, rfl⟩ := List.mem_map.mp hp
    obtain ⟨g, hg, rfl⟩ := List.mem_map.mp hp'
    exact h f hf g hg
  · rw [imports_eq_places, places, ← found_eq, dropSamePlace_found]
    exact (List.mergeSort_perm _ _).map _

/-- One specifier that all three extractors find, in quotes of both kinds. -/
example : found "import x from './a';\n import \"./a\"\nrequire ( './a' )".toList =
    [(15, ⟨"./a", 1⟩), (30, ⟨"./a", 2⟩), (46, ⟨"./a", 3⟩)] := by decide +kernel

end Source

end LayerLint
