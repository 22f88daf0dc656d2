/-
  LayerLint.Proofs.Source.Statements: imports are read statement by statement.

  A semicolon at the end of a line ends a statement for every extractor: semicolons stand only in specifiers, and
  these do not go on in the next line (`not_crosses_statement_end`). So the text before it and the text behind it are
  read on their own (`imports_statement_end`). In a text with two quotes there is nothing to find but what stands
  between them (`places_two_quotes`). Hence statements that are written one per line are read back as they were,
  whatever their clauses and specifiers look like (`imports_listing`).
-/

import LayerLint.Proofs.Source.Places
import Mathlib.Data.List.Chain

namespace LayerLint.Source

open Pattern

variable {f : Find}

/-! ## Ends of statements -/

theorem ne_semicolon_of_isPlain {c : Char} (h : isPlain c = true) : c ≠ ';' := by
  rintro rfl
  exact absurd h (by decide)

theorem ne_feed_of_inSpecifier {c : Char} (h : inSpecifier c = true) : c ≠ '\n' := by
  rintro rfl
  exact absurd h (by decide)

theorem ne_of_isQuote {c d : Char} (h : isQuote c = true) (hd : isQuote d = false) : c ≠ d := by
  rintro rfl
  rw [h] at hd
  cases hd

/-- A semicolon at the end of a line. -/
def EndsStatement (a b : Char) : Prop := a = ';' ∧ b = '\n'

/-- In a match no semicolon is followed by a line feed. -/
theorem isChain_match {head spec tail : List Char} {q q' : Char} (hframe : Frame head tail) (hq : isQuote q = true)
    (hq' : isQuote q' = true) (hspec : ∀ c ∈ spec, inSpecifier c = true) :
    (head ++ q :: (spec ++ q' :: tail)).IsChain (¬ EndsStatement · ·) := by
  have hplain : ∀ {l : List Char}, (∀ c ∈ l, isPlain c = true) → l.IsChain (¬ EndsStatement · ·) := by
    intro l h
    refine (List.pairwise_of_forall_mem_list fun a ha b _ hab => ?_).isChain
    exact ne_semicolon_of_isPlain (h a ha) hab.1
  have hline : spec.IsChain (¬ EndsStatement · ·) := by
    refine (List.pairwise_of_forall_mem_list fun a _ b hb hab => ?_).isChain
    exact ne_feed_of_inSpecifier (hspec b hb) hab.2
  have hquote : ∀ {c : Char} {l : List Char}, isQuote c = true → l.IsChain (¬ EndsStatement · ·) →
      (c :: l).IsChain (¬ EndsStatement · ·) := by
    intro c l hc hl
    exact List.isChain_cons.mpr ⟨fun _ _ hab => ne_of_isQuote hc (by decide) hab.1, hl⟩
  refine List.isChain_append.mpr ⟨hplain hframe.head_plain, hquote hq ?_, ?_⟩
  · refine List.isChain_append.mpr ⟨hline, hquote hq' (hplain hframe.tail_plain), ?_⟩
    intro a _ b hb hab
    obtain rfl : q' = b := by simpa using hb
    exact ne_of_isQuote hq' (by decide) hab.2
  · intro a _ b hb hab
    obtain rfl : q = b := by simpa using hb
    exact ne_of_isQuote hq (by decide) hab.2

theorem not_crosses_statement_end {e : Extractor} (he : e ∈ extractors) (a b : List Char) :
    ¬ e.Crosses (a ++ [';', '\n']) b := by
  rintro ⟨s, f, hs, hne, hf, hstop⟩
  obtain ⟨head, spec, tail, hquotes, hframe⟩ := exists_quotes he hf
  obtain ⟨q, q', hq, hq', hreach⟩ := hquotes.reaches
  obtain ⟨z, hz, -⟩ := hreach.exists_append hstop
  have hchain := isChain_match hframe hq hq' hquotes.plain
  rw [hz] at hchain
  have hinside : ∀ u, s.after ≠ u ++ [';', '\n'] := by
    intro u hu
    rw [hu, List.append_assoc] at hchain
    have hpair := (List.isChain_append.mp hchain).2.1
    exact (List.isChain_cons.mp hpair).1 '\n' rfl ⟨rfl, rfl⟩
  have hfeed : s.after ≠ ['\n'] := by
    intro hfeed
    obtain ⟨c, hc, hne⟩ := hframe.starts
    have hhead := congrArg List.head? hz
    rw [hfeed, List.head?_append, hc] at hhead
    exact hne (Option.some.inj hhead)
  rcases List.append_eq_append_iff.mp hs with ⟨m, -, hm⟩ | ⟨m, -, hm⟩
  · exact hinside m hm
  · rcases m with _ | ⟨c, _ | ⟨d, m⟩⟩
    · exact hinside [] hm.symm
    · exact hfeed (List.cons.inj hm).2.symm
    · have hlen := congrArg List.length hm
      have hpos := List.length_pos_iff.mpr hne
      simp only [List.length_cons, List.length_append, List.length_nil] at hlen
      omega

/-- The text up to a semicolon at the end of a line and the text behind it are read on their own: the imports of the
    second follow those of the first, further down by the lines of the first. -/
theorem imports_statement_end (a b : String) :
    imports (a ++ ";\n" ++ b) =
      imports (a ++ ";\n") ++ (imports b).map (Import.below (Text.newlines (a ++ ";\n").toList)) := by
  have hchars : (a ++ ";\n").toList = a.toList ++ [';', '\n'] := String.toList_append
  refine imports_append ?_ fun e he => ?_
  · exact .inr ⟨a.toList ++ [';'], by rw [hchars, List.append_assoc]; rfl⟩
  · rw [hchars]
    exact not_crosses_statement_end he a.toList b.toList

/-! ## Two quotes -/

theorem not_isQuote_of_isPlain {c : Char} (h : isPlain c = true) : isQuote c = false := by
  simp only [isPlain, Bool.not_eq_true', Bool.or_eq_false_iff] at h
  exact h.1

theorem not_isQuote_of_inSpecifier {c : Char} (h : inSpecifier c = true) : isQuote c = false := by
  simp only [inSpecifier, Bool.not_eq_true', Bool.or_eq_false_iff] at h
  exact h.1

theorem countP_unquoted {v : List Char} (hv : ∀ c ∈ v, isQuote c = false) : v.countP isQuote = 0 := by
  simpa using hv

/-- There are two quotes in a match. -/
theorem countP_match {head spec tail : List Char} {q q' : Char} (hframe : Frame head tail) (hq : isQuote q = true)
    (hq' : isQuote q' = true) (hspec : ∀ c ∈ spec, inSpecifier c = true) :
    (head ++ q :: (spec ++ q' :: tail)).countP isQuote = 2 := by
  have hhead := countP_unquoted fun c hc => not_isQuote_of_isPlain (hframe.head_plain c hc)
  have htail := countP_unquoted fun c hc => not_isQuote_of_isPlain (hframe.tail_plain c hc)
  have hinside := countP_unquoted fun c hc => not_isQuote_of_inSpecifier (hspec c hc)
  simp [hhead, htail, hinside, hq, hq']

section

variable {pre spec rest : List Char} {q q' : Char}

/-- What is found in a text with two quotes starts behind the first. -/
theorem first_of_two_quotes (hpre : ∀ c ∈ pre, isQuote c = false) (hspec : ∀ c ∈ spec, inSpecifier c = true)
    (hrest : ∀ c ∈ rest, isQuote c = false) (hq : isQuote q = true) (hq' : isQuote q' = true)
    (hf : f ∈ allFinds (pre ++ q :: (spec ++ q' :: rest))) :
    f.first = ⟨(pre ++ [q]).reverse, spec ++ q' :: rest⟩ := by
  obtain ⟨s, head, inner, tail, hwhole, hquotes, hframe⟩ := quotes_of_mem_allFinds hf
  obtain ⟨o, ho, hlead⟩ := hquotes.lead
  obtain ⟨o₁, o₂, ho₁, ho₂, hreach⟩ := hquotes.reaches
  have hcount : s.before.countP isQuote = 0 := by
    have hmatch := countP_match hframe ho₁ ho₂ hquotes.plain
    have hcounts := congrArg (List.countP isQuote) hwhole
    have hinside := countP_unquoted fun c hc => not_isQuote_of_inSpecifier (hspec c hc)
    rw [Spot.whole, List.countP_append, List.countP_reverse, hreach.2, List.countP_append, hmatch] at hcounts
    simp [countP_unquoted hpre, countP_unquoted hrest, hinside, hq, hq'] at hcounts
    omega
  have hbefore : ∀ c ∈ s.before.reverse ++ head, isQuote c = false := by
    intro c hc
    rcases List.mem_append.mp hc with hc | hc
    · have hnone := List.countP_eq_zero.mp hcount c (List.mem_reverse.mp hc)
      exact Bool.eq_false_iff.mpr hnone
    · exact not_isQuote_of_isPlain (hframe.head_plain c hc)
  have hsplit : (s.before.reverse ++ head) ++ o :: f.first.after = pre ++ q :: (spec ++ q' :: rest) := by
    rw [← hwhole, Spot.whole, hlead.2]
    simp
  obtain ⟨hpre', rfl, hafter⟩ := Text.cut_inj hbefore hpre ho hq hsplit
  have hfirst : f.first.before = (pre ++ [o]).reverse := by
    rw [hlead.1, ← hpre']
    simp
  rw [← hafter, ← hfirst]

/-- In a text with two quotes there is nothing to find but what stands between them. -/
theorem places_two_quotes (hpre : ∀ c ∈ pre, isQuote c = false) (hspec : ∀ c ∈ spec, inSpecifier c = true)
    (hrest : ∀ c ∈ rest, isQuote c = false) (hq : isQuote q = true) (hq' : isQuote q' = true)
    (hfound : allFinds (pre ++ q :: (spec ++ q' :: rest)) ≠ []) :
    places (pre ++ q :: (spec ++ q' :: rest)) =
      [(Text.byteSize (pre ++ [q]), ⟨String.ofList spec, Text.newlines pre + 1⟩)] := by
  have hplaced : ∀ f ∈ allFinds (pre ++ q :: (spec ++ q' :: rest)),
      f.placed = (Text.byteSize (pre ++ [q]), ⟨String.ofList spec, Text.newlines pre + 1⟩) := by
    intro f hf
    have hfirst := first_of_two_quotes hpre hspec hrest hq hq' hf
    have hcontent : f.content = spec := by
      rw [content_eq hf, hfirst, List.takeWhile_append_of_pos hspec]
      simp [inSpecifier, hq']
    have hfeed : q ≠ '\n' := ne_of_isQuote hq (by decide)
    rw [Find.placed, hcontent, Find.offset, Find.line, hfirst, Text.byteSize_reverse, Text.newlines_reverse,
      Text.newlines_append]
    simp [Text.newlines, hfeed]
  obtain ⟨f, hf⟩ := List.exists_mem_of_ne_nil _ hfound
  refine places_eq (List.pairwise_singleton _ _) fun p => ?_
  rw [List.mem_singleton]
  constructor
  · rintro rfl
    exact ⟨f, hf, hplaced f hf⟩
  · rintro ⟨g, hg, rfl⟩
    exact hplaced g hg

end

/-! ## Listings -/

structure Specifier where
  text : String
  nonempty : text ≠ ""
  plain : ∀ c ∈ text.toList, inSpecifier c = true

def Specifier.quoted (s : Specifier) : String := "'" ++ s.text ++ "'"

/-- What may stand before the specifier of a statement, in one line. -/
structure Clause where
  text : String
  plain : ∀ c ∈ text.toList, inClause c = true ∧ c ≠ '\n'

inductive Statement where
  | named (clause : Clause) (specifier : Specifier)
  | bare (specifier : Specifier)
  | reexport (clause : Clause) (specifier : Specifier)
  | required (name : Clause) (specifier : Specifier)
  | awaited (name : Clause) (specifier : Specifier)

namespace Statement

def specifier : Statement → Specifier
  | named _ s | bare s | reexport _ s | required _ s | awaited _ s => s

def text : Statement → String
  | named c s => "import " ++ c.text ++ " from " ++ s.quoted ++ ";"
  | bare s => "import " ++ s.quoted ++ ";"
  | reexport c s => "export " ++ c.text ++ " from " ++ s.quoted ++ ";"
  | required x s => "const " ++ x.text ++ " = require(" ++ s.quoted ++ ");"
  | awaited x s => "const " ++ x.text ++ " = await import(" ++ s.quoted ++ ");"

def binding : Statement → List Char
  | named _ _ | bare _ | reexport _ _ => []
  | required x _ => "const ".toList ++ x.text.toList ++ " = ".toList
  | awaited x _ => "const ".toList ++ x.text.toList ++ " = await ".toList

def head : Statement → List Char
  | named c _ => "import ".toList ++ c.text.toList ++ " from ".toList
  | bare _ => "import ".toList
  | reexport c _ => "export ".toList ++ c.text.toList ++ " from ".toList
  | required _ _ => "require(".toList
  | awaited _ _ => "import(".toList

def tail : Statement → List Char
  | named _ _ | bare _ | reexport _ _ => []
  | required _ _ | awaited _ _ => [')']

theorem toList_text (st : Statement) :
    st.text.toList = (st.binding ++ st.head) ++ '\'' :: (st.specifier.text.toList ++ '\'' :: (st.tail ++ [';'])) := by
  have happend : ∀ (v w : String) (s : Specifier),
      (v ++ s.quoted ++ w).toList = v.toList ++ '\'' :: (s.text.toList ++ '\'' :: w.toList) := by
    intro v w s
    simp [Specifier.quoted]
  have hclause : ∀ (v w : String) (c : Clause), (v ++ c.text ++ w).toList = v.toList ++ c.text.toList ++ w.toList := by
    intro v w c
    simp
  cases st with
  | named c s => exact (happend _ _ s).trans (congrArg (· ++ _) (hclause _ _ c))
  | bare s => exact happend _ _ s
  | reexport c s => exact (happend _ _ s).trans (congrArg (· ++ _) (hclause _ _ c))
  | required x s =>
    refine (happend _ _ s).trans ?_
    rw [hclause]
    show _ = ("const ".toList ++ x.text.toList ++ " = ".toList ++ "require(".toList) ++ _
    rw [List.append_assoc _ " = ".toList]
    rfl
  | awaited x s =>
    refine (happend _ _ s).trans ?_
    rw [hclause]
    show _ = ("const ".toList ++ x.text.toList ++ " = await ".toList ++ "import(".toList) ++ _
    rw [List.append_assoc _ " = await ".toList]
    rfl

theorem opening_plain (st : Statement) : ∀ c ∈ st.binding ++ st.head, isQuote c = false ∧ c ≠ '\n' := by
  have hclause : ∀ c : Clause, ∀ a ∈ c.text.toList, isQuote a = false ∧ a ≠ '\n' := by
    intro c a ha
    obtain ⟨hplain, hfeed⟩ := c.plain a ha
    exact ⟨not_isQuote_of_isPlain (isPlain_of_inClause hplain), hfeed⟩
  have happend : ∀ {u v : List Char}, (∀ c ∈ u, isQuote c = false ∧ c ≠ '\n') → (∀ c ∈ v, isQuote c = false ∧ c ≠ '\n') →
      ∀ c ∈ u ++ v, isQuote c = false ∧ c ≠ '\n' := fun hu hv => List.forall_mem_append.mpr ⟨hu, hv⟩
  cases st with
  | named c s => exact happend (u := []) (by decide) (happend (happend (by decide) (hclause c)) (by decide))
  | bare s => exact happend (u := []) (v := "import ".toList) (by decide) (by decide)
  | reexport c s => exact happend (u := []) (by decide) (happend (happend (by decide) (hclause c)) (by decide))
  | required x s => exact happend (v := "require(".toList) (happend (happend (by decide) (hclause x)) (by decide)) (by decide)
  | awaited x s => exact happend (v := "import(".toList) (happend (happend (by decide) (hclause x)) (by decide)) (by decide)

theorem newlines_text (st : Statement) : Text.newlines st.text.toList = 0 := by
  refine List.count_eq_zero.mpr fun h => ?_
  rw [toList_text] at h
  rcases List.mem_append.mp h with h | h
  · exact (st.opening_plain _ h).2 rfl
  · have hspec : '\n' ∉ st.specifier.text.toList := fun h => ne_feed_of_inSpecifier (st.specifier.plain _ h) rfl
    cases st <;> simp_all [tail, specifier]

theorem isFromHead_clause {word : List Char} (hword : word = "import".toList ∨ word = "export".toList) (c : Clause) :
    IsFromHead (word ++ ' ' :: (c.text.toList ++ " from ".toList)) := by
  refine ⟨[], word, ' ' :: (c.text.toList ++ [' ']), [' '], ?_, by simp, hword, ⟨?_, ⟨' ', rfl, by decide⟩, ?_⟩, by decide⟩
  · simp
  · intro a ha
    simp only [List.mem_cons, List.mem_append, List.not_mem_nil, or_false] at ha
    rcases ha with rfl | ha | rfl
    · decide
    · exact (c.plain a ha).1
    · decide
  · exact ⟨' ', by rw [← List.cons_append, List.getLast?_concat], by decide⟩

/-- The word that leads to the specifier is not part of a longer one. -/
theorem head?_binding (st : Statement) : st.binding.reverse.head?.any Text.isWord = false := by
  have hspace : ∀ v w : List Char, (v ++ (w ++ [' '])).reverse.head?.any Text.isWord = false := by
    intro v w
    rw [List.head?_reverse, ← List.append_assoc, List.getLast?_concat]
    decide
  cases st with
  | named c s => rfl
  | bare s => rfl
  | reexport c s => rfl
  | required x s => exact hspace ("const ".toList ++ x.text.toList) " =".toList
  | awaited x s => exact hspace ("const ".toList ++ x.text.toList) " = await".toList

/-- Each statement is found where its word starts. -/
theorem allFinds_ne_nil (st : Statement) (z : List Char) : allFinds (st.text.toList ++ z) ≠ [] := by
  let s : Spot := ⟨st.binding.reverse, st.head ++ '\'' :: (st.specifier.text.toList ++ '\'' :: (st.tail ++ ([';'] ++ z)))⟩
  have hwhole : s.whole = st.text.toList ++ z := by
    rw [toList_text, Spot.whole]
    simp [s]
  have hne : st.specifier.text.toList ≠ [] := by
    intro h
    exact st.specifier.nonempty (String.toList_eq_nil_iff.mp h)
  obtain ⟨f, hf⟩ := exists_find (s := s) rfl rfl st.specifier.plain hne rfl
  have hedge := st.head?_binding
  obtain ⟨e, he, hmem⟩ : ∃ e ∈ extractors, f ∈ e.findsAt s := by
    cases st with
    | named c s =>
      exact ⟨importFrom, by simp [extractors], mem_importFrom.mpr ⟨rfl, _, _, isFromHead_clause (.inl rfl) c, hf⟩⟩
    | bare s =>
      refine ⟨importBare, by simp [extractors], mem_importBare.mpr ⟨rfl, _, _, ?_, hf⟩⟩
      exact ⟨[], [' '], rfl, by simp, by decide⟩
    | reexport c s =>
      exact ⟨importFrom, by simp [extractors], mem_importFrom.mpr ⟨rfl, _, _, isFromHead_clause (.inr rfl) c, hf⟩⟩
    | required x s =>
      refine ⟨importCall, by simp [extractors], mem_importCall.mpr ⟨hedge, _, _, _, ?_, ?_, hf⟩⟩
      · exact ⟨"require".toList, [], [], rfl, .inl rfl, by simp, by simp⟩
      · exact ⟨[], rfl, by simp⟩
    | awaited x s =>
      refine ⟨importCall, by simp [extractors], mem_importCall.mpr ⟨hedge, _, _, _, ?_, ?_, hf⟩⟩
      · exact ⟨"import".toList, [], [], rfl, .inr rfl, by simp, by simp⟩
      · exact ⟨[], rfl, by simp⟩
  intro hnil
  have hnone := List.flatMap_eq_nil_iff.mp hnil e he
  rw [← hwhole] at hnone
  exact Extractor.finds_ne_nil hmem hnone

/-- A statement alone in its line is one import, whatever its clause and its specifier look like. -/
theorem imports_line (st : Statement) {z : String} (hz : ∀ c ∈ z.toList, isQuote c = false) :
    imports (st.text ++ z) = [⟨st.specifier.text, 1⟩] := by
  have hchars : (st.text ++ z).toList =
      (st.binding ++ st.head) ++ '\'' :: (st.specifier.text.toList ++ '\'' :: (st.tail ++ (';' :: z.toList))) := by
    rw [String.toList_append, toList_text]
    simp
  have hrest : ∀ c ∈ st.tail ++ (';' :: z.toList), isQuote c = false := by
    refine List.forall_mem_append.mpr ⟨?_, List.forall_mem_cons.mpr ⟨by decide, hz⟩⟩
    cases st <;> simp [tail, isQuote]
  have hfeeds : Text.newlines (st.binding ++ st.head) = 0 := List.count_eq_zero.mpr fun h => (st.opening_plain _ h).2 rfl
  have hfound := st.allFinds_ne_nil z.toList
  rw [← String.toList_append, hchars] at hfound
  rw [imports_eq_places, hchars,
    places_two_quotes (fun c hc => (st.opening_plain c hc).1) st.specifier.plain hrest rfl rfl hfound, hfeeds]
  simp

end Statement

theorem imports_empty : imports "" = [] := by
  have hnone : places [] = [] := places_eq_nil (allFinds_unquoted (by simp))
  rw [imports_eq_places]
  exact congrArg (List.map _) hnone

/-- Statements that are written one per line are read back in order, each with its specifier and its line. -/
theorem imports_listing (ended : Bool) (sts : List Statement) :
    imports (listing Statement.text ended sts) = sts.mapIdx fun i st => ⟨st.specifier.text, i + 1⟩ := by
  -- on the statements: the first line is read on its own, and the others stand one line further down
  refine listing_induction
    (motive := fun sts content => imports content = sts.mapIdx fun i st => ⟨st.specifier.text, i + 1⟩)
    imports_empty ?last ?next ended sts
  case last =>
    rintro st _ (rfl | rfl)
    · exact st.imports_line (by decide)
    · exact st.imports_line (by decide)
  case next =>
    intro st sts rest ih
    obtain ⟨front, hfront⟩ : ∃ front, (st.text ++ "\n").toList = front ++ [';', '\n'] := by
      refine ⟨(st.binding ++ st.head) ++ '\'' :: (st.specifier.text.toList ++ '\'' :: st.tail), ?_⟩
      rw [String.toList_append, st.toList_text]
      simp
    have hends : Text.EndsLine (st.text ++ "\n").toList := .inr ⟨front ++ [';'], by rw [hfront]; simp⟩
    have hlines : Text.newlines (st.text ++ "\n").toList = 1 := by
      rw [String.toList_append, Text.newlines_append, st.newlines_text]
      decide
    rw [imports_append hends fun e he => hfront ▸ not_crosses_statement_end he front _, st.imports_line (by decide), ih,
      hlines, List.mapIdx_cons, List.mapIdx_eq_zipIdx_map, List.mapIdx_eq_zipIdx_map, List.map_map]
    rfl

end LayerLint.Source
