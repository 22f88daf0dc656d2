/-
  LayerLint.Proofs.Source.Comments: what a commented import does to the imports of a text.

  The extractors know no comments: two slashes only keep a line from starting with `import`. A match that starts
  further up may run into the comment, and it does so exactly if some statement before it is still open
  (`LeavesOpen`): a line that starts with `import` or `export` and is followed by no semicolon and no quote. Such a
  match ends with the specifier in the comment (`Commented.ends_there`); no other match runs into the comment or
  starts in it (`Commented.starts_nowhere`). So a commented import is read if a statement before it is open, and else
  the text before it and the text behind it are read on their own (`imports_commented`).
-/

import LayerLint.Proofs.Source.Statements

namespace LayerLint.Source

open Pattern
open Text (isSpaceOrTab isBlank)

variable {s : Spot} {e : Extractor} {f : Find}

/-! ## Matches of each kind -/

theorem Reads.unquoted {head tail : List Char} (h : Reads s head e tail) : ∀ c ∈ head, isQuote c = false :=
  fun c hc => not_isQuote_of_isPlain (h.frame.head_plain c hc)

/-- Behind the closing quote there are at most blanks and a bracket. -/
theorem Reads.slash_not_mem {head tail : List Char} (h : Reads s head e tail) : '/' ∉ tail := by
  intro hmem
  cases h with
  | named => cases hmem
  | bare => cases hmem
  | call words close =>
    obtain ⟨blanks, rfl, hblanks⟩ := close
    rcases List.mem_append.mp hmem with hmem | hmem
    · exact absurd (hblanks _ hmem) (by decide)
    · exact absurd hmem (by decide)

theorem IsBareHead.slash_not_mem {head : List Char} (h : IsBareHead head) : '/' ∉ head := by
  obtain ⟨indent, spaces, rfl, hindent, hspaces⟩ := h
  intro hmem
  simp only [List.mem_append] at hmem
  rcases hmem with hmem | hmem | hmem
  · exact absurd (hindent _ hmem) (by decide)
  · exact absurd hmem (by decide)
  · exact absurd (hspaces _ hmem) (by decide)

/-- A call has its bracket where a clause ends with `from`. -/
theorem IsCallHead.not_suffix {front head v spaces : List Char} (h : IsCallHead head)
    (hspaces : ∀ c ∈ spaces, isSpaceOrTab c = true) : front ++ head ≠ v ++ ("from".toList ++ spaces) := by
  obtain ⟨word, blanks, more, rfl, -, -, hmore⟩ := h
  intro heq
  have hcut : (front ++ word ++ blanks) ++ '(' :: more = (v ++ "fro".toList) ++ 'm' :: spaces := by
    simpa using heq
  have hsep : '(' = 'm' := by
    refine (@Text.cutLast_inj (!isBlank ·) _ _ _ _ _ _ ?_ ?_ (by decide) (by decide) hcut).2.1
    · intro c hc
      simp [hmore c hc]
    · intro c hc
      simp [isBlank_of_isSpaceOrTab (hspaces c hc)]
  exact absurd hsep (by decide)

/-- If a match goes on behind a line end and there is a quote before that, it has both of its quotes before it. -/
theorem Reads.tail_eq {head spec tail m z : List Char} {o o' : Char} (h : Reads s head e tail)
    (hspec : ∀ c ∈ spec, inSpecifier c = true) (ho : isQuote o = true) (hm : ∃ front, m = front ++ ['\n'])
    (hquote : ∃ c ∈ m, isQuote c = true) (heq : head ++ o :: (spec ++ o' :: tail) = m ++ z) : ∃ l, tail = l ++ z := by
  obtain ⟨front, hm⟩ := hm
  obtain ⟨c, hc, hquote⟩ := hquote
  have hhead : c ∉ head := by
    intro hmem
    rw [h.unquoted c hmem] at hquote
    cases hquote
  have hfeed : '\n' ∉ spec := fun hmem => ne_feed_of_inSpecifier (hspec _ hmem) rfl
  rcases Text.append_cons_cases heq with ⟨k, hk, -⟩ | ⟨k, hk, hinner⟩
  · rw [hk] at hhead
    exact absurd (List.mem_append_left k hc) hhead
  · have hlast : '\n' ∈ k := by
      rcases List.eq_nil_or_concat k with rfl | ⟨k', d, rfl⟩
      · have hends := (List.append_inj' (hm.symm.trans hk) rfl).2
        exact absurd (List.singleton_inj.mp hends).symm (ne_of_isQuote ho (by decide))
      · have hends : front ++ ['\n'] = (head ++ o :: k') ++ [d] := by rw [← hm, hk]; simp
        obtain rfl := List.singleton_inj.mp (List.append_inj' hends rfl).2
        simp
    rcases Text.append_cons_cases hinner with ⟨l, hl, -⟩ | ⟨l, -, htail⟩
    · rw [hl] at hfeed
      exact absurd (List.mem_append_left l hlast) hfeed
    · exact ⟨l, htail⟩

theorem IsFromHead.head?_ne_slash {head : List Char} (h : IsFromHead head) : head.head? ≠ some '/' := by
  obtain ⟨indent, word, clause, spaces, rfl, hindent, hword, -⟩ := h
  intro hslash
  cases indent with
  | nil => rcases hword with rfl | rfl <;> exact absurd (Option.some.inj hslash) (by decide)
  | cons c indent =>
    obtain rfl : c = '/' := Option.some.inj hslash
    exact absurd (hindent '/' (by simp)) (by decide)

/-! ## Open statements -/

/-- A text that starts with `import` or `export` and goes on with nothing that would end the clause. -/
def IsOpening (text : List Char) : Prop :=
  ∃ indent word clause, text = indent ++ (word ++ clause) ∧ (∀ c ∈ indent, isSpaceOrTab c = true) ∧
    (word = "import".toList ∨ word = "export".toList) ∧ (∀ c ∈ clause, inClause c = true) ∧
    ∃ c, clause.head? = some c ∧ Text.isWord c = false

/-- Some line of the text starts a statement that the rest of the text does not end. -/
def LeavesOpen (text : List Char) : Prop := ∃ front back, text = front ++ back ∧ Text.EndsLine front ∧ IsOpening back

theorem feed_not_mem_word {indent word : List Char} (hindent : ∀ c ∈ indent, isSpaceOrTab c = true)
    (hword : word = "import".toList ∨ word = "export".toList) : '\n' ∉ indent ++ word := by
  intro h
  rcases List.mem_append.mp h with h | h
  · exact ne_feed_of_isSpaceOrTab (hindent _ h) rfl
  · rcases hword with rfl | rfl <;> exact absurd h (by decide)

/-- Up to the end of one of its lines, a statement that is read further is open. -/
theorem IsFromHead.isOpening {m rest : List Char} (h : IsFromHead (m ++ rest)) (hm : '\n' ∈ m) : IsOpening m := by
  obtain ⟨indent, word, clause, spaces, heq, hindent, hword, hclause, hspaces⟩ := h
  have hfeed := feed_not_mem_word hindent hword
  have hplain : ∀ c ∈ clause ++ ("from".toList ++ spaces), inClause c = true := by
    intro c hc
    simp only [List.mem_append] at hc
    rcases hc with hc | hc | hc
    · exact hclause.plain c hc
    · revert c
      decide
    · have hcases : c = ' ' ∨ c = '\t' := by simpa [isSpaceOrTab] using hspaces c hc
      rcases hcases with rfl | rfl <;> decide
  rw [← List.append_assoc] at heq
  rcases List.append_eq_append_iff.mp heq with ⟨k, hk, -⟩ | ⟨k, rfl, hk⟩
  · rw [hk] at hfeed
    exact absurd (List.mem_append_left k hm) hfeed
  · refine ⟨indent, word, k, by simp, hindent, hword, ?_, ?_⟩
    · intro c hc
      exact hplain c (by rw [hk]; exact List.mem_append_left _ hc)
    · obtain ⟨c, hc, hedge⟩ := hclause.starts
      cases k with
      | nil =>
        rw [List.append_nil] at hm
        exact absurd hm hfeed
      | cons d k =>
        have hhead := congrArg List.head? hk
        rw [List.head?_append, hc] at hhead
        exact ⟨c, hhead.symm, hedge⟩

theorem IsOpening.unquoted {text : List Char} (h : IsOpening text) : ∀ c ∈ text, isQuote c = false := by
  obtain ⟨indent, word, clause, rfl, hindent, hword, hclause, -⟩ := h
  intro c hc
  simp only [List.mem_append] at hc
  rcases hc with hc | hc | hc
  · exact not_isQuote_of_isPlain (isPlain_of_isBlank (isBlank_of_isSpaceOrTab (hindent c hc)))
  · revert c
    rcases hword with rfl | rfl <;> decide
  · exact not_isQuote_of_isPlain (isPlain_of_inClause (hclause c hc))

/-! ## Commented statements -/

/-- A line that holds a statement with `from` behind two slashes. -/
structure Commented where
  /-- From the slashes to the opening quote. -/
  head : String
  quote : Char
  specifier : Specifier
  /-- What stands behind the closing quote. -/
  rest : String
  isFromHead : IsFromHead head.toList
  inLine : '\n' ∉ head.toList
  quoted : isQuote quote = true
  rest_plain : ∀ c ∈ rest.toList, c = ';' ∨ isSpaceOrTab c = true

namespace Commented

def text (line : Commented) : String :=
  "//" ++ line.head ++ line.quote.toString ++ line.specifier.text ++ line.quote.toString ++ line.rest

def opening (line : Commented) : List Char := "//".toList ++ line.head.toList

def closing (line : Commented) : List Char :=
  line.quote :: (line.specifier.text.toList ++ line.quote :: (line.rest.toList ++ ['\n']))

def chars (line : Commented) : List Char := line.opening ++ line.closing

theorem toList_text (line : Commented) : (line.text ++ "\n").toList = line.chars := by
  simp [text, chars, opening, closing]

theorem rest_unquoted (line : Commented) : ∀ c ∈ line.rest.toList, isQuote c = false ∧ c ≠ '\n' := by
  intro c hc
  rcases line.rest_plain c hc with rfl | h
  · decide
  · exact ⟨not_isQuote_of_isPlain (isPlain_of_isBlank (isBlank_of_isSpaceOrTab h)), ne_feed_of_isSpaceOrTab h⟩

theorem opening_unquoted (line : Commented) : ∀ c ∈ line.opening, isQuote c = false ∧ c ≠ '\n' := by
  intro c hc
  have hslashes : ∀ c ∈ "//".toList, isQuote c = false ∧ c ≠ '\n' := by decide
  rcases List.mem_append.mp hc with hc | hc
  · exact hslashes c hc
  · refine ⟨not_isQuote_of_isPlain (line.isFromHead.frame.head_plain c hc), ?_⟩
    rintro rfl
    exact line.inLine hc

/-- The opening of the line ends with `from`, so no call leads to its quote. -/
theorem not_isCallHead (line : Commented) {v w head : List Char} (h : v ++ head = w ++ line.opening) :
    ¬ IsCallHead head := by
  obtain ⟨indent, word, clause, spaces, heq, -, -, -, hspaces⟩ := line.isFromHead
  intro hcall
  refine hcall.not_suffix hspaces (v := w ++ "//".toList ++ indent ++ word ++ clause) (h.trans ?_)
  rw [opening, heq]
  simp

variable {a b m : List Char}

/-- A match that starts before the comment and runs into it belongs to an open statement, and it ends with the
    specifier in the comment. -/
theorem ends_there (line : Commented) (ha : Text.EndsLine a) (he : e ∈ extractors) (hf : f ∈ e.findsAt s)
    (hbefore : a = s.before.reverse ++ m) (hafter : s.after = m ++ (line.chars ++ b))
    (hstop : f.stop.after.length < (line.chars ++ b).length) :
    s.atLineStart = true ∧ IsOpening m ∧ f.stop.after = line.rest.toList ++ '\n' :: b := by
  obtain ⟨head, spec, tail, hquotes, hreads⟩ := exists_reads he hf
  obtain ⟨o, o', ho, ho', hreach⟩ := hquotes.reaches
  by_cases hm : ∀ c ∈ m, isQuote c = false
  · have hmatch : head ++ o :: (spec ++ o' :: (tail ++ f.stop.after)) =
        (m ++ line.opening) ++ line.quote :: (line.specifier.text.toList ++ line.quote :: (line.rest.toList ++ '\n' :: b)) := by
      have hwords := hreach.2.symm.trans hafter
      simpa [chars, closing] using hwords
    have hplain : ∀ c ∈ m ++ line.opening, isQuote c = false :=
      List.forall_mem_append.mpr ⟨hm, fun c hc => (line.opening_unquoted c hc).1⟩
    obtain ⟨rfl, rfl, hinner⟩ := Text.cut_inj hreads.unquoted hplain ho line.quoted hmatch
    obtain ⟨-, -, hrest⟩ := Text.cut_inj (fun c hc => not_isQuote_of_inSpecifier (hquotes.plain c hc))
      (fun c hc => not_isQuote_of_inSpecifier (line.specifier.plain c hc)) ho' line.quoted hinner
    cases hreads with
    | named start words =>
      refine ⟨start, words.isOpening ?_, hrest⟩
      have hne : m ≠ [] := by
        rintro rfl
        exact words.head?_ne_slash rfl
      obtain ⟨front, rfl⟩ := Text.EndsLine.suffix (hbefore ▸ ha) hne
      simp
    | bare start words =>
      refine absurd ?_ words.slash_not_mem
      simp [opening]
    | call words close => exact absurd words (line.not_isCallHead (List.nil_append _))
  · exfalso
    push Not at hm
    obtain ⟨c, hc, hquote⟩ := hm
    have hends := Text.EndsLine.suffix (hbefore ▸ ha) (List.ne_nil_of_mem hc)
    rw [hreach.2] at hafter
    rcases List.append_eq_append_iff.mp hafter with ⟨k, -, hk⟩ | ⟨z, hz, hk⟩
    · have hlen := congrArg List.length hk
      rw [List.length_append] at hlen
      omega
    · have hslash : '/' ∈ z := by
        cases z with
        | nil =>
          rw [List.nil_append] at hk
          rw [hk] at hstop
          exact absurd hstop (Nat.lt_irrefl _)
        | cons d z =>
          obtain rfl : '/' = d := (List.cons.inj hk).1
          simp
      obtain ⟨l, rfl⟩ := hreads.tail_eq hquotes.plain ho hends ⟨c, hc, by simpa using hquote⟩ hz
      exact hreads.slash_not_mem (List.mem_append_right l hslash)

theorem chars_append (line : Commented) (b : List Char) :
    line.chars ++ b =
      line.opening ++ line.quote :: (line.specifier.text.toList ++ line.quote :: (line.rest.toList ++ '\n' :: b)) := by
  simp [chars, closing]

/-- A spot in the line is in its opening, in the specifier or behind the closing quote. -/
theorem spot_cases (line : Commented) {front after : List Char} (hlen : front.length < line.chars.length)
    (hafter : line.chars ++ b = front ++ after) :
    (∃ m, line.opening = front ++ m ∧
        after = m ++ line.quote :: (line.specifier.text.toList ++ line.quote :: (line.rest.toList ++ '\n' :: b))) ∨
      (∃ m, m <:+ line.specifier.text.toList ∧ after = m ++ line.quote :: (line.rest.toList ++ '\n' :: b)) ∨
      ∃ m, m <:+ line.rest.toList ∧ after = m ++ '\n' :: b := by
  rw [chars_append] at hafter
  rcases Text.append_cons_cases hafter with hopening | ⟨k, hk, hinner⟩
  · exact .inl hopening
  rcases Text.append_cons_cases hinner with ⟨m, hm, hspec⟩ | ⟨l, hl, hrest⟩
  · exact .inr (.inl ⟨m, ⟨k, hm.symm⟩, hspec⟩)
  rcases Text.append_cons_cases hrest with ⟨m, hm, hend⟩ | ⟨n, hn, -⟩
  · exact .inr (.inr ⟨m, ⟨l, hm.symm⟩, hend⟩)
  · rw [hk, hl, hn] at hlen
    simp [chars, closing] at hlen

/-- A call does not start in the comment: where its word would be there is none, or it leads to no quote. -/
theorem no_call (line : Commented) {front after head spec tail : List Char} {o o' : Char} (hcall : IsCallHead head)
    (hlen : front.length < line.chars.length) (hafter : line.chars ++ b = front ++ after)
    (hspec : ∀ c ∈ spec, inSpecifier c = true) (ho : isQuote o = true) (ho' : isQuote o' = true) :
    after ≠ head ++ o :: (spec ++ o' :: tail) := by
  intro hmatch
  have hunquoted : ∀ c ∈ head, isQuote c = false := by
    intro c hc
    exact not_isQuote_of_isPlain ((hcall.frame ⟨[], rfl, by simp⟩).head_plain c hc)
  rcases line.spot_cases hlen hafter with ⟨m, hm, hrest⟩ | ⟨m, hm, hrest⟩ | ⟨m, hm, hrest⟩
  · have hm' : ∀ c ∈ m, isQuote c = false := by
      intro c hc
      exact (line.opening_unquoted c (by rw [hm]; exact List.mem_append_right front hc)).1
    obtain ⟨rfl, -, -⟩ := Text.cut_inj hunquoted hm' ho line.quoted (hmatch.symm.trans hrest)
    exact line.not_isCallHead (w := []) hm.symm hcall
  · have hm' : ∀ c ∈ m, isQuote c = false := by
      intro c hc
      exact not_isQuote_of_inSpecifier (line.specifier.plain c (hm.subset hc))
    obtain ⟨-, -, hlast⟩ := Text.cut_inj hunquoted hm' ho line.quoted (hmatch.symm.trans hrest)
    have hends : o' = '\n' := by
      refine (@Text.cut_inj (!inSpecifier ·) _ _ _ _ _ _ ?_ ?_ ?_ (by decide) hlast).2.1
      · intro c hc
        simp [hspec c hc]
      · intro c hc
        simp [inSpecifier, line.rest_unquoted c hc]
      · simp [inSpecifier, ho']
    exact ne_of_isQuote ho' (by decide) hends
  · have hfirst : (m ++ '\n' :: b).head? = some 'r' ∨ (m ++ '\n' :: b).head? = some 'i' := by
      rw [← hrest, hmatch, List.head?_append]
      rcases hcall.starts with h | h
      · exact .inl (by rw [h]; rfl)
      · exact .inr (by rw [h]; rfl)
    cases m with
    | nil => simp at hfirst
    | cons c m =>
      have hword : c = 'r' ∨ c = 'i' := by simpa using hfirst
      rcases line.rest_plain c (hm.subset List.mem_cons_self) with rfl | hc
      · exact absurd hword (by decide)
      · rcases hword with rfl | rfl <;> exact absurd hc (by decide)

def body (line : Commented) : List Char :=
  line.opening ++ line.quote :: (line.specifier.text.toList ++ line.quote :: line.rest.toList)

theorem chars_eq_body (line : Commented) : line.chars = line.body ++ ['\n'] := by
  simp [chars, closing, body]

theorem feed_not_mem_body (line : Commented) : '\n' ∉ line.body := by
  have hspec : '\n' ∉ line.specifier.text.toList := fun h => ne_feed_of_inSpecifier (line.specifier.plain _ h) rfl
  have hquote : '\n' ≠ line.quote := (ne_of_isQuote line.quoted (by decide)).symm
  intro h
  simp only [body, List.mem_append, List.mem_cons] at h
  rcases h with h | h | h | h | h
  · exact (line.opening_unquoted _ h).2 rfl
  · exact hquote h
  · exact hspec h
  · exact hquote h
  · exact (line.rest_unquoted _ h).2 rfl

theorem newlines_chars (line : Commented) : Text.newlines line.chars = 1 := by
  have hnone : Text.newlines line.body = 0 := List.count_eq_zero.mpr line.feed_not_mem_body
  rw [chars_eq_body, Text.newlines_append, hnone]
  rfl

theorem feed_not_mem (line : Commented) {front after : List Char} (hlen : front.length < line.chars.length)
    (hafter : line.chars ++ b = front ++ after) : '\n' ∉ front := by
  have hfront : front <+: line.chars ++ b := ⟨after, hafter.symm⟩
  rw [chars_eq_body, List.length_append] at hlen
  rw [chars_eq_body, List.append_assoc] at hfront
  have hinside := List.prefix_of_prefix_length_le hfront (List.prefix_append _ _) (Nat.le_of_lt_succ hlen)
  intro h
  exact line.feed_not_mem_body (hinside.subset h)

/-- No match starts in the comment. -/
theorem starts_nowhere (line : Commented) {front : List Char} (he : e ∈ extractors) (hbefore : s.before.reverse = a ++ front)
    (hne : front ≠ []) (hlen : front.length < line.chars.length) (hafter : line.chars ++ b = front ++ s.after) :
    f ∉ e.findsAt s := by
  intro hf
  obtain ⟨head, spec, tail, hquotes, hreads⟩ := exists_reads he hf
  obtain ⟨o, o', ho, ho', hreach⟩ := hquotes.reaches
  have hstart : s.atLineStart = false := by
    rcases List.eq_nil_or_concat front with hnil | ⟨rest, c, hconcat⟩
    · exact absurd hnil hne
    · rw [List.concat_eq_append] at hconcat
      have hc : c ≠ '\n' := by
        rintro rfl
        exact line.feed_not_mem hlen hafter (by rw [hconcat]; simp)
      have hspot : s.before = c :: (a ++ rest).reverse := by
        rw [← List.reverse_reverse s.before, hbefore, hconcat]
        simp
      rw [Spot.atLineStart_eq, hspot]
      simpa using hc
  cases hreads with
  | named start words => simp [hstart] at start
  | bare start words => simp [hstart] at start
  | call words close => exact line.no_call words hlen hafter hquotes.plain ho ho' (by rw [hreach.2]; simp; rfl)

/-- What a match that has to do with the comment is like. -/
theorem touches (line : Commented) (ha : Text.EndsLine a) (he : e ∈ extractors) (hf : f ∈ e.findsAt s)
    (hwhole : s.whole = a ++ (line.chars ++ b)) (hstart : b.length < s.after.length)
    (hstop : f.stop.after.length < (line.chars ++ b).length) :
    f.stop.after = line.rest.toList ++ '\n' :: b ∧ s.atLineStart = true ∧ ∃ m, a = s.before.reverse ++ m ∧ IsOpening m := by
  rcases List.append_eq_append_iff.mp hwhole with ⟨m, hm, hafter⟩ | ⟨front, hfront, hchars⟩
  · obtain ⟨hline, hopening, hrest⟩ := line.ends_there ha he hf hm hafter hstop
    exact ⟨hrest, hline, m, hm, hopening⟩
  · by_cases hne : front = []
    · subst hne
      rw [List.append_nil] at hfront
      obtain ⟨hline, hopening, hrest⟩ := line.ends_there ha he hf (m := []) (by rw [hfront]; simp) hchars.symm hstop
      exact ⟨hrest, hline, [], by rw [hfront]; simp, hopening⟩
    · have hlen := congrArg List.length hchars
      rw [List.length_append, List.length_append] at hlen
      exact absurd hf (line.starts_nowhere he hfront hne (by omega) hchars)

theorem not_crosses (line : Commented) (ha : Text.EndsLine a) (he : e ∈ extractors) : ¬ e.Crosses (a ++ line.chars) b := by
  rintro ⟨s, f, hs, hne, hf, hstop⟩
  have hpos := List.length_pos_iff.mpr hne
  have hwhole : (s.followedBy b).whole = a ++ (line.chars ++ b) := by
    rw [← List.append_assoc, ← hs]
    simp [Spot.whole, Spot.followedBy]
  have hstart : b.length < (s.followedBy b).after.length := by
    show b.length < (s.after ++ b).length
    rw [List.length_append]
    omega
  have hline : 0 < line.chars.length := List.length_pos_iff.mpr (by simp [chars, closing])
  simp only [Spot.ahead, decide_eq_false_iff_not] at hstop
  obtain ⟨hrest, -⟩ := line.touches ha he hf hwhole hstart (by rw [List.length_append]; omega)
  rw [hrest, List.length_append, List.length_cons] at hstop
  omega

/-- In the comment alone there is nothing to find. -/
theorem allFinds_eq_nil (line : Commented) : allFinds line.chars = [] := by
  rw [List.eq_nil_iff_forall_not_mem]
  intro f hf
  obtain ⟨e, he, hf⟩ := mem_allFinds.mp hf
  obtain ⟨s, hs, hf⟩ := Extractor.mem_findsFrom hf
  obtain ⟨w, c, hw, -⟩ := solid_of_mem_extractors he s f hf
  have hafter := congrArg List.length hw.2
  have hlength := congrArg List.length hs
  simp only [Spot.whole, List.length_append, List.length_reverse, List.length_cons, List.length_nil] at hafter hlength
  have hwhole : s.whole = [] ++ (line.chars ++ []) := by simpa [Spot.whole] using hs
  have hstart : ([] : List Char).length < s.after.length := by
    rw [List.length_nil]
    omega
  obtain ⟨-, -, m, hm, hopening⟩ := line.touches (.inl rfl) he hf hwhole hstart (by rw [List.append_nil]; omega)
  obtain ⟨-, rfl⟩ := List.append_eq_nil_iff.mp hm.symm
  obtain ⟨indent, word, clause, hnil, -, hword, -⟩ := hopening
  simp only [List.nil_eq, List.append_eq_nil_iff] at hnil
  rcases hword with rfl | rfl <;> exact absurd hnil.2.1 (by decide)

end Commented

/-! ## Before the comment -/

/-- A match that runs across the end of a line goes on behind it. -/
theorem stop_beyond {x y : List Char} (hx : Text.EndsLine x) (he : e ∈ extractors) (hs : s.whole = x) (hne : s.after ≠ [])
    (hf : f ∈ e.findsAt (s.followedBy y)) (hstop : f.stop.ahead y = false) :
    ∃ z, z ≠ [] ∧ y = z ++ f.stop.after ∧ (s.followedBy y).Reaches (s.after ++ z) f.stop := by
  obtain ⟨w, c, hw, hc⟩ := solid_of_mem_extractors he _ f hf
  obtain ⟨z, hz, hy⟩ := hw.exists_append hstop
  refine ⟨z, ?_, hy, hz ▸ hw⟩
  rintro rfl
  rw [List.append_nil] at hz
  rw [← hs] at hx
  obtain ⟨front, hfront⟩ := Spot.exists_after_eq hx hne
  exact hc (List.singleton_inj.mp (List.append_inj' (hz.trans hfront) rfl).2)

theorem endsLine_of_atLineStart (h : s.atLineStart = true) : Text.EndsLine s.before.reverse := by
  obtain ⟨before, after⟩ := s
  cases before with
  | nil => exact .inl rfl
  | cons c before =>
    obtain rfl : c = '\n' := by simpa [Spot.atLineStart] using h
    exact .inr ⟨before.reverse, List.reverse_cons⟩

namespace Commented

variable {a b : List Char}

theorem not_crosses_closed (line : Commented) (ha : Text.EndsLine a) (hclosed : ¬ LeavesOpen a) (he : e ∈ extractors) :
    ¬ e.Crosses a line.chars := by
  rintro ⟨s, f, hs, hne, hf, hstop⟩
  obtain ⟨z, hz, hchars, -⟩ := stop_beyond ha he hs hne hf hstop
  have hlen := congrArg List.length hchars
  have hpos := List.length_pos_iff.mpr hz
  have hpos' := List.length_pos_iff.mpr hne
  rw [List.length_append] at hlen
  have hwhole : (s.followedBy line.chars).whole = a ++ (line.chars ++ []) := by
    rw [← hs]
    simp [Spot.whole, Spot.followedBy]
  have hstart : ([] : List Char).length < (s.followedBy line.chars).after.length := by
    show ([] : List Char).length < (s.after ++ line.chars).length
    rw [List.length_append, List.length_nil]
    omega
  obtain ⟨-, hline, m, hm, hopening⟩ := line.touches ha he hf hwhole hstart (by rw [List.append_nil]; omega)
  exact hclosed ⟨_, m, hm, endsLine_of_atLineStart hline, hopening⟩

/-- Where no statement is open, the comment adds nothing to the imports before it. -/
theorem places_closed (line : Commented) (ha : Text.EndsLine a) (hclosed : ¬ LeavesOpen a) :
    places (a ++ line.chars) = places a := by
  rw [places_append ha fun e he => line.not_crosses_closed ha hclosed he, places_eq_nil line.allFinds_eq_nil]
  simp

end Commented

/-- Of the lines that start an open statement there is a first one. -/
theorem exists_first_opening {text : List Char} (h : LeavesOpen text) :
    ∃ front back, text = front ++ back ∧ Text.EndsLine front ∧ IsOpening back ∧
      ∀ v w, front = v ++ w → w ≠ [] → Text.EndsLine v → ¬ IsOpening (w ++ back) := by
  obtain ⟨front, back, heq, hfront, hback⟩ := h
  -- on the length of what stands before the statement
  induction hn : front.length using Nat.strongRecOn generalizing front back with
  | ind n ih =>
    by_cases hfirst : ∀ v w, front = v ++ w → w ≠ [] → Text.EndsLine v → ¬ IsOpening (w ++ back)
    · exact ⟨front, back, heq, hfront, hback, hfirst⟩
    · push Not at hfirst
      obtain ⟨v, w, rfl, hw, hv, hopening⟩ := hfirst
      have hpos := List.length_pos_iff.mpr hw
      rw [List.length_append] at hn
      exact ih v.length (by omega) v (w ++ back) (by rw [heq, List.append_assoc]) hv hopening rfl

/-- No match ends in what an open statement starts with. -/
theorem IsOpening.not_prefix {back z k head tail : List Char} (h : IsOpening back) (hz : z ≠ []) (hback : z <+: back)
    (hreads : Reads s head e tail) : tail ≠ k ++ z := by
  obtain ⟨indent, word, clause, rfl, hindent, hword, -⟩ := h
  intro htail
  cases hreads with
  | named => exact hz (List.append_eq_nil_iff.mp htail.symm).2
  | bare => exact hz (List.append_eq_nil_iff.mp htail.symm).2
  | call words close =>
    obtain ⟨blanks, rfl, hblanks⟩ := close
    have hz' : ∀ c ∈ z, isBlank c = true ∨ c = ')' := by
      intro c hc
      have hmem : c ∈ blanks ++ ")".toList := htail ▸ List.mem_append_right k hc
      rcases List.mem_append.mp hmem with hmem | hmem
      · exact .inl (hblanks c hmem)
      · exact .inr (List.mem_singleton.mp hmem)
    have hlast : ')' ∈ z := by
      rcases List.eq_nil_or_concat z with hnil | ⟨front, c, hconcat⟩
      · exact absurd hnil hz
      · rw [List.concat_eq_append] at hconcat
        rw [hconcat, ← List.append_assoc] at htail
        have hc : ')' = c := List.singleton_inj.mp (List.append_inj' htail rfl).2
        rw [hconcat, ← hc]
        simp
    obtain ⟨rest, hrest⟩ := hback
    rcases List.append_eq_append_iff.mp hrest with ⟨l, hl, -⟩ | ⟨l, rfl, hl⟩
    · have hmem : ')' ∈ indent := by
        rw [hl]
        exact List.mem_append_left l hlast
      exact absurd (hindent _ hmem) (by decide)
    · cases l with
      | nil =>
        rw [List.append_nil] at hlast
        exact absurd (hindent _ hlast) (by decide)
      | cons c l =>
        have hc := hz' c (by simp)
        have hfirst := congrArg List.head? hl
        rcases hword with rfl | rfl
        · obtain rfl : 'i' = c := Option.some.inj hfirst
          exact absurd hc (by decide)
        · obtain rfl : 'e' = c := Option.some.inj hfirst
          exact absurd hc (by decide)

/-- A match that starts before an open statement, and does not go on behind what there is of it, is complete before it. -/
theorem IsOpening.not_crossed {front back y : List Char} (h : IsOpening back) (hfront : Text.EndsLine front)
    (he : e ∈ extractors) (hs : s.whole = front) (hne : s.after ≠ []) (hf : f ∈ e.findsAt (s.followedBy (back ++ y)))
    (hstop : f.stop.ahead (back ++ y) = false) : f.stop.after.length < y.length := by
  obtain ⟨z, hz, hy, hw⟩ := stop_beyond hfront he hs hne hf hstop
  obtain ⟨head, spec, tail, hquotes, hreads⟩ := exists_reads he hf
  obtain ⟨o, o', ho, ho', hreach⟩ := hquotes.reaches
  by_contra hlen
  have hback : z <+: back := by
    have hlength := congrArg List.length hy
    rw [List.length_append, List.length_append] at hlength
    exact List.prefix_of_prefix_length_le ⟨_, hy.symm⟩ (List.prefix_append _ _) (by omega)
  have hunquoted : ∀ c ∈ z, isQuote c = false := fun c hc => h.unquoted c (hback.subset hc)
  have hwords : head ++ o :: (spec ++ o' :: tail) = s.after ++ z :=
    List.append_cancel_right (hreach.2.symm.trans hw.2)
  have hquote : ∃ c ∈ s.after, isQuote c = true := by
    have hmem : o ∈ s.after ++ z := by
      rw [← hwords]
      simp
    rcases List.mem_append.mp hmem with hmem | hmem
    · exact ⟨o, hmem, ho⟩
    · rw [hunquoted o hmem] at ho
      cases ho
  rw [← hs] at hfront
  obtain ⟨l, hl⟩ := hreads.tail_eq hquotes.plain ho (Spot.exists_after_eq hfront hne) hquote hwords
  exact h.not_prefix hz hback hreads hl

namespace Commented

variable {a b : List Char}

/-- An open statement is read up to the quote in the comment. -/
theorem isFromHead_opening (line : Commented) {back : List Char} (h : IsOpening back) : IsFromHead (back ++ line.opening) := by
  obtain ⟨indent, word, clause, rfl, hindent, hword, hplain, c, hc, hedge⟩ := h
  obtain ⟨indent', word', clause', spaces, hhead, hindent', hword', hclause', hspaces⟩ := line.isFromHead
  refine ⟨indent, word, clause ++ "//".toList ++ indent' ++ word' ++ clause', spaces, ?_, hindent, hword, ⟨?_, ?_, ?_⟩,
    hspaces⟩
  · rw [opening, hhead]
    simp
  · intro d hd
    simp only [List.mem_append] at hd
    rcases hd with (((hd | hd) | hd) | hd) | hd
    · exact hplain d hd
    · revert d
      decide
    · have hcases : d = ' ' ∨ d = '\t' := by simpa [isSpaceOrTab] using hindent' d hd
      rcases hcases with rfl | rfl <;> decide
    · rcases hword' with rfl | rfl
      · revert d
        decide
      · revert d
        decide
    · exact hclause'.plain d hd
  · exact ⟨c, by simp [List.head?_append, hc], hedge⟩
  · obtain ⟨d, hd, hedge'⟩ := hclause'.stops
    exact ⟨d, by rw [List.getLast?_append, hd]; rfl, hedge'⟩

theorem allFinds_open (line : Commented) {back : List Char} (h : IsOpening back) : allFinds (back ++ line.chars) ≠ [] := by
  let s : Spot := .start (back ++ line.chars)
  have hne : line.specifier.text.toList ≠ [] := by
    intro hnil
    exact line.specifier.nonempty (String.toList_eq_nil_iff.mp hnil)
  have hafter : s.after = (back ++ line.opening) ++ line.quote ::
      (line.specifier.text.toList ++ line.quote :: ([] ++ (line.rest.toList ++ ['\n']))) := by
    show back ++ line.chars = _
    simp [chars, closing]
  obtain ⟨f, hf⟩ := exists_find line.quoted line.quoted line.specifier.plain hne hafter
  have hmem : f ∈ importFrom.findsAt s := mem_importFrom.mpr ⟨rfl, _, _, line.isFromHead_opening h, hf⟩
  intro hnil
  have hnone := List.flatMap_eq_nil_iff.mp hnil importFrom (by simp [extractors])
  exact Extractor.finds_ne_nil hmem hnone

theorem not_crosses_first (line : Commented) {front back : List Char} (hfront : Text.EndsLine front) (hback : IsOpening back)
    (hends : Text.EndsLine (front ++ back)) (hfirst : ∀ v w, front = v ++ w → w ≠ [] → Text.EndsLine v → ¬ IsOpening (w ++ back))
    (he : e ∈ extractors) : ¬ e.Crosses front (back ++ line.chars) := by
  rintro ⟨s, f, hs, hne, hf, hstop⟩
  have hlen := hback.not_crossed hfront he hs hne hf hstop
  have hpos := List.length_pos_iff.mpr hne
  have hwhole : (s.followedBy (back ++ line.chars)).whole = (front ++ back) ++ (line.chars ++ []) := by
    rw [← hs]
    simp [Spot.whole, Spot.followedBy]
  have hstart : ([] : List Char).length < (s.followedBy (back ++ line.chars)).after.length := by
    show ([] : List Char).length < (s.after ++ (back ++ line.chars)).length
    rw [List.length_append, List.length_nil]
    omega
  obtain ⟨-, hline, m, hm, hopening⟩ := line.touches hends he hf hwhole hstart (by rwa [List.append_nil])
  have hm' : s.after ++ back = m := by
    rw [← hs, Spot.whole, List.append_assoc] at hm
    exact List.append_cancel_left hm
  exact hfirst _ s.after hs.symm hne (endsLine_of_atLineStart hline) (hm' ▸ hopening)

/-- Where a statement is open, the comment is read as its end. -/
theorem places_open (line : Commented) (ha : Text.EndsLine a) (hopen : LeavesOpen a) :
    (places (a ++ line.chars)).map (·.2) =
      (places a).map (·.2) ++ [⟨line.specifier.text, Text.newlines a + 1⟩] := by
  obtain ⟨front, back, rfl, hfront, hback, hfirst⟩ := exists_first_opening hopen
  have hbefore : places (front ++ back) = places front := by
    rw [places_append hfront, places_eq_nil (allFinds_unquoted hback.unquoted)]
    · simp
    · rintro e he ⟨s, f, hs, hne, hf, hstop⟩
      have hlen := hback.not_crossed (y := []) hfront he hs hne (by rwa [List.append_nil]) (by rwa [List.append_nil])
      exact absurd hlen (Nat.not_lt_zero _)
  have hpre : ∀ c ∈ back ++ line.opening, isQuote c = false :=
    List.forall_mem_append.mpr ⟨hback.unquoted, fun c hc => (line.opening_unquoted c hc).1⟩
  have hrest : ∀ c ∈ line.rest.toList ++ ['\n'], isQuote c = false :=
    List.forall_mem_append.mpr ⟨fun c hc => (line.rest_unquoted c hc).1, by decide⟩
  have hchars : back ++ line.chars = (back ++ line.opening) ++ line.quote ::
      (line.specifier.text.toList ++ line.quote :: (line.rest.toList ++ ['\n'])) := by
    simp [chars, closing]
  have hfound := line.allFinds_open hback
  have hlines : Text.newlines (back ++ line.opening) = Text.newlines back := by
    have hnone : Text.newlines line.opening = 0 := List.count_eq_zero.mpr fun h => (line.opening_unquoted _ h).2 rfl
    rw [Text.newlines_append, hnone]
    rfl
  rw [List.append_assoc, places_append hfront fun e he => line.not_crosses_first hfront hback ha hfirst he, hbefore]
  rw [hchars] at hfound ⊢
  rw [places_two_quotes hpre line.specifier.plain hrest line.quoted line.quoted hfound, hlines]
  simp [behind, Import.below, Text.newlines_append]
  omega

end Commented

/-! ## A line instead of the comment -/

/-- Static imports run across the end of a line only in an open statement. -/
theorem not_crosses_line {a b : List Char} (ha : Text.EndsLine a) (hclosed : ¬ LeavesOpen a) (hcall : ¬ importCall.Crosses a b)
    (he : e ∈ extractors) : ¬ e.Crosses a b := by
  by_cases hkind : e = importCall
  · rw [hkind]
    exact hcall
  rintro ⟨s, f, hs, hne, hf, hstop⟩
  obtain ⟨z, hz, -, hw⟩ := stop_beyond ha he hs hne hf hstop
  obtain ⟨head, spec, tail, hquotes, hreads⟩ := exists_reads he hf
  obtain ⟨o, o', ho, ho', hreach⟩ := hquotes.reaches
  have hwords : head ++ o :: (spec ++ o' :: tail) = s.after ++ z :=
    List.append_cancel_right (hreach.2.symm.trans hw.2)
  obtain ⟨front, hends⟩ : ∃ front, s.after = front ++ ['\n'] := by
    rw [← hs] at ha
    exact Spot.exists_after_eq ha hne
  have htail : tail = [] := by
    cases hreads with
    | named => rfl
    | bare => rfl
    | call => exact absurd rfl hkind
  have hunquoted : ∀ c ∈ s.after, isQuote c = false := by
    intro c hc
    by_contra hquote
    obtain ⟨l, hl⟩ := hreads.tail_eq hquotes.plain ho ⟨front, hends⟩ ⟨c, hc, by simpa using hquote⟩ hwords
    rw [htail] at hl
    exact hz (List.append_eq_nil_iff.mp hl.symm).2
  obtain ⟨k, rfl⟩ : ∃ k, head = s.after ++ k := by
    rcases Text.append_cons_cases hwords with ⟨k, hk, -⟩ | ⟨k, hk, -⟩
    · exact ⟨k, hk⟩
    · rw [hunquoted o (by rw [hk]; simp)] at ho
      cases ho
  have hfeed : '\n' ∈ s.after := by
    rw [hends]
    simp
  cases hreads with
  | named start words => exact hclosed ⟨_, s.after, hs.symm, endsLine_of_atLineStart start, words.isOpening hfeed⟩
  | bare start words =>
    obtain ⟨indent, spaces, heq, hindent, hspaces⟩ := words
    have hmem : '\n' ∈ indent ++ ("import".toList ++ spaces) := heq ▸ List.mem_append_left k hfeed
    simp only [List.mem_append] at hmem
    rcases hmem with hmem | hmem | hmem
    · exact ne_feed_of_isSpaceOrTab (hindent _ hmem) rfl
    · exact absurd hmem (by decide)
    · exact ne_feed_of_isSpaceOrTab (hspaces _ hmem) rfl
  | call => exact hkind rfl

theorem not_crosses_feed {b : List Char} (he : e ∈ extractors) : ¬ e.Crosses ['\n'] b := by
  rintro ⟨s, f, hs, hne, hf, -⟩
  obtain ⟨head, spec, tail, hquotes, hframe⟩ := exists_quotes he hf
  obtain ⟨q, q', -, -, hreach⟩ := hquotes.reaches
  obtain ⟨c, hc, hfeed⟩ := hframe.starts
  have hafter : s.after = ['\n'] := by
    rcases List.append_eq_singleton_iff.mp hs with ⟨-, h⟩ | ⟨-, h⟩
    · exact h
    · exact absurd h hne
  have hfirst : s.after ++ b = head ++ q :: (spec ++ q' :: tail) ++ f.stop.after := hreach.2
  obtain ⟨rest, rfl⟩ := List.head?_eq_some_iff.mp hc
  rw [hafter] at hfirst
  exact hfeed (List.cons.inj hfirst).1.symm

/-- An empty line after a text that ends a line and leaves nothing open moves what follows one line down. -/
theorem imports_blank_line {a b : String} (ha : Text.EndsLine a.toList) (hclosed : ¬ LeavesOpen a.toList)
    (hcall : ¬ importCall.Crosses a.toList ('\n' :: b.toList)) :
    imports (a ++ "\n" ++ b) = imports a ++ (imports b).map (Import.below (Text.newlines a.toList + 1)) := by
  have hchars : ("\n" ++ b).toList = '\n' :: b.toList := by simp
  have hfeed : imports "\n" = [] := by
    rw [imports_eq_places, places_eq_nil (allFinds_unquoted (by decide))]
    rfl
  have hbelow : imports ("\n" ++ b) = (imports b).map (Import.below 1) := by
    have happend : imports ("\n" ++ b) = imports "\n" ++ (imports b).map (Import.below 1) :=
      imports_append (.inr ⟨[], rfl⟩) fun e he => not_crosses_feed he
    rw [happend, hfeed, List.nil_append]
  rw [String.append_assoc, imports_append ha fun e he => not_crosses_line ha hclosed (hchars ▸ hcall) he, hbelow,
    List.map_map]
  refine congrArg _ (List.map_congr_left fun i _ => ?_)
  have hline : i.line + 1 + Text.newlines a.toList = i.line + (Text.newlines a.toList + 1) := by omega
  exact congrArg (Import.mk i.specifier) hline

theorem line_ne {a b : String} (ha : Text.EndsLine a.toList) {i : Import} (hi : i ∈ imports (a ++ "\n" ++ b)) :
    i.line ≠ Text.newlines a.toList + 1 := by
  have hchars : (a ++ "\n" ++ b).toList = a.toList ++ '\n' :: b.toList := by simp
  rw [imports_eq_places, hchars] at hi
  obtain ⟨p, hp, rfl⟩ := List.mem_map.mp hi
  obtain ⟨f, hf, rfl⟩ := mem_places.mp hp
  have hfirst : ∀ l, f.first.after ≠ '\n' :: l := by
    obtain ⟨s, head, spec, tail, -, hquotes, -⟩ := quotes_of_mem_allFinds hf
    intro l hl
    rw [hquotes.body.2] at hl
    cases spec with
    | nil => exact hquotes.nonempty rfl
    | cons c spec => exact ne_feed_of_inSpecifier (hquotes.plain c (by simp)) (List.cons.inj hl).1
  have hcount : Text.newlines f.first.before = Text.newlines f.first.before.reverse := (Text.newlines_reverse _).symm
  show Text.newlines f.first.before + 1 ≠ Text.newlines a.toList + 1
  rw [hcount]
  intro hline
  rcases List.append_eq_append_iff.mp (whole_of_mem_allFinds hf) with ⟨m, hm, hafter⟩ | ⟨k, hk, hafter⟩
  · by_cases hnil : m = []
    · rw [hnil] at hafter
      exact hfirst _ hafter
    · rw [hm] at ha
      obtain ⟨front, hfront⟩ := ha.suffix hnil
      have hfeeds : Text.newlines m = Text.newlines front + 1 := by
        rw [hfront, Text.newlines_append]
        rfl
      rw [hm, Text.newlines_append] at hline
      omega
  · cases k with
    | nil => exact hfirst _ hafter.symm
    | cons c k =>
      obtain ⟨rfl, -⟩ := List.cons.inj hafter
      have hfeeds : Text.newlines ('\n' :: k) = Text.newlines k + 1 := List.count_cons_self
      rw [hk, Text.newlines_append, hfeeds] at hline
      omega

/-! ## Imports -/

theorem imports_before {a b : String} (line : Commented) (ha : Text.EndsLine a.toList) :
    imports (a ++ line.text ++ "\n" ++ b) =
      (places (a.toList ++ line.chars)).map (·.2) ++ (imports b).map (Import.below (Text.newlines a.toList + 1)) := by
  have hchars : (a ++ (line.text ++ "\n")).toList = a.toList ++ line.chars := by rw [String.toList_append, line.toList_text]
  have hends : Text.EndsLine (a ++ (line.text ++ "\n")).toList := by
    rw [hchars]
    exact .inr ⟨a.toList ++ line.body, by rw [line.chars_eq_body, List.append_assoc]⟩
  have hassoc : a ++ line.text ++ "\n" ++ b = a ++ (line.text ++ "\n") ++ b := by simp only [String.append_assoc]
  rw [hassoc, imports_append hends fun e he => hchars ▸ line.not_crosses ha he, imports_eq_places, hchars,
    Text.newlines_append, line.newlines_chars]

/-- A commented import is read where a statement before it is open, and only there. What stands before it and what
    follows are read as if there were only a line end, unless a call runs across that line end. -/
theorem imports_commented {a : String} (b : String) (line : Commented) (ha : Text.EndsLine a.toList) :
    (LeavesOpen a.toList →
      imports (a ++ line.text ++ "\n" ++ b) =
        imports a ++ ⟨line.specifier.text, Text.newlines a.toList + 1⟩ ::
          (imports b).map (Import.below (Text.newlines a.toList + 1))) ∧
    (¬ LeavesOpen a.toList →
      imports (a ++ line.text ++ "\n" ++ b) =
        imports a ++ (imports b).map (Import.below (Text.newlines a.toList + 1))) ∧
    (¬ importCall.Crosses a.toList ('\n' :: b.toList) →
      (imports (a ++ line.text ++ "\n" ++ b) = imports (a ++ "\n" ++ b) ↔ ¬ LeavesOpen a.toList)) := by
  have hopen : LeavesOpen a.toList → imports (a ++ line.text ++ "\n" ++ b) =
      imports a ++ ⟨line.specifier.text, Text.newlines a.toList + 1⟩ ::
        (imports b).map (Import.below (Text.newlines a.toList + 1)) := by
    intro h
    rw [imports_before line ha, line.places_open ha h, imports_eq_places a]
    simp
  have hclosed : ¬ LeavesOpen a.toList → imports (a ++ line.text ++ "\n" ++ b) =
      imports a ++ (imports b).map (Import.below (Text.newlines a.toList + 1)) := by
    intro h
    rw [imports_before line ha, line.places_closed ha h, imports_eq_places a]
  refine ⟨hopen, hclosed, fun hcall => ⟨?_, ?_⟩⟩
  · intro heq h
    rw [hopen h] at heq
    have hmem : ⟨line.specifier.text, Text.newlines a.toList + 1⟩ ∈ imports (a ++ "\n" ++ b) := by
      rw [← heq]
      simp
    exact line_ne ha hmem rfl
  · intro h
    rw [hclosed h, imports_blank_line ha h hcall]

def remark : Commented where
  head := " import \x7b y \x7d from "
  quote := '\''
  specifier := ⟨"./y", by decide, by decide⟩
  rest := ";"
  isFromHead := ⟨[' '], "import".toList, " \x7b y \x7d ".toList, [' '], by decide, by decide, .inl rfl,
    ⟨by decide, ⟨' ', by decide, by decide⟩, ⟨' ', by decide, by decide⟩⟩, by decide⟩
  inLine := by decide
  quoted := by decide
  rest_plain := by decide

/-- Behind a statement that ends with its line, not with a semicolon, the commented import is read, and the imports
    that follow are read after it. -/
theorem imports_commented_remark :
    Text.EndsLine "export const one = 1\n".toList ∧ LeavesOpen "export const one = 1\n".toList ∧
      imports ("export const one = 1\n" ++ remark.text ++ "\n" ++ "import 'z';\n") = [⟨"./y", 2⟩, ⟨"z", 3⟩] := by
  have hends : Text.EndsLine "export const one = 1\n".toList := .inr ⟨"export const one = 1".toList, by decide⟩
  have hopen : LeavesOpen "export const one = 1\n".toList :=
    ⟨[], "export const one = 1\n".toList, rfl, .inl rfl, [], "export".toList, " const one = 1\n".toList, by decide, by decide,
      .inr rfl, by decide, ' ', by decide, by decide⟩
  refine ⟨hends, hopen, ?_⟩
  rw [(imports_commented "import 'z';\n" remark hends).1 hopen]
  decide +kernel

/-- A commented import is not ignored behind a statement that no semicolon ends. -/
theorem commented_import_read :
    imports ("export const one = 1\n" ++ "// import \x7b y \x7d from './y';" ++ "\n" ++ "") ≠
      imports ("export const one = 1\n" ++ "\n" ++ "") := by
  have hread : imports ("export const one = 1\n" ++ "// import \x7b y \x7d from './y';" ++ "\n" ++ "") = [⟨"./y", 2⟩] := by
    decide +kernel
  have hplain : imports ("export const one = 1\n" ++ "\n" ++ "") = [] := by decide +kernel
  rw [hread, hplain]
  exact List.cons_ne_nil _ _

end LayerLint.Source
