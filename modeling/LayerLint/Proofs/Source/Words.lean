/-
  LayerLint.Proofs.Source.Words: the words that the extractors of imports read.

  Each extractor finds a match exactly where the text goes on with words of its form: `import a from 's'` at the start
  of a line (`mem_importFrom`), `import 's'` there (`mem_importBare`), or `require('s')` with no word right before it
  (`mem_importCall`). So there are three kinds of matches (`exists_reads`). In all of them the specifier stands between the
  only two quotes of the match, and there is no semicolon outside of it (`exists_quotes`).
-/

import LayerLint.Source.Import
import LayerLint.Proofs.Pattern.Borders
import LayerLint.Proofs.Pattern.Words
import LayerLint.Proofs.Text.Split

namespace LayerLint.Source

open Pattern
open Text (isSpaceOrTab isBlank)

def extractors : List Extractor := [importFrom, importBare, importCall]

theorem mem_extractors {e : Extractor} : e ∈ extractors ↔ e = importFrom ∨ e = importBare ∨ e = importCall := by
  simp [extractors]

theorem body_of_mem_extractors {e : Extractor} (h : e ∈ extractors) : e.body = specifier := by
  rcases mem_extractors.mp h with rfl | rfl | rfl <;> rfl

def inClause (c : Char) : Bool := !(c == ';' || isQuote c || isBacktick c)

def inSpecifier (c : Char) : Bool := !(isQuote c || c == '\n')

/-! ## Words -/

/-- What stands between `import` and `from`: something that both words are set off from. -/
structure IsClause (clause : List Char) : Prop where
  plain : ∀ c ∈ clause, inClause c = true
  starts : ∃ c, clause.head? = some c ∧ Text.isWord c = false
  stops : ∃ c, clause.getLast? = some c ∧ Text.isWord c = false

/-- `import a from`, up to the opening quote. -/
def IsFromHead (head : List Char) : Prop :=
  ∃ indent word clause spaces, head = indent ++ (word ++ (clause ++ ("from".toList ++ spaces))) ∧
    (∀ c ∈ indent, isSpaceOrTab c = true) ∧ (word = "import".toList ∨ word = "export".toList) ∧ IsClause clause ∧
    ∀ c ∈ spaces, isSpaceOrTab c = true

def IsBareHead (head : List Char) : Prop :=
  ∃ indent spaces, head = indent ++ ("import".toList ++ spaces) ∧ (∀ c ∈ indent, isSpaceOrTab c = true) ∧
    ∀ c ∈ spaces, isSpaceOrTab c = true

def IsCallHead (head : List Char) : Prop :=
  ∃ word blanks more, head = word ++ (blanks ++ ("(".toList ++ more)) ∧
    (word = "require".toList ∨ word = "import".toList) ∧ (∀ c ∈ blanks, isBlank c = true) ∧
    ∀ c ∈ more, isBlank c = true

def IsCallTail (tail : List Char) : Prop := ∃ blanks, tail = blanks ++ ")".toList ∧ ∀ c ∈ blanks, isBlank c = true

/-- A match from a spot: what leads to the opening quote, the specifier, and what follows the closing quote. -/
structure Quotes (s : Spot) (f : Find) (head spec tail : List Char) : Prop where
  lead : ∃ q, isQuote q = true ∧ s.Reaches (head ++ [q]) f.first
  body : f.first.Reaches spec f.last
  trail : ∃ q, isQuote q = true ∧ f.last.Reaches (q :: tail) f.stop
  plain : ∀ c ∈ spec, inSpecifier c = true
  nonempty : spec ≠ []

variable {s t : Spot} {f : Find}

theorem mem_ends_specifier :
    t ∈ specifier.ends s ↔ ∃ spec, s.Reaches spec t ∧ (∀ c ∈ spec, inSpecifier c = true) ∧ spec ≠ [] := by
  rw [specifier, oneOrMore, mem_ends_run]
  refine exists_congr fun spec => and_congr_right fun _ => and_congr_right fun _ => ?_
  exact List.length_pos_iff

/-- The specifier is found between its quotes. -/
theorem mem_findsAt_iff {lead : Pattern} (trail : List Pattern) {Start : Prop} {Head Tail : List Char → Prop}
    (hlead : ∀ t, t ∈ lead.ends s ↔ Start ∧ ∃ head q, Head head ∧ isQuote q = true ∧ s.Reaches (head ++ [q]) t)
    (htrail : ∀ t u, u ∈ (inOrder trail).ends t ↔ ∃ tail, Tail tail ∧ t.Reaches tail u) :
    f ∈ Extractor.findsAt ⟨lead, specifier, inOrder (one isQuote :: trail)⟩ s ↔
      Start ∧ ∃ head spec tail, Head head ∧ Tail tail ∧ Quotes s f head spec tail := by
  rw [Extractor.mem_findsAt]
  simp only [mem_ends_specifier, mem_ends_inOrder_cons, hlead, htrail, mem_ends_one]
  constructor
  · rintro ⟨⟨hs, head, q, hhead, hq, hfirst⟩, ⟨spec, hspec, hplain, hne⟩, u, ⟨q', hq', hu⟩, tail, htail, hstop⟩
    exact ⟨hs, head, spec, tail, hhead, htail, ⟨q, hq, hfirst⟩, hspec, ⟨q', hq', hu.trans hstop⟩, hplain, hne⟩
  · rintro ⟨hs, head, spec, tail, hhead, htail, ⟨q, hq, hfirst⟩, hspec, ⟨q', hq', hstop⟩, hplain, hne⟩
    rw [← List.singleton_append, Spot.reaches_append] at hstop
    obtain ⟨u, hu, hstop⟩ := hstop
    exact ⟨⟨hs, head, q, hhead, hq, hfirst⟩, ⟨spec, hspec, hplain, hne⟩, u, ⟨q', hq', hu⟩, tail, htail, hstop⟩

theorem mem_ends_nothing {u : Spot} : u ∈ (inOrder []).ends t ↔ ∃ tail, tail = [] ∧ t.Reaches tail u := by
  rw [mem_ends_inOrder_nil]
  simp [Spot.reaches_nil]

theorem mem_importBare :
    f ∈ importBare.findsAt s ↔ s.atLineStart = true ∧ ∃ head spec, IsBareHead head ∧ Quotes s f head spec [] := by
  have hlead : ∀ t, t ∈ importBare.lead.ends s ↔
      s.atLineStart = true ∧ ∃ head q, IsBareHead head ∧ isQuote q = true ∧ s.Reaches (head ++ [q]) t := by
    intro t
    simp only [importBare, mem_ends_inOrder_cons, mem_ends_inOrder_nil, mem_ends_lineStart, mem_ends_zeroOrMore,
      mem_ends_text, mem_ends_one]
    constructor
    · rintro ⟨a, ⟨rfl, hs⟩, b, ⟨indent, hb, hindent⟩, d, hd, u, ⟨spaces, hu, hspaces⟩, t, ⟨q, hq, ht⟩, rfl⟩
      refine ⟨hs, _, q, ⟨indent, spaces, rfl, hindent, hspaces⟩, hq, ?_⟩
      simpa using hb.trans (hd.trans (hu.trans ht))
    · rintro ⟨hs, head, q, ⟨indent, spaces, rfl, hindent, hspaces⟩, hq, ht⟩
      simp only [List.append_assoc, Spot.reaches_append] at ht
      obtain ⟨b, hb, d, hd, u, hu, ht⟩ := ht
      exact ⟨s, ⟨rfl, hs⟩, b, ⟨indent, hb, hindent⟩, d, hd, u, ⟨spaces, hu, hspaces⟩, t, ⟨q, hq, ht⟩, rfl⟩
  refine (mem_findsAt_iff [] hlead fun t u => mem_ends_nothing).trans ?_
  simp

/-- Between two words there is a clause exactly if both words end there. -/
theorem edges_iff {clause : List Char} {u v : Spot} (h : u.Reaches clause v)
    (hu : u.before.head?.any Text.isWord = true) (hv : v.after.head?.any Text.isWord = true) :
    u.atWordEdge = true ∧ v.atWordEdge = true ↔
      (∃ c, clause.head? = some c ∧ Text.isWord c = false) ∧ ∃ c, clause.getLast? = some c ∧ Text.isWord c = false := by
  unfold Spot.atWordEdge
  rw [hu, hv]
  cases clause with
  | nil =>
    obtain rfl := Spot.reaches_nil.mp h
    simp [hu, hv]
  | cons c clause =>
    have hafter : u.after.head? = some c := by rw [h.2]; rfl
    have hbefore : v.before.head? = (c :: clause).getLast? := by
      rw [h.1, List.head?_append, List.head?_reverse, List.getLast?_cons]
      rfl
    rw [hafter, hbefore, List.getLast?_cons]
    simp

theorem mem_importFrom :
    f ∈ importFrom.findsAt s ↔ s.atLineStart = true ∧ ∃ head spec, IsFromHead head ∧ Quotes s f head spec [] := by
  have hlead : ∀ t, t ∈ importFrom.lead.ends s ↔
      s.atLineStart = true ∧ ∃ head q, IsFromHead head ∧ isQuote q = true ∧ s.Reaches (head ++ [q]) t := by
    intro t
    have hword : ∀ {word : List Char} {a b : Spot}, (word = "import".toList ∨ word = "export".toList) →
        a.Reaches word b → b.before.head?.any Text.isWord = true := by
      intro word a b hword hab
      rw [hab.1]
      rcases hword with rfl | rfl <;> rfl
    have hfrom : ∀ {a b : Spot}, a.Reaches "from".toList b → a.after.head?.any Text.isWord = true := by
      intro a b hab
      rw [hab.2]
      rfl
    simp only [importFrom, oneOf, mem_ends_inOrder_cons, mem_ends_inOrder_nil, mem_ends_lineStart, mem_ends_zeroOrMore,
      mem_ends_text, mem_ends_one, mem_ends_either, mem_ends_wordEdge, mem_ends_run]
    constructor
    · rintro ⟨a, ⟨rfl, hs⟩, b, ⟨indent, hb, hindent⟩, d, hd, d, ⟨rfl, hedge⟩, m, ⟨clause, hm, hclause, -⟩, m,
        ⟨rfl, hedge'⟩, n, hn, u, ⟨spaces, hu, hspaces⟩, t, ⟨q, hq, ht⟩, rfl⟩
      obtain ⟨word, hw, hd⟩ : ∃ word, (word = "import".toList ∨ word = "export".toList) ∧ b.Reaches word d := by
        rcases hd with hd | hd
        · exact ⟨_, .inl rfl, hd⟩
        · exact ⟨_, .inr rfl, hd⟩
      obtain ⟨hstarts, hstops⟩ := (edges_iff hm (hword hw hd) (hfrom hn)).mp ⟨hedge, hedge'⟩
      refine ⟨hs, _, q, ⟨indent, word, clause, spaces, rfl, hindent, hw, ⟨hclause, hstarts, hstops⟩, hspaces⟩, hq, ?_⟩
      simpa using hb.trans (hd.trans (hm.trans (hn.trans (hu.trans ht))))
    · rintro ⟨hs, head, q, ⟨indent, word, clause, spaces, rfl, hindent, hw, hclause, hspaces⟩, hq, ht⟩
      simp only [List.append_assoc, Spot.reaches_append] at ht
      obtain ⟨b, hb, d, hd, m, hm, n, hn, u, hu, ht⟩ := ht
      obtain ⟨hedge, hedge'⟩ := (edges_iff hm (hword hw hd) (hfrom hn)).mpr ⟨hclause.starts, hclause.stops⟩
      have hd : b.Reaches "import".toList d ∨ b.Reaches "export".toList d := by
        rcases hw with rfl | rfl
        · exact .inl hd
        · exact .inr hd
      exact ⟨s, ⟨rfl, hs⟩, b, ⟨indent, hb, hindent⟩, d, hd, d, ⟨rfl, hedge⟩, m,
        ⟨clause, hm, hclause.plain, Nat.zero_le _⟩, m, ⟨rfl, hedge'⟩, n, hn, u, ⟨spaces, hu, hspaces⟩, t, ⟨q, hq, ht⟩,
        rfl⟩
  refine (mem_findsAt_iff [] hlead fun t u => mem_ends_nothing).trans ?_
  simp

theorem mem_importCall :
    f ∈ importCall.findsAt s ↔
      s.before.head?.any Text.isWord = false ∧
        ∃ head spec tail, IsCallHead head ∧ IsCallTail tail ∧ Quotes s f head spec tail := by
  have hlead : ∀ t, t ∈ importCall.lead.ends s ↔
      s.before.head?.any Text.isWord = false ∧
        ∃ head q, IsCallHead head ∧ isQuote q = true ∧ s.Reaches (head ++ [q]) t := by
    intro t
    have hedge : ∀ {word : List Char} {b : Spot}, (word = "require".toList ∨ word = "import".toList) →
        s.Reaches word b → (s.atWordEdge = true ↔ s.before.head?.any Text.isWord = false) := by
      intro word b hword hb
      have hafter : s.after.head?.any Text.isWord = true := by
        rw [hb.2]
        rcases hword with rfl | rfl <;> rfl
      unfold Spot.atWordEdge
      rw [hafter]
      simp
    simp only [importCall, oneOf, mem_ends_inOrder_cons, mem_ends_inOrder_nil, mem_ends_zeroOrMore, mem_ends_text,
      mem_ends_one, mem_ends_either, mem_ends_wordEdge]
    constructor
    · rintro ⟨a, ⟨rfl, hs⟩, b, hb, d, ⟨blanks, hd, hblanks⟩, m, hm, u, ⟨more, hu, hmore⟩, t, ⟨q, hq, ht⟩, rfl⟩
      obtain ⟨word, hw, hb⟩ : ∃ word, (word = "require".toList ∨ word = "import".toList) ∧ a.Reaches word b := by
        rcases hb with hb | hb
        · exact ⟨_, .inl rfl, hb⟩
        · exact ⟨_, .inr rfl, hb⟩
      refine ⟨(hedge hw hb).mp hs, _, q, ⟨word, blanks, more, rfl, hw, hblanks, hmore⟩, hq, ?_⟩
      simpa using hb.trans (hd.trans (hm.trans (hu.trans ht)))
    · rintro ⟨hs, head, q, ⟨word, blanks, more, rfl, hw, hblanks, hmore⟩, hq, ht⟩
      simp only [List.append_assoc, Spot.reaches_append] at ht
      obtain ⟨b, hb, d, hd, m, hm, u, hu, ht⟩ := ht
      have hstart := (hedge hw hb).mpr hs
      have hb : s.Reaches "require".toList b ∨ s.Reaches "import".toList b := by
        rcases hw with rfl | rfl
        · exact .inl hb
        · exact .inr hb
      exact ⟨s, ⟨rfl, hstart⟩, b, hb, d, ⟨blanks, hd, hblanks⟩, m, hm, u, ⟨more, hu, hmore⟩, t, ⟨q, hq, ht⟩, rfl⟩
  refine mem_findsAt_iff _ hlead fun t u => ?_
  simp only [mem_ends_inOrder_cons, mem_ends_inOrder_nil, mem_ends_zeroOrMore, mem_ends_text]
  constructor
  · rintro ⟨a, ⟨blanks, ha, hblanks⟩, b, hb, rfl⟩
    exact ⟨_, ⟨blanks, rfl, hblanks⟩, ha.trans hb⟩
  · rintro ⟨tail, ⟨blanks, rfl, hblanks⟩, h⟩
    obtain ⟨a, ha, hb⟩ := Spot.reaches_append.mp h
    exact ⟨a, ⟨blanks, ha, hblanks⟩, u, hb, rfl⟩

/-! ## Around a specifier -/

theorem quote_cases {c : Char} (h : isQuote c = true) : c = '\'' ∨ c = '"' := by simpa [isQuote] using h

def isPlain (c : Char) : Bool := !(isQuote c || c == ';')

theorem isPlain_of_isBlank {c : Char} (h : isBlank c = true) : isPlain c = true := by
  cases hc : isPlain c with
  | true => rfl
  | false =>
    simp only [isPlain, Bool.not_eq_false', Bool.or_eq_true, beq_iff_eq] at hc
    rcases hc with hc | rfl
    · rcases quote_cases hc with rfl | rfl <;> exact absurd h (by decide)
    · exact absurd h (by decide)

theorem isBlank_of_isSpaceOrTab {c : Char} (h : isSpaceOrTab c = true) : isBlank c = true := by
  have hcases : c = ' ' ∨ c = '\t' := by simpa [isSpaceOrTab] using h
  rcases hcases with rfl | rfl <;> decide

theorem isPlain_of_inClause {c : Char} (h : inClause c = true) : isPlain c = true := by
  simp only [inClause, isPlain, Bool.not_eq_true', Bool.or_eq_false_iff] at h ⊢
  exact ⟨h.1.2, h.1.1⟩

structure Frame (head tail : List Char) : Prop where
  head_plain : ∀ c ∈ head, isPlain c = true
  tail_plain : ∀ c ∈ tail, isPlain c = true
  starts : ∃ c, head.head? = some c ∧ c ≠ '\n'
  stops : ∀ c, tail.getLast? = some c → c ≠ '\n'

theorem ne_feed_of_isSpaceOrTab {c : Char} (h : isSpaceOrTab c = true) : c ≠ '\n' := by
  rintro rfl
  exact absurd h (by decide)

/-- Behind blanks comes what follows them. -/
theorem starts_indented {indent rest : List Char} (h : ∀ c ∈ indent, isSpaceOrTab c = true)
    (hrest : ∃ c, rest.head? = some c ∧ c ≠ '\n') : ∃ c, (indent ++ rest).head? = some c ∧ c ≠ '\n' := by
  cases indent with
  | nil => exact hrest
  | cons c indent => exact ⟨c, rfl, ne_feed_of_isSpaceOrTab (h c (by simp))⟩

theorem IsFromHead.frame {head : List Char} (h : IsFromHead head) : Frame head [] := by
  obtain ⟨indent, word, clause, spaces, rfl, hindent, hword, hclause, hspaces⟩ := h
  have hplain : ∀ c ∈ word, isPlain c = true := by rcases hword with rfl | rfl <;> decide
  have hfrom : ∀ c ∈ "from".toList, isPlain c = true := by decide
  refine ⟨?_, by simp, starts_indented hindent ?_, by simp⟩
  · intro c hc
    simp only [List.mem_append] at hc
    rcases hc with hc | hc | hc | hc | hc
    · exact isPlain_of_isBlank (isBlank_of_isSpaceOrTab (hindent c hc))
    · exact hplain c hc
    · exact isPlain_of_inClause (hclause.plain c hc)
    · exact hfrom c hc
    · exact isPlain_of_isBlank (isBlank_of_isSpaceOrTab (hspaces c hc))
  · rcases hword with rfl | rfl
    · exact ⟨'i', rfl, by decide⟩
    · exact ⟨'e', rfl, by decide⟩

theorem IsBareHead.frame {head : List Char} (h : IsBareHead head) : Frame head [] := by
  obtain ⟨indent, spaces, rfl, hindent, hspaces⟩ := h
  have hword : ∀ c ∈ "import".toList, isPlain c = true := by decide
  refine ⟨?_, by simp, starts_indented hindent ⟨'i', rfl, by decide⟩, by simp⟩
  intro c hc
  simp only [List.mem_append] at hc
  rcases hc with hc | hc | hc
  · exact isPlain_of_isBlank (isBlank_of_isSpaceOrTab (hindent c hc))
  · exact hword c hc
  · exact isPlain_of_isBlank (isBlank_of_isSpaceOrTab (hspaces c hc))

theorem IsCallHead.starts {head : List Char} (h : IsCallHead head) : head.head? = some 'r' ∨ head.head? = some 'i' := by
  obtain ⟨word, blanks, more, rfl, hword, -⟩ := h
  rcases hword with rfl | rfl
  · exact .inl rfl
  · exact .inr rfl

theorem IsCallHead.frame {head tail : List Char} (h : IsCallHead head) (ht : IsCallTail tail) : Frame head tail := by
  have hstarts := h.starts
  obtain ⟨word, blanks, more, rfl, hword, hblanks, hmore⟩ := h
  obtain ⟨space, rfl, hspace⟩ := ht
  have hplain : ∀ c ∈ word, isPlain c = true := by rcases hword with rfl | rfl <;> decide
  have hopen : ∀ c ∈ "(".toList, isPlain c = true := by decide
  have hclose : ∀ c ∈ ")".toList, isPlain c = true := by decide
  refine ⟨?_, ?_, ?_, ?_⟩
  · intro c hc
    simp only [List.mem_append] at hc
    rcases hc with hc | hc | hc | hc
    · exact hplain c hc
    · exact isPlain_of_isBlank (hblanks c hc)
    · exact hopen c hc
    · exact isPlain_of_isBlank (hmore c hc)
  · intro c hc
    rcases List.mem_append.mp hc with hc | hc
    · exact isPlain_of_isBlank (hspace c hc)
    · exact hclose c hc
  · rcases hstarts with hr | hi
    · exact ⟨'r', hr, by decide⟩
    · exact ⟨'i', hi, by decide⟩
  · intro c hc
    rw [List.getLast?_append] at hc
    obtain rfl : ')' = c := Option.some.inj hc
    decide

inductive Reads (s : Spot) (head : List Char) : Extractor → List Char → Prop
  | named (start : s.atLineStart = true) (words : IsFromHead head) : Reads s head importFrom []
  | bare (start : s.atLineStart = true) (words : IsBareHead head) : Reads s head importBare []
  | call {tail : List Char} (words : IsCallHead head) (close : IsCallTail tail) : Reads s head importCall tail

theorem exists_reads {e : Extractor} (he : e ∈ extractors) (hf : f ∈ e.findsAt s) :
    ∃ head spec tail, Quotes s f head spec tail ∧ Reads s head e tail := by
  rcases mem_extractors.mp he with rfl | rfl | rfl
  · obtain ⟨hs, head, spec, hhead, hquotes⟩ := mem_importFrom.mp hf
    exact ⟨head, spec, [], hquotes, .named hs hhead⟩
  · obtain ⟨hs, head, spec, hhead, hquotes⟩ := mem_importBare.mp hf
    exact ⟨head, spec, [], hquotes, .bare hs hhead⟩
  · obtain ⟨-, head, spec, tail, hhead, htail, hquotes⟩ := mem_importCall.mp hf
    exact ⟨head, spec, tail, hquotes, .call hhead htail⟩

theorem Reads.frame {e : Extractor} {head tail : List Char} (h : Reads s head e tail) : Frame head tail := by
  cases h with
  | named _ words => exact words.frame
  | bare _ words => exact words.frame
  | call words close => exact words.frame close

/-- Whichever extractor finds it, a match has its specifier between the only two quotes in it. -/
theorem exists_quotes {e : Extractor} (he : e ∈ extractors) (hf : f ∈ e.findsAt s) :
    ∃ head spec tail, Quotes s f head spec tail ∧ Frame head tail := by
  obtain ⟨head, spec, tail, hquotes, hreads⟩ := exists_reads he hf
  exact ⟨head, spec, tail, hquotes, hreads.frame⟩

theorem Quotes.reaches {head spec tail : List Char} (h : Quotes s f head spec tail) :
    ∃ q q', isQuote q = true ∧ isQuote q' = true ∧ s.Reaches (head ++ q :: (spec ++ q' :: tail)) f.stop := by
  obtain ⟨q, hq, hfirst⟩ := h.lead
  obtain ⟨q', hq', hstop⟩ := h.trail
  refine ⟨q, q', hq, hq', ?_⟩
  simpa using hfirst.trans (h.body.trans hstop)

/-- Where the text goes on with a head and a specifier in quotes, there are spots for a match. -/
theorem exists_find {head spec tail rest : List Char} {q q' : Char} (hq : isQuote q = true) (hq' : isQuote q' = true)
    (hspec : ∀ c ∈ spec, inSpecifier c = true) (hne : spec ≠ [])
    (hs : s.after = head ++ q :: (spec ++ q' :: (tail ++ rest))) : ∃ f, Quotes s f head spec tail := by
  have hreach : s.Reaches ((head ++ [q]) ++ (spec ++ q' :: tail))
      ⟨((head ++ [q]) ++ (spec ++ q' :: tail)).reverse ++ s.before, rest⟩ := ⟨rfl, by rw [hs]; simp⟩
  obtain ⟨first, hlead, hreach⟩ := Spot.reaches_append.mp hreach
  obtain ⟨last, hbody, htrail⟩ := Spot.reaches_append.mp hreach
  exact ⟨⟨first, last, _⟩, ⟨q, hq, hlead⟩, hbody, ⟨q', hq', htrail⟩, hspec, hne⟩

/-- A match ends with its closing quote, or with the bracket behind it. -/
theorem solid_of_mem_extractors {e : Extractor} (he : e ∈ extractors) : e.Solid := by
  intro s f hf
  obtain ⟨head, spec, tail, hquotes, hframe⟩ := exists_quotes he hf
  obtain ⟨q, q', -, hq', hreach⟩ := hquotes.reaches
  rcases List.eq_nil_or_concat tail with rfl | ⟨front, c, rfl⟩
  · refine ⟨head ++ q :: spec, q', by simpa using hreach, ?_⟩
    rintro rfl
    exact absurd hq' (by decide)
  · refine ⟨head ++ q :: (spec ++ q' :: front), c, by simpa using hreach, ?_⟩
    exact hframe.stops c (by simp)

end LayerLint.Source
