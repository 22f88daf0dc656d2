/-
  LayerLint.Proofs.Source.Headings: how the words before an exported name are read.

  The words of an export statement are written with one blank behind each (`phrase`). A pattern that reads a word and the
  blanks behind it reads the next word of the phrase or nothing (`Says.reaches`), and no modifier is a keyword, so the
  words of a declaration are read in one way (`mem_lead_phrase`). Behind them stands the name, if there is one
  (`head?_findsAt_declaration`, `findsAt_declaration_eq_nil`). A line with more than one word behind `export` is neither a
  list nor a default name (`findsAt_list_eq_nil`, `findsAt_default_eq_nil`).
-/

import LayerLint.Proofs.Source.Exports

namespace LayerLint.Source

open Pattern
open Text (isSpaceOrTab)

variable {s t u : Spot} {f : Find} {rest : List Char} {word v : String} {more : List String}

/-! ## Phrases -/

def phrase (words : List String) : List Char := words.flatMap fun w => w.toList ++ [' ']

theorem phrase_cons (w : String) (words : List String) : phrase (w :: words) = w.toList ++ ' ' :: phrase words := by
  simp [phrase]

theorem phrase_cons_append (w : String) (words : List String) (rest : List Char) :
    phrase (w :: words) ++ rest = w.toList ++ ' ' :: (phrase words ++ rest) := by
  rw [phrase_cons, List.append_assoc, List.cons_append]

theorem phrase_append (v w : List String) : phrase (v ++ w) = phrase v ++ phrase w := List.flatMap_append

theorem phrase_singleton (w : String) : phrase [w] = w.toList ++ [' '] := List.flatMap_singleton _ _

def IsWord (w : String) : Prop := w.toList ≠ [] ∧ ∀ c ∈ w.toList, (isNamePart c || c == '*') = true

instance (w : String) : Decidable (IsWord w) := inferInstanceAs (Decidable (_ ∧ _))

theorem IsWord.ne {w : String} (h : IsWord w) {c d : Char} (hc : c ∈ w.toList)
    (hd : (isNamePart d || d == '*') = false) : c ≠ d := by
  rintro rfl
  rw [h.2 c hc] at hd
  cases hd

theorem IsWord.not_space {w : String} (h : IsWord w) : ∀ c ∈ w.toList, isSpaceOrTab c = false := by
  intro c hc
  simp only [isSpaceOrTab, Bool.or_eq_false_iff, beq_eq_false_iff_ne]
  exact ⟨h.ne hc (by decide), h.ne hc (by decide)⟩

/-- Something comes first, and it is no blank, no semicolon and no line feed. -/
def Firm (r : List Char) : Prop :=
  ∃ c, r.head? = some c ∧ isSpaceOrTab c = false ∧ c ≠ ';' ∧ c ≠ '\n'

theorem IsWord.firm {w : String} (h : IsWord w) (r : List Char) : Firm (w.toList ++ r) := by
  obtain ⟨c, cs, hw⟩ := List.exists_cons_of_ne_nil h.1
  have hc : c ∈ w.toList := by simp [hw]
  exact ⟨c, by simp [hw], h.not_space c hc, h.ne hc (by decide), h.ne hc (by decide)⟩

theorem firm_phrase (hmore : ∀ w ∈ more, IsWord w) (hrest : Firm rest) : Firm (phrase more ++ rest) := by
  cases more with
  | nil => exact hrest
  | cons w more =>
    rw [phrase_cons_append]
    exact (hmore w List.mem_cons_self).firm _

theorem inLine_phrase {words : List String} (h : ∀ w ∈ words, IsWord w) : '\n' ∉ phrase words := by
  intro hmem
  obtain ⟨w, hw, hc⟩ := List.mem_flatMap.mp hmem
  rcases List.mem_append.mp hc with hc | hc
  · exact (h w hw).ne hc (by decide) rfl
  · exact absurd (List.mem_singleton.mp hc) (by decide)

/-! ## Reading words -/

/-- The word that is read is all that stands before the first blank. -/
theorem Says.word_eq (h : Says s word t) (hword : IsWord word) :
    s.after.takeWhile (fun c => !isSpaceOrTab c) = word.toList := by
  obtain ⟨gap, hreach, hne, hgap⟩ := h
  obtain ⟨g, gap, rfl⟩ := List.exists_cons_of_ne_nil hne
  rw [hreach.2, List.append_assoc, List.takeWhile_append_of_pos fun c hc => by simpa using hword.not_space c hc]
  simp [hgap g List.mem_cons_self]

/-- Of a phrase the next word is read, and the one blank behind it. -/
theorem Says.reaches (h : Says s word t) (hword : IsWord word) (hv : IsWord v) (hs : s.after = v.toList ++ ' ' :: rest)
    (hrest : Firm rest) : word = v ∧ s.Reaches (v.toList ++ [' ']) t ∧ t.after = rest := by
  obtain ⟨gap, hreach, hne, hgap⟩ := h
  obtain ⟨g, gap, rfl⟩ := List.exists_cons_of_ne_nil hne
  have hafter : word.toList ++ g :: (gap ++ t.after) = v.toList ++ ' ' :: rest := by
    rw [← hs, hreach.2]
    simp
  obtain ⟨hsame, rfl, hgaprest⟩ :=
    Text.cut_inj hword.not_space hv.not_space (hgap g List.mem_cons_self) (by decide) hafter
  have hnil : gap = [] := by
    cases gap with
    | nil => rfl
    | cons c gap =>
      obtain ⟨d, hd, hspace, -⟩ := hrest
      rw [← hgaprest] at hd
      obtain rfl : c = d := by simpa using hd
      rw [hgap c (by simp)] at hspace
      cases hspace
  rw [hnil, hsame] at hreach
  rw [hnil] at hgaprest
  exact ⟨String.toList_inj.mp hsame, hreach, hgaprest⟩

theorem says_of_reaches (h : s.Reaches (phrase [word]) t) : Says s word t := by
  rw [phrase_singleton] at h
  exact ⟨[' '], h, by simp, by decide⟩

/-- The word that starts all exports. -/
theorem mem_exportWord_phrase (hs : s.after = phrase ("export" :: more) ++ rest) (hmore : ∀ w ∈ more, IsWord w)
    (hrest : Firm rest) : t ∈ exportWord.ends s ↔ s.atLineStart = true ∧ s.Reaches (phrase ["export"]) t := by
  rw [phrase_cons_append] at hs
  rw [mem_ends_exportWord]
  refine and_congr_right fun _ => ?_
  constructor
  · rintro ⟨indent, u, hu, hindent, hread⟩
    have hnil : indent = [] := by
      cases indent with
      | nil => rfl
      | cons c indent =>
        have hhead := congrArg List.head? (hs.symm.trans hu.2)
        obtain rfl : 'e' = c := Option.some.inj hhead
        exact absurd (hindent 'e' List.mem_cons_self) (by decide)
    subst hnil
    obtain rfl := Spot.reaches_nil.mp hu
    rw [phrase_singleton]
    exact (hread.reaches (by decide) (by decide) hs (firm_phrase hmore hrest)).2.1
  · intro h
    exact ⟨[], s, .refl s, by simp, says_of_reaches h⟩

/-! ## Declarations -/

structure Modifiers where
  isDefault : Bool
  isDeclare : Bool
  isAbstract : Bool
  isAsync : Bool

def given (present : Bool) (word : String) : List String := if present then [word] else []

def Modifiers.words (m : Modifiers) : List String :=
  given m.isDefault "default" ++ (given m.isDeclare "declare" ++ (given m.isAbstract "abstract" ++ given m.isAsync "async"))

def modifierWords : List String := ["default", "declare", "abstract", "async"]

theorem isWord_of_mem_modifierWords (h : word ∈ modifierWords) : IsWord word := by
  revert word
  decide

theorem isWord_of_mem_keywords (h : word ∈ keywords) : IsWord word := by
  revert word
  decide

theorem not_mem_keywords (h : word ∈ modifierWords) : word ∉ keywords := by
  revert word
  decide

theorem Modifiers.mem_words {m : Modifiers} (h : word ∈ m.words) : word ∈ modifierWords := by
  have hgiven : ∀ {b : Bool} {v : String}, word ∈ given b v → word = v := by
    intro b v hmem
    cases b with
    | true => exact List.mem_singleton.mp hmem
    | false => cases hmem
  simp only [Modifiers.words, List.mem_append] at h
  rcases h with h | h | h | h
  all_goals
    rw [hgiven h]
    decide

theorem isWord_of_mem_heading {m : Modifiers} {keyword : String} (hkey : keyword ∈ keywords) :
    ∀ w ∈ m.words ++ [keyword], IsWord w := by
  intro w hw
  rcases List.mem_append.mp hw with hw | hw
  · exact isWord_of_mem_modifierWords (Modifiers.mem_words hw)
  · rw [List.mem_singleton.mp hw]
    exact isWord_of_mem_keywords hkey

/-- The words that are read and those that are still to be read, of which the keyword is the last. -/
def Along (m : Modifiers) (keyword : String) (rest : List Char) (s t : Spot) : Prop :=
  ∃ done todo, m.words = done ++ todo ∧ s.Reaches (phrase done) t ∧ t.after = phrase (todo ++ [keyword]) ++ rest

section

variable {m : Modifiers} {keyword : String}

/-- Whichever word is read, it is the next one. -/
theorem Along.says (h : Along m keyword rest s t) (hkey : keyword ∈ keywords) (hrest : Firm rest) (hword : IsWord word)
    (hread : Says t word u) :
    (word ∈ m.words ∧ Along m keyword rest s u) ∨ (word = keyword ∧ s.Reaches (phrase (m.words ++ [keyword])) u) := by
  obtain ⟨done, todo, hwords, hreach, hafter⟩ := h
  have hisWord : ∀ w ∈ todo ++ [keyword], IsWord w := by
    intro w hw
    refine isWord_of_mem_heading (m := m) hkey w ?_
    rw [hwords, List.append_assoc]
    exact List.mem_append_right _ hw
  cases todo with
  | nil =>
    rw [List.nil_append, phrase_cons_append] at hafter
    obtain ⟨rfl, hnext, -⟩ := hread.reaches hword (isWord_of_mem_keywords hkey) hafter hrest
    rw [List.append_nil] at hwords
    refine .inr ⟨rfl, ?_⟩
    rw [phrase_append, hwords, phrase_singleton]
    exact hreach.trans hnext
  | cons v todo =>
    rw [List.cons_append, phrase_cons_append] at hafter
    have hfirm : Firm (phrase (todo ++ [keyword]) ++ rest) :=
      firm_phrase (fun w hw => hisWord w (List.mem_cons_of_mem v hw)) hrest
    obtain ⟨rfl, hnext, hthere⟩ := hread.reaches hword (hisWord v List.mem_cons_self) hafter hfirm
    refine .inl ⟨by simp [hwords], done ++ [word], todo, by simp [hwords], ?_, hthere⟩
    rw [phrase_append, phrase_singleton]
    exact hreach.trans hnext

theorem Along.modifier (h : Along m keyword rest s t) (hkey : keyword ∈ keywords) (hrest : Firm rest)
    (hword : word ∈ modifierWords) (hu : u ∈ (modifier word).ends t) : Along m keyword rest s u := by
  rcases mem_ends_modifier.mp hu with hread | rfl
  · rcases h.says hkey hrest (isWord_of_mem_modifierWords hword) hread with ⟨-, h⟩ | ⟨rfl, -⟩
    · exact h
    · exact absurd hkey (not_mem_keywords hword)
  · exact h

theorem mem_modifier_of_given {b : Bool} (h : s.Reaches (phrase (given b word)) t) : t ∈ (modifier word).ends s := by
  rw [mem_ends_modifier]
  cases b with
  | true => exact .inl (says_of_reaches h)
  | false => exact .inr (Spot.reaches_nil.mp h)

/-- The words of a declaration are read to the end of its phrase, and in no other way. -/
theorem mem_lead_phrase (hs : s.after = phrase ("export" :: (m.words ++ [keyword])) ++ rest) (hkey : keyword ∈ keywords)
    (hrest : Firm rest) :
    t ∈ exportDeclaration.lead.ends s ↔
      s.atLineStart = true ∧ s.Reaches (phrase ("export" :: (m.words ++ [keyword]))) t := by
  have hwords : ∀ w ∈ m.words ++ [keyword], IsWord w := isWord_of_mem_heading hkey
  have hsplit : phrase ("export" :: (m.words ++ [keyword])) = phrase ["export"] ++ phrase (m.words ++ [keyword]) :=
    phrase_append ["export"] _
  rw [mem_lead_exportDeclaration, hsplit]
  simp only [mem_exportWord_phrase hs hwords hrest]
  constructor
  · rintro ⟨a, ⟨hstart, ha⟩, b, hb, c, hc, d, hd, e, he, w, hw, hread⟩
    have hafter : a.after = phrase (m.words ++ [keyword]) ++ rest := by
      have hthere := ha.2
      rw [hs, hsplit, List.append_assoc] at hthere
      exact (List.append_cancel_left hthere).symm
    have halong : Along m keyword rest a a := ⟨[], m.words, rfl, .refl a, hafter⟩
    have halong := halong.modifier hkey hrest (by decide) hb
    have halong := halong.modifier hkey hrest (by decide) hc
    have halong := halong.modifier hkey hrest (by decide) hd
    have halong := halong.modifier hkey hrest (by decide) he
    rcases halong.says hkey hrest (isWord_of_mem_keywords hw) hread with ⟨hmem, -⟩ | ⟨-, hreach⟩
    · exact absurd hw (not_mem_keywords (Modifiers.mem_words hmem))
    · exact ⟨hstart, ha.trans hreach⟩
  · rintro ⟨hstart, hreach⟩
    obtain ⟨a, ha, hreach⟩ := Spot.reaches_append.mp hreach
    simp only [Modifiers.words, phrase_append, List.append_assoc] at hreach
    obtain ⟨b, hb, hreach⟩ := Spot.reaches_append.mp hreach
    obtain ⟨c, hc, hreach⟩ := Spot.reaches_append.mp hreach
    obtain ⟨d, hd, hreach⟩ := Spot.reaches_append.mp hreach
    obtain ⟨e, he, hreach⟩ := Spot.reaches_append.mp hreach
    exact ⟨a, ⟨hstart, ha⟩, b, mem_modifier_of_given hb, c, mem_modifier_of_given hc, d, mem_modifier_of_given hd, e,
      mem_modifier_of_given he, keyword, hkey, says_of_reaches hreach⟩

end

/-! ## Names behind the words -/

section

variable {m : Modifiers} {keyword : String} {name tail : List Char}

theorem IsName.firm (h : IsName name) (r : List Char) : Firm (name ++ r) := by
  obtain ⟨c, cs, rfl, hc, -⟩ := h
  have hne : ∀ {d : Char}, isNameStart d = false → c ≠ d := by
    rintro d hd rfl
    rw [hc] at hd
    cases hd
  refine ⟨c, rfl, ?_, hne (by decide), hne (by decide)⟩
  simp only [isSpaceOrTab, Bool.or_eq_false_iff, beq_eq_false_iff_ne]
  exact ⟨hne (by decide), hne (by decide)⟩

theorem IsName.head?_ne (h : IsName name) {c : Char} (hc : isNameStart c = false) (r : List Char) :
    (name ++ r).head? ≠ some c := by
  obtain ⟨d, ds, rfl, hd, -⟩ := h
  intro hhead
  rw [← Option.some.inj hhead, hd] at hc
  cases hc

/-- All of a name is read. -/
theorem head?_ends_exportedName (hname : IsName name) (htail : ∀ c ∈ tail.head?, isNamePart c = false)
    (ht : t.after = name ++ tail) (hu : t.Reaches name u) : (exportedName.ends t).head? = some u := by
  obtain ⟨c, cs, rfl, hc, hcs⟩ := hname
  rw [← List.singleton_append] at hu
  obtain ⟨v, hv, hu⟩ := Spot.reaches_append.mp hu
  have hone : (one isNameStart).ends t = [v] := by
    obtain ⟨before, after⟩ := t
    obtain rfl : after = c :: (cs ++ tail) := ht
    have hspot : v = ⟨c :: before, cs ++ tail⟩ := hv.unique ⟨rfl, rfl⟩
    simp [ends, Spot.next?, hc, hspot]
  have hafter : v.after = cs ++ tail := by
    have hthere := hv.2
    rw [ht, List.cons_append, List.singleton_append] at hthere
    exact (List.cons.inj hthere).2.symm
  show (((one isNameStart).ends t).flatMap (zeroOrMore isNamePart).ends).head? = some u
  rw [hone, List.flatMap_singleton]
  exact head?_ends_zeroOrMore hcs htail hafter hu

theorem head?_flatMap_of_forall_eq {α β : Type} {l : List α} {a : α} (hne : l ≠ []) (h : ∀ b ∈ l, b = a)
    (g : α → List β) {b : β} (hg : (g a).head? = some b) : (l.flatMap g).head? = some b := by
  obtain ⟨c, l, rfl⟩ := List.exists_cons_of_ne_nil hne
  obtain rfl := h c List.mem_cons_self
  rw [List.flatMap_cons, List.head?_append, hg]
  rfl

/-- A declaration is found with its name. -/
theorem head?_findsAt_declaration (hs : s.after = phrase ("export" :: (m.words ++ [keyword])) ++ (name ++ tail))
    (hkey : keyword ∈ keywords) (hname : IsName name) (htail : ∀ c ∈ tail.head?, isNamePart c = false)
    (hstart : s.atLineStart = true) :
    ∃ f, (exportDeclaration.findsAt s).head? = some f ∧ f.content = name := by
  obtain ⟨u, hreach, hafter⟩ : ∃ u, s.Reaches (phrase ("export" :: (m.words ++ [keyword])) ++ name) u ∧ u.after = tail :=
    ⟨⟨_, tail⟩, ⟨rfl, by rw [hs, List.append_assoc]⟩, rfl⟩
  obtain ⟨t, ht, hu⟩ := Spot.reaches_append.mp hreach
  have hlead : ∀ {a}, a ∈ exportDeclaration.lead.ends s ↔
      s.atLineStart = true ∧ s.Reaches (phrase ("export" :: (m.words ++ [keyword]))) a :=
    mem_lead_phrase hs hkey (hname.firm tail)
  have hbody : (exportedName.ends t).head? = some u := head?_ends_exportedName hname (hafter ▸ htail) hu.2 hu
  refine ⟨⟨t, u, u⟩, ?_, hu.textTo_eq⟩
  refine head?_flatMap_of_forall_eq (a := t) (List.ne_nil_of_mem (hlead.mpr ⟨hstart, ht⟩)) ?_ _ ?_
  · intro a ha
    exact (hlead.mp ha).2.unique ht
  · show ((exportedName.ends t).flatMap fun b => [(⟨t, b, b⟩ : Find)]).head? = some ⟨t, u, u⟩
    cases hends : exportedName.ends t with
    | nil => simp [hends] at hbody
    | cons last more =>
      rw [hends] at hbody
      obtain rfl := Option.some.inj hbody
      rfl

/-- Without a name behind the words there is no declaration. -/
theorem findsAt_declaration_eq_nil (hs : s.after = phrase ("export" :: (m.words ++ [keyword])) ++ rest)
    (hkey : keyword ∈ keywords) (hrest : Firm rest) (hname : ∀ c ∈ rest.head?, isNameStart c = false) :
    exportDeclaration.findsAt s = [] := by
  rw [List.eq_nil_iff_forall_not_mem]
  intro f hf
  obtain ⟨hfirst, hlast, -⟩ := Extractor.mem_findsAt.mp hf
  have hreach := ((mem_lead_phrase hs hkey hrest).mp hfirst).2
  obtain ⟨name, hbody, c, cs, rfl, hc, -⟩ := mem_ends_exportedName.mp hlast
  have hthere := hreach.2
  rw [hs, hbody.2] at hthere
  have hhead := congrArg List.head? (List.append_cancel_left hthere)
  rw [hname c hhead] at hc
  cases hc

end

/-! ## Lines that are no lists and no default names -/

theorem after_of_reaches {w r : List Char} (hs : s.after = w ++ r) (h : s.Reaches w t) : t.after = r := by
  have hthere := h.2
  rw [hs] at hthere
  exact (List.append_cancel_left hthere).symm

/-- What stands behind `export`. -/
theorem after_exportWord (hs : s.after = phrase ("export" :: more) ++ rest) (hmore : ∀ w ∈ more, IsWord w)
    (hrest : Firm rest) (ht : t ∈ exportWord.ends s) : t.after = phrase more ++ rest := by
  refine after_of_reaches ?_ ((mem_exportWord_phrase hs hmore hrest).mp ht).2
  rw [hs, ← List.append_assoc, ← phrase_append]
  rfl

/-- No brace comes where a word stands. -/
theorem findsAt_list_eq_nil (hs : s.after = phrase ("export" :: more) ++ rest) (hmore : ∀ w ∈ more, IsWord w)
    (hne : more ≠ []) (hrest : Firm rest) (hbrace : more = ["type"] → rest.head? ≠ some '\x7b') :
    exportList.findsAt s = [] := by
  have hword : ∀ {w : String} (r : List Char), IsWord w → (w.toList ++ r).head? ≠ some '\x7b' := by
    intro w r hw
    obtain ⟨c, cs, hcs⟩ := List.exists_cons_of_ne_nil hw.1
    have hc : c ≠ '\x7b' := hw.ne (by simp [hcs]) (by decide)
    simpa [hcs] using hc
  rw [List.eq_nil_iff_forall_not_mem]
  intro f hf
  obtain ⟨a, ha, b, hb, hopen⟩ := mem_lead_exportList.mp (mem_exportList.mp hf).1
  have hafter := after_exportWord hs hmore hrest ha
  have hhead : b.after.head? = some '\x7b' := by rw [hopen.2]; rfl
  obtain ⟨w, more, rfl⟩ := List.exists_cons_of_ne_nil hne
  obtain ⟨hw, hthen⟩ := List.forall_mem_cons.mp hmore
  rw [phrase_cons_append] at hafter
  rcases mem_ends_modifier.mp hb with hread | rfl
  · obtain ⟨rfl, -, hthere⟩ := hread.reaches (by decide) hw hafter (firm_phrase hthen hrest)
    rw [hthere] at hhead
    cases more with
    | nil => exact hbrace rfl hhead
    | cons v more =>
      rw [phrase_cons_append] at hhead
      exact hword _ (hthen v List.mem_cons_self) hhead
  · rw [hafter] at hhead
    exact hword _ hw hhead

/-- Behind a default name come blanks and maybe a semicolon, and nothing else in the line. -/
theorem mem_trail_exportDefault (h : t ∈ exportDefault.trail.ends s) :
    ∃ z, s.Reaches z t ∧ (∀ c ∈ z, (isSpaceOrTab c || c == ';') = true) ∧ t.atLineEnd = true := by
  unfold exportDefault at h
  simp only [mem_ends_inOrder_cons, mem_ends_inOrder_nil, mem_ends_zeroOrMore, mem_ends_lineEnd, Pattern.optional,
    mem_ends_either, mem_ends_text] at h
  obtain ⟨a, ⟨v, hv, hvset⟩, b, hb, c, ⟨w, hw, hwset⟩, _, ⟨rfl, hend⟩, rfl⟩ := h
  have hsemi : ∃ m, a.Reaches m b ∧ ∀ c ∈ m, (isSpaceOrTab c || c == ';') = true := by
    rcases hb with hb | hb
    · exact ⟨_, hb, by decide⟩
    · obtain rfl := List.mem_singleton.mp hb
      exact ⟨[], .refl b, by simp⟩
  obtain ⟨m, hm, hmset⟩ := hsemi
  refine ⟨v ++ (m ++ w), hv.trans (hm.trans hw), ?_, hend⟩
  simp only [List.forall_mem_append]
  exact ⟨fun c hc => by simp [hvset c hc], hmset, fun c hc => by simp [hwset c hc]⟩

/-- What stands behind the name and what a line holds behind it. -/
theorem exists_of_mem_exportDefault (hf : f ∈ exportDefault.findsAt s) :
    ∃ a name z, a ∈ exportWord.ends s ∧ Says a "default" f.first ∧ IsName name ∧ f.first.Reaches name f.last ∧
      f.last.Reaches z f.stop ∧ (∀ c ∈ z, (isSpaceOrTab c || c == ';') = true) ∧ f.stop.atLineEnd = true := by
  obtain ⟨hfirst, hlast, hstop⟩ := Extractor.mem_findsAt.mp hf
  obtain ⟨a, ha, hread⟩ := mem_lead_exportDefault.mp hfirst
  obtain ⟨name, hname, hisName⟩ := mem_ends_exportedName.mp hlast
  obtain ⟨z, hz, hzset, hend⟩ := mem_trail_exportDefault hstop
  exact ⟨a, name, z, ha, hread, hisName, hname, hz, hzset, hend⟩

/-- In what is read of a default nothing but blanks and semicolons follow the first of these. -/
theorem pairwise_name_append {name z : List Char} (hname : IsName name) (hz : ∀ c ∈ z, (isSpaceOrTab c || c == ';') = true) :
    (name ++ z).Pairwise fun a b => (isSpaceOrTab a || a == ';') = true → (isSpaceOrTab b || b == ';') = true := by
  refine List.pairwise_append.mpr ⟨?_, ?_, fun a _ b hb _ => hz b hb⟩
  · refine List.pairwise_of_forall_mem_list fun a ha b _ hgap => ?_
    have hpart := hname.parts a ha
    have hne : ∀ {d : Char}, isNamePart d = false → a ≠ d := by
      rintro d hd rfl
      rw [hpart] at hd
      cases hd
    simp only [isSpaceOrTab, Bool.or_eq_true, beq_iff_eq] at hgap
    rcases hgap with (rfl | rfl) | rfl
    · exact absurd rfl (hne (by decide))
    · exact absurd rfl (hne (by decide))
    · exact absurd rfl (hne (by decide))
  · exact List.pairwise_of_forall_mem_list fun a _ b hb _ => hz b hb

/-- A word is no name that is alone in its line, if something firm follows it. -/
theorem not_alone {name z : List Char} (hname : IsName name) (hz : ∀ c ∈ z, (isSpaceOrTab c || c == ';') = true)
    (hend : t.atLineEnd = true) (hv : IsWord v) (hrest : Firm rest) (h : v.toList ++ ' ' :: rest = name ++ (z ++ t.after)) :
    False := by
  obtain ⟨d, rest', hd, hspace, hsemi, hfeed⟩ : ∃ d rest', rest = d :: rest' ∧ isSpaceOrTab d = false ∧ d ≠ ';' ∧ d ≠ '\n' := by
    obtain ⟨d, hd, hfirm⟩ := hrest
    cases rest with
    | nil => cases hd
    | cons c rest' => exact ⟨c, rest', rfl, Option.some.inj hd ▸ hfirm⟩
  subst hd
  have hpairs := pairwise_name_append hname hz
  have hread : ∀ m, name ++ z ≠ v.toList ++ ' ' :: d :: m := by
    intro m hm
    rw [hm] at hpairs
    have hgap := (List.pairwise_cons.mp (List.pairwise_append.mp hpairs).2.1).1 d List.mem_cons_self (by decide)
    simp [hspace, hsemi] at hgap
  have hsplit : (v.toList ++ [' ', d]) ++ rest' = (name ++ z) ++ t.after := by
    rw [List.append_assoc, List.append_assoc]
    exact h
  rcases List.append_eq_append_iff.mp hsplit with ⟨m, hm, -⟩ | ⟨m, hm, hafter⟩
  · exact hread m (by rw [hm]; simp)
  · cases m with
    | nil => exact hread [] (by rw [List.append_nil] at hm; exact hm.symm)
    | cons c m =>
      have hc : c = '\n' := by
        rw [Spot.atLineEnd, hafter] at hend
        exact beq_iff_eq.mp hend
      have hmem : c ∈ v.toList ++ [' ', d] := by
        rw [hm]
        simp
      rcases List.mem_append.mp hmem with hmem | hmem
      · exact hv.ne hmem (by decide) hc
      · simp only [List.mem_cons, List.not_mem_nil, or_false] at hmem
        rcases hmem with rfl | rfl
        · exact absurd hc (by decide)
        · exact hfeed hc

/-- A default name is alone in its line. -/
theorem findsAt_default_eq_nil (hs : s.after = phrase ("export" :: more) ++ rest) (hmore : ∀ w ∈ more, IsWord w)
    (hne : more ≠ []) (halone : more ≠ ["default"]) (hrest : Firm rest) : exportDefault.findsAt s = [] := by
  rw [List.eq_nil_iff_forall_not_mem]
  intro f hf
  obtain ⟨a, name, z, ha, hread, hname, hbody, hz, hzset, hend⟩ := exists_of_mem_exportDefault hf
  have hafter := after_exportWord hs hmore hrest ha
  obtain ⟨w, more, rfl⟩ := List.exists_cons_of_ne_nil hne
  obtain ⟨hw, hthen⟩ := List.forall_mem_cons.mp hmore
  rw [phrase_cons_append] at hafter
  obtain ⟨rfl, -, hthere⟩ := hread.reaches (by decide) hw hafter (firm_phrase hthen hrest)
  cases more with
  | nil => exact halone rfl
  | cons v more =>
    rw [phrase_cons_append, hbody.2, hz.2] at hthere
    exact not_alone hname hzset hend (hthen v List.mem_cons_self)
      (firm_phrase (fun w hw => hthen w (List.mem_cons_of_mem v hw)) hrest) hthere.symm

/-! ## Declarations alone in their line -/

section

variable {m : Modifiers} {keyword : String} {text : String}

/-- In the line of a declaration there is nothing else to find. -/
theorem exports_heading (hline : Text.OneLine text.toList)
    (htext : text.toList = phrase ("export" :: (m.words ++ [keyword])) ++ rest) (hkey : keyword ∈ keywords)
    (hrest : Firm rest) (hbrace : m.words = [] → rest.head? ≠ some '\x7b') :
    exports text = (exportDeclaration.findsAt (.start text.toList)).head?.toList.map fun f => String.ofList f.content := by
  have hwords : ∀ w ∈ m.words ++ [keyword], IsWord w := isWord_of_mem_heading hkey
  have hne : m.words ++ [keyword] ≠ [] := by simp
  have hlist : exportList.findsAt (.start text.toList) = [] := by
    refine findsAt_list_eq_nil htext hwords hne hrest fun htype => hbrace ?_
    exact List.eq_nil_of_length_eq_zero (by simpa using congrArg List.length htype)
  have hdefault : exportDefault.findsAt (.start text.toList) = [] := by
    refine findsAt_default_eq_nil htext hwords hne (fun halone => ?_) hrest
    have hlast := congrArg List.getLast? halone
    rw [List.getLast?_concat] at hlast
    rw [Option.some.inj hlast] at hkey
    exact absurd hkey (by decide)
  rw [exports_eq, exportFound_line hline, hlist, hdefault]
  cases (exportDeclaration.findsAt (.start text.toList)).head? with
  | none => exact congrArg (List.map _) (inTextOrder_eq_self .nil)
  | some f => exact congrArg (List.map _) (inTextOrder_eq_self (List.pairwise_singleton _ _))

/-- A declaration alone in its line exports its name. -/
theorem exports_declaration {name tail : List Char} (hline : Text.OneLine text.toList)
    (htext : text.toList = phrase ("export" :: (m.words ++ [keyword])) ++ (name ++ tail)) (hkey : keyword ∈ keywords)
    (hname : IsName name) (htail : ∀ c ∈ tail.head?, isNamePart c = false) : exports text = [String.ofList name] := by
  obtain ⟨f, hf, hcontent⟩ := head?_findsAt_declaration (s := .start text.toList) htext hkey hname htail rfl
  rw [exports_heading hline htext hkey (hname.firm _) fun _ => hname.head?_ne (by decide) _, hf, ← hcontent]
  rfl

/-- The words of a declaration without a name behind them export nothing. -/
theorem exports_nameless (hline : Text.OneLine text.toList)
    (htext : text.toList = phrase ("export" :: (m.words ++ [keyword])) ++ rest) (hkey : keyword ∈ keywords)
    (hrest : Firm rest) (hname : ∀ c ∈ rest.head?, isNameStart c = false)
    (hbrace : m.words = [] → rest.head? ≠ some '\x7b') : exports text = [] := by
  rw [exports_heading hline htext hkey hrest hbrace,
    findsAt_declaration_eq_nil (s := .start text.toList) htext hkey hrest hname]
  rfl

end

end LayerLint.Source
