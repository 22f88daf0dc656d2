/-
  LayerLint.Proofs.Source.ExportListing: export statements that are written one per line are read back.

  A statement is a declaration, a list or a default name (`Export`). Each is found by one extractor and passed over by the
  other two (`exports_line`). In a list every item has the name behind `as`, or else its own (`itemName?_text`), and the
  items are found one by one (`names_of_list`). No statement leaves a list open at the end of its line, so the statements
  of a listing are read on their own (`exports_listing`).
-/

import LayerLint.Proofs.Source.Headings
import LayerLint.Proofs.Text.Trim

namespace LayerLint.Source

open Pattern
open Text (isSpaceOrTab isBlank)

/-! ## Names and items -/

/-- The words that have a meaning of their own before a name. -/
def reserved : List String :=
  ["class", "interface", "type", "enum", "function", "const", "let", "var", "namespace", "default", "declare", "abstract",
   "async", "as"]

structure Name where
  text : String
  isName : IsName text.toList
  ascii : ∀ c ∈ text.toList, Text.isAscii c = true
  free : text ∉ reserved

/-- An item of a list: `n`, `n as m`, `type n` or `type n as m`. -/
structure Item where
  isType : Bool
  name : Name
  other : Option Name

namespace Item

def exported (i : Item) : Name := i.other.getD i.name

def text (i : Item) : String :=
  (if i.isType then "type " else "") ++ i.name.text ++ (i.other.elim "" fun m => " as " ++ m.text)

end Item

theorem isBlank_of_ascii : ∀ n < 128, isNamePart (Char.ofNat n) = true → isBlank (Char.ofNat n) = false := by
  decide

namespace Name

variable (n : Name)

theorem ne_nil : n.text.toList ≠ [] := n.isName.ne_nil

theorem not_blank : ∀ c ∈ n.text.toList, isBlank c = false := by
  intro c hc
  have hlt : c.toNat < 128 := of_decide_eq_true (n.ascii c hc)
  have hblank := isBlank_of_ascii c.toNat hlt
  rw [Char.ofNat_toNat] at hblank
  exact hblank (n.isName.parts c hc)

theorem head_not_blank (rest : List Char) : ∀ c ∈ (n.text.toList ++ rest).head?, isBlank c = false := by
  obtain ⟨c, cs, hcs⟩ := List.exists_cons_of_ne_nil n.ne_nil
  have hc := n.not_blank c (by simp [hcs])
  simpa [hcs] using hc

theorem trim_append (front : List Char) (hfront : ∀ c ∈ front.head?, isBlank c = false) :
    Text.trim (front ++ n.text.toList) = front ++ n.text.toList := by
  refine Text.trim_eq_self ?_ ?_
  · cases front with
    | cons c front => exact hfront
    | nil => simpa using n.head_not_blank []
  · intro c hc
    rw [List.getLast?_append_of_ne_nil _ n.ne_nil] at hc
    exact n.not_blank c (List.mem_of_getLast? hc)

theorem not_mem {c : Char} (hc : isNamePart c = false) : c ∉ n.text.toList := by
  intro hmem
  rw [n.isName.parts c hmem] at hc
  cases hc

end Name

namespace Item

def suffix (i : Item) : List Char := i.other.elim [] fun m => " as ".toList ++ m.text.toList

theorem toList_text (i : Item) :
    i.text.toList = (if i.isType then "type ".toList else []) ++ (i.name.text.toList ++ i.suffix) := by
  unfold text suffix
  cases i.isType <;> cases i.other <;> simp

theorem suffix_cases (i : Item) :
    (i.suffix = [] ∧ i.exported = i.name) ∨
      ∃ m : Name, i.suffix = ' ' :: ("as ".toList ++ m.text.toList) ∧ i.exported = m := by
  unfold suffix exported
  cases i.other with
  | none => exact .inl ⟨rfl, rfl⟩
  | some m => exact .inr ⟨m, rfl, rfl⟩

theorem mem_text (i : Item) : ∀ c ∈ i.text.toList, isNamePart c = true ∨ c = ' ' := by
  have htype : ∀ c ∈ "type ".toList, isNamePart c = true ∨ c = ' ' := by decide
  have has : ∀ c ∈ ' ' :: "as ".toList, isNamePart c = true ∨ c = ' ' := by decide
  have hname : ∀ n : Name, ∀ c ∈ n.text.toList, isNamePart c = true ∨ c = ' ' := fun n c hc => .inl (n.isName.parts c hc)
  rw [i.toList_text, List.forall_mem_append, List.forall_mem_append]
  refine ⟨?_, hname i.name, ?_⟩
  · cases i.isType with
    | true => exact htype
    | false => exact fun c hc => absurd hc List.not_mem_nil
  · rcases i.suffix_cases with ⟨hs, -⟩ | ⟨m, hs, -⟩
    · rw [hs]
      exact fun c hc => absurd hc List.not_mem_nil
    · rw [hs, ← List.cons_append, List.forall_mem_append]
      exact ⟨has, hname m⟩

theorem trim_text (i : Item) (lead : List Char) (hlead : ∀ c ∈ lead.head?, isBlank c = false) :
    Text.trim (lead ++ (i.name.text.toList ++ i.suffix)) = lead ++ (i.name.text.toList ++ i.suffix) := by
  rcases i.suffix_cases with ⟨hs, -⟩ | ⟨m, hs, -⟩
  · rw [hs, List.append_nil]
    exact i.name.trim_append lead hlead
  · have hsplit : lead ++ (i.name.text.toList ++ i.suffix) =
        (lead ++ (i.name.text.toList ++ " as ".toList)) ++ m.text.toList := by
      rw [hs]
      simp
    rw [hsplit]
    refine m.trim_append _ ?_
    cases lead with
    | nil => exact i.name.head_not_blank _
    | cons c lead => exact hlead

/-- No name is the word `type`. -/
theorem after?_type (i : Item) : Text.after? "type ".toList (i.name.text.toList ++ i.suffix) = none := by
  have hspace : ∀ c ∈ i.name.text.toList, (c == ' ') = false := by
    intro c hc
    rw [beq_eq_false_iff_ne]
    rintro rfl
    exact i.name.not_mem (by decide) hc
  cases hafter : Text.after? "type ".toList (i.name.text.toList ++ i.suffix) with
  | none => rfl
  | some rest =>
    rw [Text.after?_eq_some_iff] at hafter
    rcases i.suffix_cases with ⟨hs, -⟩ | ⟨m, hs, -⟩
    · have hmem : ' ' ∈ i.name.text.toList := by
        rw [hs, List.append_nil] at hafter
        rw [hafter]
        simp
      exact absurd hmem (i.name.not_mem (by decide))
    · rw [hs] at hafter
      obtain ⟨hname, -, -⟩ :=
        Text.cut_inj (w := "type".toList) (d := ' ') (y := rest) hspace (by decide) (by decide) (by decide) hafter
      have hfree := i.name.free
      rw [String.toList_inj.mp hname] at hfree
      exact absurd (by decide) hfree

end Item

section

variable {item body front other : List Char}

theorem itemName?_of_none (h : Text.trim (Text.dropAll "type ".toList (Text.trim item)) = body) (hne : body ≠ [])
    (hcut : Text.cut? " as ".toList body = none) : itemName? item = some body := by
  unfold itemName?
  rw [h]
  cases body with
  | nil => exact absurd rfl hne
  | cons c cs => simp only [hcut]

theorem itemName?_of_some (h : Text.trim (Text.dropAll "type ".toList (Text.trim item)) = body) (hne : body ≠ [])
    (hcut : Text.cut? " as ".toList body = some (front, other)) : itemName? item = some (Text.trim other) := by
  unfold itemName?
  rw [h]
  cases body with
  | nil => exact absurd rfl hne
  | cons c cs => simp only [hcut]

end

/-- The name of an item is the one behind `as`, or else its own. -/
theorem itemName?_text (i : Item) : itemName? (' ' :: i.text.toList) = some i.exported.text.toList := by
  have hbody : Text.trim (Text.dropAll "type ".toList (Text.trim (' ' :: i.text.toList))) =
      i.name.text.toList ++ i.suffix := by
    have hplain : Text.trim (i.name.text.toList ++ i.suffix) = i.name.text.toList ++ i.suffix :=
      i.trim_text [] (by simp)
    rw [Text.trim_cons_of_blank (by decide), i.toList_text]
    cases i.isType with
    | true =>
      rw [if_pos rfl, i.trim_text _ (by decide), Text.dropAll_once (Text.after?_eq_some_iff.mpr rfl) i.after?_type]
      exact hplain
    | false =>
      rw [if_neg (by decide), List.nil_append, hplain, Text.dropAll_of_none i.after?_type]
      exact hplain
  have hne : i.name.text.toList ++ i.suffix ≠ [] := by simp [i.name.ne_nil]
  have hspace : ' ' ∉ i.name.text.toList := i.name.not_mem (by decide)
  rcases i.suffix_cases with ⟨hs, he⟩ | ⟨m, hs, he⟩
  · rw [hs, List.append_nil] at hbody hne
    rw [he]
    exact itemName?_of_none hbody hne (Text.cut?_eq_none hspace _)
  · rw [hs] at hbody hne
    have htrim : Text.trim m.text.toList = m.text.toList := m.trim_append [] (by simp)
    rw [he, itemName?_of_some hbody hne (Text.cut?_append hspace "as ".toList m.text.toList), htrim]

/-! ## Lists -/

section

variable {s t a : Spot} {f : Find} {isType : Bool} {word : String} {items tail : List Char}

theorem isWord_of_mem_given (h : word ∈ given isType "type") : IsWord word := by
  cases isType with
  | false => cases h
  | true =>
    rw [List.mem_singleton.mp h]
    decide

theorem firm_brace (r : List Char) : Firm ('\x7b' :: r) := ⟨'\x7b', rfl, by decide, by decide, by decide⟩

/-- The only word behind `export` is `type`. -/
theorem says_list (ha : a.after = phrase (given isType "type") ++ '\x7b' :: tail) (hword : IsWord word)
    (h : Says a word t) : word = "type" ∧ a.Reaches (phrase (given isType "type")) t ∧ t.after = '\x7b' :: tail := by
  cases isType with
  | true =>
    have ha : a.after = "type".toList ++ ' ' :: ('\x7b' :: tail) := by rw [ha]; exact phrase_cons_append _ _ _
    obtain ⟨rfl, hreach, hafter⟩ := h.reaches hword (by decide) ha (firm_brace tail)
    exact ⟨rfl, hreach, hafter⟩
  | false =>
    have hnext := h.word_eq hword
    rw [ha] at hnext
    have hmem : '\x7b' ∈ word.toList := by
      rw [← hnext]
      exact List.mem_cons_self
    exact absurd rfl (hword.ne hmem (by decide))

variable (hs : s.after = phrase ("export" :: given isType "type") ++ '\x7b' :: tail)

include hs

theorem after_export_list (ha : a ∈ exportWord.ends s) : a.after = phrase (given isType "type") ++ '\x7b' :: tail :=
  after_exportWord hs (fun _ hw => isWord_of_mem_given hw) (firm_brace tail) ha

theorem mem_lead_list : t ∈ exportList.lead.ends s ↔
    s.atLineStart = true ∧ s.Reaches (phrase ("export" :: given isType "type") ++ ['\x7b']) t := by
  have hsplit : phrase ("export" :: given isType "type") = phrase ["export"] ++ phrase (given isType "type") :=
    phrase_append ["export"] _
  have hword : ∀ {a}, a ∈ exportWord.ends s ↔ s.atLineStart = true ∧ s.Reaches (phrase ["export"]) a :=
    mem_exportWord_phrase hs (fun _ hw => isWord_of_mem_given hw) (firm_brace tail)
  rw [mem_lead_exportList, hsplit, List.append_assoc]
  constructor
  · rintro ⟨a, ha, b, hb, hopen⟩
    have hafter := after_export_list hs ha
    have hgiven : a.Reaches (phrase (given isType "type")) b := by
      rcases mem_ends_modifier.mp hb with hread | rfl
      · exact (says_list hafter (by decide) hread).2.1
      · cases isType with
        | false => exact .refl b
        | true =>
          have hhead := congrArg List.head? (hafter.symm.trans hopen.2)
          exact absurd (Option.some.inj hhead) (by decide)
    obtain ⟨hstart, ha⟩ := hword.mp ha
    exact ⟨hstart, ha.trans (hgiven.trans hopen)⟩
  · rintro ⟨hstart, hreach⟩
    obtain ⟨a, ha, hreach⟩ := Spot.reaches_append.mp hreach
    obtain ⟨b, hb, hopen⟩ := Spot.reaches_append.mp hreach
    exact ⟨a, hword.mpr ⟨hstart, ha⟩, b, mem_modifier_of_given hb, hopen⟩

theorem findsAt_declaration_list : exportDeclaration.findsAt s = [] := by
  rw [List.eq_nil_iff_forall_not_mem]
  intro f hf
  obtain ⟨hfirst, hlast, -⟩ := Extractor.mem_findsAt.mp hf
  obtain ⟨a, ha, b, hb, c, hc, d, hd, e, he, w, hw, hread⟩ := mem_lead_exportDeclaration.mp hfirst
  have hafter := after_export_list hs ha
  have hstays : ∀ {u : Spot} {v : String}, IsWord v → v ≠ "type" → u ∈ (modifier v).ends a → u = a := by
    intro u v hv hne hu
    rcases mem_ends_modifier.mp hu with hread | hu
    · exact absurd (says_list hafter hv hread).1 hne
    · exact hu
  obtain rfl := hstays (by decide) (by decide) hb
  obtain rfl := hstays (by decide) (by decide) hc
  obtain rfl := hstays (by decide) (by decide) hd
  obtain rfl := hstays (by decide) (by decide) he
  obtain ⟨-, -, hthere⟩ := says_list hafter (isWord_of_mem_keywords hw) hread
  obtain ⟨name, hname, c, cs, rfl, hc, -⟩ := mem_ends_exportedName.mp hlast
  have hhead := congrArg List.head? (hthere.symm.trans hname.2)
  obtain rfl : '\x7b' = c := Option.some.inj hhead
  exact absurd hc (by decide)

theorem findsAt_default_list : exportDefault.findsAt s = [] := by
  rw [List.eq_nil_iff_forall_not_mem]
  intro f hf
  obtain ⟨a, -, -, ha, hread, -⟩ := exists_of_mem_exportDefault hf
  exact absurd (says_list (after_export_list hs ha) (by decide) hread).1 (by decide)

omit hs

theorem mem_findsAt_list (hs : s.after = phrase ("export" :: given isType "type") ++ '\x7b' :: (items ++ '\x7d' :: tail))
    (hitems : '\x7d' ∉ items) (hf : f ∈ exportList.findsAt s) : f.content = items ∧ f.stop.after = tail := by
  obtain ⟨hfirst, inner, hinner, hplain, hstop⟩ := mem_exportList.mp hf
  have hafter : f.first.after = items ++ '\x7d' :: tail := by
    refine after_of_reaches ?_ ((mem_lead_list hs).mp hfirst).2
    rw [hs, List.append_assoc]
    rfl
  rw [hinner.2, hstop.2] at hafter
  obtain ⟨rfl, htail⟩ := closing_brace_inj hplain hitems hafter
  exact ⟨hinner.textTo_eq, htail⟩

theorem head?_findsAt_list (hs : s.after = phrase ("export" :: given isType "type") ++ '\x7b' :: (items ++ '\x7d' :: tail))
    (hitems : '\x7d' ∉ items) (hstart : s.atLineStart = true) :
    ∃ f, (exportList.findsAt s).head? = some f ∧ f.content = items := by
  obtain ⟨u, hreach⟩ : ∃ u, s.Reaches ((phrase ("export" :: given isType "type") ++ ['\x7b']) ++ (items ++ ['\x7d'])) u :=
    ⟨⟨_, tail⟩, rfl, by rw [hs]; simp⟩
  obtain ⟨first, hfirst, hreach⟩ := Spot.reaches_append.mp hreach
  obtain ⟨last, hlast, hstop⟩ := Spot.reaches_append.mp hreach
  have hmem : (⟨first, last, u⟩ : Find) ∈ exportList.findsAt s :=
    mem_exportList.mpr ⟨(mem_lead_list hs).mpr ⟨hstart, hfirst⟩, items, hlast, hitems, hstop⟩
  cases hhead : (exportList.findsAt s).head? with
  | none =>
    rw [List.head?_eq_none_iff.mp hhead] at hmem
    cases hmem
  | some f => exact ⟨f, rfl, (mem_findsAt_list hs hitems (List.mem_of_mem_head? hhead)).1⟩

end

/-! ## Default names -/

section

variable {s t u : Spot} {f : Find} {word : String} {name z : List Char}

/-- What stands before a semicolon without a blank is no word. -/
theorem not_says_name (hname : IsName name) (ht : t.after = name ++ ';' :: z) (hword : IsWord word) : ¬ Says t word u := by
  intro h
  have hnext := h.word_eq hword
  have hplain : ∀ c ∈ name ++ [';'], (!isSpaceOrTab c) = true := by
    intro c hc
    rcases List.mem_append.mp hc with hc | hc
    · have hpart := hname.parts c hc
      have hne : ∀ {d : Char}, isNamePart d = false → c ≠ d := by
        rintro d hd rfl
        rw [hpart] at hd
        cases hd
      simp only [isSpaceOrTab, Bool.not_eq_true', Bool.or_eq_false_iff, beq_eq_false_iff_ne]
      exact ⟨hne (by decide), hne (by decide)⟩
    · rw [List.mem_singleton.mp hc]
      decide
  rw [ht, ← List.singleton_append, ← List.append_assoc, List.takeWhile_append_of_pos hplain] at hnext
  have hmem : ';' ∈ word.toList := by
    rw [← hnext]
    simp
  exact hword.ne hmem (by decide) rfl

variable (hname : IsName name) (hs : s.after = phrase ["export", "default"] ++ (name ++ ';' :: z))

include hname hs

theorem after_export_default {a : Spot} (ha : a ∈ exportWord.ends s) :
    a.after = "default".toList ++ ' ' :: (name ++ ';' :: z) := by
  rw [after_exportWord hs (by decide) (hname.firm _) ha]
  exact phrase_cons_append _ _ _

theorem findsAt_declaration_default : exportDeclaration.findsAt s = [] := by
  rw [List.eq_nil_iff_forall_not_mem]
  intro f hf
  obtain ⟨a, ha, b, hb, c, hc, d, hd, e, he, w, hw, hread⟩ :=
    mem_lead_exportDeclaration.mp (Extractor.mem_findsAt.mp hf).1
  have hafter := after_export_default hname hs ha
  have hstays : ∀ {x y : Spot} {v : String}, (x = a ∨ x.after = name ++ ';' :: z) → IsWord v → v ≠ "default" →
      ¬ Says x v y := by
    rintro x y v (rfl | hx) hv hne h
    · exact hne (h.reaches hv (by decide) hafter (hname.firm _)).1
    · exact not_says_name hname hx hv h
  have hb : b = a ∨ b.after = name ++ ';' :: z := by
    rcases mem_ends_modifier.mp hb with h | h
    · exact .inr (h.reaches (by decide) (by decide) hafter (hname.firm _)).2.2
    · exact .inl h
  have hnext : ∀ {x y : Spot} {v : String}, (x = a ∨ x.after = name ++ ';' :: z) → IsWord v → v ≠ "default" →
      y ∈ (modifier v).ends x → y = x := by
    intro x y v hx hv hne hy
    rcases mem_ends_modifier.mp hy with h | h
    · exact absurd h (hstays hx hv hne)
    · exact h
  obtain rfl := hnext hb (by decide) (by decide) hc
  obtain rfl := hnext hb (by decide) (by decide) hd
  obtain rfl := hnext hb (by decide) (by decide) he
  refine hstays hb (isWord_of_mem_keywords hw) ?_ hread
  rintro rfl
  exact absurd hw (by decide)

theorem content_of_mem_exportDefault (hf : f ∈ exportDefault.findsAt s) : f.content = name := by
  obtain ⟨a, inner, gap, ha, hread, hinner, hbody, hgap, hgapset, hend⟩ := exists_of_mem_exportDefault hf
  have hthere := (hread.reaches (by decide) (by decide) (after_export_default hname hs ha) (hname.firm _)).2.2
  have hread : ∀ {v r : List Char}, IsName v → (∀ c ∈ r.head?, isNamePart c = false) →
      (v ++ r).takeWhile isNamePart = v := by
    intro v r hv hr
    rw [List.takeWhile_append_of_pos hv.parts]
    cases r with
    | nil => simp
    | cons c r => simp [hr c rfl]
  have hstop : ∀ c ∈ (gap ++ f.stop.after).head?, isNamePart c = false := by
    intro c hc
    cases gap with
    | cons g gap =>
      obtain rfl : g = c := Option.some.inj hc
      have hg := hgapset g List.mem_cons_self
      simp only [isSpaceOrTab, Bool.or_eq_true, beq_iff_eq] at hg
      rcases hg with (rfl | rfl) | rfl <;> decide
    | nil =>
      cases hafter : f.stop.after with
      | nil =>
        rw [List.nil_append, hafter] at hc
        cases hc
      | cons d rest =>
        rw [List.nil_append, hafter] at hc
        obtain rfl : d = c := Option.some.inj hc
        rw [Spot.atLineEnd, hafter] at hend
        obtain rfl : d = '\n' := beq_iff_eq.mp hend
        decide
  have hsemi : ∀ c ∈ (';' :: z).head?, isNamePart c = false := by
    intro c hc
    obtain rfl : ';' = c := Option.some.inj hc
    decide
  have hsame : inner = name := by
    have hleft := hread hinner hstop
    rw [← hgap.2, ← hbody.2, hthere, hread hname hsemi] at hleft
    exact hleft.symm
  rw [← hsame]
  exact hbody.textTo_eq

/-- A name with a semicolon behind it at the end of the line is found. -/
theorem head?_findsAt_default (hz : ∀ c ∈ z.head?, c = '\n') (hstart : s.atLineStart = true) :
    ∃ f, (exportDefault.findsAt s).head? = some f ∧ f.content = name := by
  obtain ⟨u, hreach, hafter⟩ : ∃ u, s.Reaches (phrase ["export"] ++ (phrase ["default"] ++ (name ++ [';']))) u ∧ u.after = z :=
    ⟨⟨_, z⟩, ⟨rfl, by rw [hs]; simp [phrase]⟩, rfl⟩
  obtain ⟨a, ha, hreach⟩ := Spot.reaches_append.mp hreach
  obtain ⟨first, hfirst, hreach⟩ := Spot.reaches_append.mp hreach
  obtain ⟨last, hlast, hstop⟩ := Spot.reaches_append.mp hreach
  have hend : u.atLineEnd = true := by
    unfold Spot.atLineEnd
    rw [hafter]
    cases z with
    | nil => rfl
    | cons c z => exact beq_iff_eq.mpr (hz c rfl)
  have htrail : u ∈ exportDefault.trail.ends last := by
    unfold exportDefault
    simp only [mem_ends_inOrder_cons, mem_ends_inOrder_nil, mem_ends_zeroOrMore, mem_ends_lineEnd, Pattern.optional,
      mem_ends_either, mem_ends_text]
    exact ⟨last, ⟨[], .refl last, by simp⟩, u, .inl hstop, u, ⟨[], .refl u, by simp⟩, u, ⟨rfl, hend⟩, rfl⟩
  have hmem : (⟨first, last, u⟩ : Find) ∈ exportDefault.findsAt s := by
    refine Extractor.mem_findsAt.mpr ⟨?_, mem_ends_exportedName.mpr ⟨name, hlast, hname⟩, htrail⟩
    have hword := (mem_exportWord_phrase hs (by decide) (hname.firm _)).mpr ⟨hstart, ha⟩
    exact mem_lead_exportDefault.mpr ⟨a, hword, says_of_reaches hfirst⟩
  cases hhead : (exportDefault.findsAt s).head? with
  | none =>
    rw [List.head?_eq_none_iff.mp hhead] at hmem
    cases hmem
  | some f => exact ⟨f, rfl, content_of_mem_exportDefault hname hs (List.mem_of_mem_head? hhead)⟩

end

/-! ## Statements -/

structure Tail where
  text : String
  inLine : '\n' ∉ text.toList
  apart : ∀ c ∈ text.toList.head?, isNamePart c = false

inductive Export where
  | declaration (modifiers : Modifiers) (keyword : String) (known : keyword ∈ keywords) (name : Name) (tail : Tail)
  | list (isType : Bool) (items : List Item) (rest : String) (inLine : '\n' ∉ rest.toList)
  | default (name : Name)

namespace Export

def text : Export → String
  | declaration m keyword _ n tail => String.ofList (phrase ("export" :: (m.words ++ [keyword]))) ++ n.text ++ tail.text
  | list isType items rest _ =>
    String.ofList (phrase ("export" :: given isType "type")) ++ "\x7b" ++ ",".intercalate (items.map (" " ++ ·.text)) ++
      " \x7d" ++ rest
  | default n => "export default " ++ n.text ++ ";"

def names : Export → List String
  | declaration _ _ _ n _ => [n.text]
  | list _ items _ _ => items.map (·.exported.text)
  | default n => [n.text]

def inner (items : List Item) : List Char := [','].intercalate (items.map fun i => ' ' :: i.text.toList)

theorem toList_list (isType : Bool) (items : List Item) (rest : String) (h : '\n' ∉ rest.toList) :
    (list isType items rest h).text.toList =
      phrase ("export" :: given isType "type") ++ '\x7b' :: ((inner items ++ [' ']) ++ '\x7d' :: rest.toList) := by
  have hinner : (",".intercalate (items.map (" " ++ ·.text))).toList = inner items := by
    rw [String.toList_intercalate, List.map_map, inner]
    refine congrArg _ (List.map_congr_left fun i _ => ?_)
    rw [Function.comp_apply, String.toList_append]
    rfl
  show (String.ofList (phrase ("export" :: given isType "type")) ++ "\x7b" ++ ",".intercalate (items.map (" " ++ ·.text)) ++
    " \x7d" ++ rest).toList = _
  simp only [String.toList_append, String.toList_ofList, hinner, List.append_assoc]
  rfl

theorem toList_declaration (m : Modifiers) (keyword : String) (h : keyword ∈ keywords) (n : Name) (tail : Tail) :
    (declaration m keyword h n tail).text.toList =
      phrase ("export" :: (m.words ++ [keyword])) ++ (n.text.toList ++ tail.text.toList) := by
  show (String.ofList _ ++ n.text ++ tail.text).toList = _
  simp only [String.toList_append, String.toList_ofList, List.append_assoc]

theorem toList_default (n : Name) :
    (default n).text.toList = phrase ["export", "default"] ++ (n.text.toList ++ [';']) := by
  have hwords : "export default ".toList = phrase ["export", "default"] := by decide
  show ("export default " ++ n.text ++ ";").toList = _
  simp only [String.toList_append, hwords, List.append_assoc]
  rfl

/-- Between the braces stand names, blanks and commas. -/
theorem mem_inner {items : List Item} {c : Char} (h : c ∈ inner items) : isNamePart c = true ∨ c = ' ' ∨ c = ',' := by
  rcases Text.mem_intercalate h with rfl | ⟨p, hp, hc⟩
  · exact .inr (.inr rfl)
  · obtain ⟨i, -, rfl⟩ := List.mem_map.mp hp
    rcases List.mem_cons.mp hc with rfl | hc
    · exact .inr (.inl rfl)
    · rcases i.mem_text c hc with hc | rfl
      · exact .inl hc
      · exact .inr (.inl rfl)

theorem not_mem_inner (items : List Item) {c : Char} (hpart : isNamePart c = false) (hspace : c ≠ ' ') (hcomma : c ≠ ',') :
    c ∉ inner items ++ [' '] := by
  intro h
  rcases List.mem_append.mp h with h | h
  · rcases mem_inner h with h | h | h
    · rw [h] at hpart
      cases hpart
    · exact hspace h
    · exact hcomma h
  · exact hspace (List.mem_singleton.mp h)

/-- The items of a list are found one by one, each with its name. -/
theorem names_of_list {f : Find} {items : List Item} (hf : f.content = inner items ++ [' ']) :
    (listNames f).map (·.2) = items.map (·.exported.text) := by
  have hblank : ∀ p : List Char, itemName? (p ++ [' ']) = itemName? p := by
    intro p
    unfold itemName?
    rw [Text.trim_append_of_blank (by decide)]
  obtain ⟨front, last, hsplit, hsplit'⟩ := @Text.split_append_plain (· == ',') (inner items) [' '] (by decide)
  have hnames : (front ++ [last]).filterMap (fun item => (itemName? item).map String.ofList) =
      items.map (·.exported.text) := by
    rw [← hsplit]
    by_cases hnil : items = []
    · subst hnil
      decide
    · have hpieces : Text.split (· == ',') (inner items) = items.map fun i => ' ' :: i.text.toList := by
        refine Text.split_intercalate rfl (by simpa using hnil) fun p hp c hc => ?_
        obtain ⟨i, -, rfl⟩ := List.mem_map.mp hp
        rw [beq_eq_false_iff_ne]
        rintro rfl
        rcases List.mem_cons.mp hc with hc | hc
        · exact absurd hc (by decide)
        · exact absurd (i.mem_text _ hc) (by decide)
      rw [hpieces, List.filterMap_map, ← List.filterMap_eq_map]
      refine List.filterMap_congr fun i _ => ?_
      rw [Function.comp_apply, itemName?_text, Option.map_some, String.ofList_toList]
      rfl
  rw [map_snd_listNames, hf, hsplit', ← hnames, List.filterMap_append, List.filterMap_append]
  refine congrArg (_ ++ ·) ?_
  simp only [List.filterMap_cons, hblank]

theorem inLine (st : Export) : '\n' ∉ st.text.toList := by
  have hname : ∀ n : Name, '\n' ∉ n.text.toList := fun n => n.not_mem (by decide)
  cases st with
  | declaration m keyword h n tail =>
    have hwords : ∀ w ∈ "export" :: (m.words ++ [keyword]), IsWord w :=
      List.forall_mem_cons.mpr ⟨by decide, isWord_of_mem_heading h⟩
    rw [toList_declaration]
    simp only [List.mem_append, not_or]
    exact ⟨inLine_phrase hwords, hname n, tail.inLine⟩
  | list isType items rest h =>
    have hwords : ∀ w ∈ "export" :: given isType "type", IsWord w :=
      List.forall_mem_cons.mpr ⟨by decide, fun w hw => isWord_of_mem_given hw⟩
    have hinner := not_mem_inner items (c := '\n') (by decide) (by decide) (by decide)
    rw [toList_list]
    simp only [List.mem_append, List.mem_cons, not_or] at hinner ⊢
    exact ⟨inLine_phrase hwords, by decide, hinner, by decide, h⟩
  | default n =>
    rw [toList_default]
    simp only [List.mem_append, not_or]
    exact ⟨inLine_phrase (by decide), hname n, by decide⟩

section

variable {text : String} (hline : Text.OneLine text.toList)

include hline

theorem exports_list {isType : Bool} {items : List Item} {tail : List Char}
    (htext : text.toList = phrase ("export" :: given isType "type") ++ '\x7b' :: ((inner items ++ [' ']) ++ '\x7d' :: tail)) :
    exports text = items.map (·.exported.text) := by
  have hitems := not_mem_inner items (c := '\x7d') (by decide) (by decide) (by decide)
  obtain ⟨f, hf, hcontent⟩ := head?_findsAt_list (s := .start text.toList) htext hitems rfl
  have hfound : exportFound text.toList = listNames f := by
    rw [exportFound_line hline, findsAt_declaration_list (s := .start text.toList) htext, hf,
      findsAt_default_list (s := .start text.toList) htext]
    simp
  rw [exports_eq, hfound, inTextOrder_eq_self ((pairwise_listNames f).imp Nat.le_of_lt), names_of_list hcontent]

theorem exports_default {n : Name} {z : List Char} (hz : ∀ c ∈ z.head?, c = '\n')
    (htext : text.toList = phrase ["export", "default"] ++ (n.text.toList ++ ';' :: z)) : exports text = [n.text] := by
  have hlist : exportList.findsAt (.start text.toList) = [] :=
    findsAt_list_eq_nil htext (by decide) (by decide) (n.isName.firm _) fun h => absurd h (by decide)
  obtain ⟨f, hf, hcontent⟩ := head?_findsAt_default (s := .start text.toList) n.isName htext hz rfl
  have hfree : n.text ∉ declarationWords := by
    have hsub : ∀ w ∈ declarationWords, w ∈ reserved := by decide
    exact fun hmem => n.free (hsub _ hmem)
  have hfound : exportFound text.toList = [(f.offset, n.text)] := by
    rw [exportFound_line hline, findsAt_declaration_default (s := .start text.toList) n.isName htext, hlist, hf]
    simp [hcontent, hfree]
  rw [exports_eq, hfound, inTextOrder_eq_self (List.pairwise_singleton _ _)]
  rfl

end

/-- A statement alone in its line is read by one extractor, and the others find nothing. -/
theorem exports_line (st : Export) {z : String} (hz : z = "" ∨ z = "\n") : exports (st.text ++ z) = st.names := by
  have hline : Text.OneLine (st.text ++ z).toList := Text.oneLine_append st.inLine hz
  have hend : ∀ c ∈ z.toList.head?, c = '\n' := by rcases hz with rfl | rfl <;> decide
  have htext := @String.toList_append st.text z
  cases st with
  | declaration m keyword h n tail =>
    have htail : ∀ c ∈ (tail.text.toList ++ z.toList).head?, isNamePart c = false := by
      intro c hc
      rw [List.head?_append] at hc
      cases hhead : tail.text.toList.head? with
      | some d =>
        rw [hhead] at hc
        exact tail.apart c (hhead.trans hc)
      | none =>
        rw [hhead] at hc
        rw [hend c hc]
        decide
    rw [toList_declaration, List.append_assoc, List.append_assoc] at htext
    rw [exports_declaration hline htext h n.isName htail, String.ofList_toList]
    rfl
  | list isType items rest h =>
    rw [toList_list, List.append_assoc, List.cons_append, List.append_assoc, List.cons_append] at htext
    exact exports_list hline htext
  | default n =>
    rw [toList_default, List.append_assoc, List.append_assoc] at htext
    exact exports_default hline hend htext

/-- No list is left open at the end of the line. -/
theorem not_crosses (st : Export) (y : List Char) : ¬ exportList.Crosses (st.text ++ "\n").toList y := by
  refine anchored_exportList.not_crosses_line (Text.oneLine_append st.inLine (.inr rfl)) fun f hf => ?_
  have htext : (st.text ++ "\n").toList ++ y = st.text.toList ++ ('\n' :: y) := by
    rw [String.toList_append, List.append_assoc]
    rfl
  rw [htext] at hf
  cases st with
  | declaration m keyword h n tail =>
    rw [toList_declaration, List.append_assoc, List.append_assoc,
      findsAt_list_eq_nil rfl (isWord_of_mem_heading h) (by simp) (n.isName.firm _)
        fun _ => n.isName.head?_ne (by decide) _] at hf
    cases hf
  | list isType items rest h =>
    rw [toList_list, List.append_assoc, List.cons_append, List.append_assoc, List.cons_append] at hf
    have hitems := not_mem_inner items (c := '\x7d') (by decide) (by decide) (by decide)
    have hstop := (mem_findsAt_list (s := .start _) rfl hitems hf).2
    refine decide_eq_true ?_
    rw [hstop, List.length_append, List.length_cons]
    omega
  | default n =>
    rw [toList_default, List.append_assoc, List.append_assoc,
      findsAt_list_eq_nil rfl (by decide) (by decide) (n.isName.firm _) fun h => absurd h (by decide)] at hf
    cases hf

end Export

/-- Export statements that are written one per line are read back: the names that they export, in order. -/
theorem exports_listing (ended : Bool) (sts : List Export) :
    exports (listing Export.text ended sts) = sts.flatMap Export.names := by
  -- on the statements: the first line is read on its own, and the others after it
  refine listing_induction (motive := fun sts content => exports content = sts.flatMap Export.names)
    (congrArg (List.map _) (inTextOrder_eq_self .nil)) ?last ?next ended sts
  case last =>
    intro st z hz
    rw [st.exports_line hz, List.flatMap_singleton]
  case next =>
    intro st sts rest ih
    have hends : Text.EndsLine (st.text ++ "\n").toList := .inr ⟨st.text.toList, String.toList_append⟩
    rw [exports_append hends (st.not_crosses _), st.exports_line (.inr rfl), ih, List.flatMap_cons]

end LayerLint.Source
