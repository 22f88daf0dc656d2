/-
  LayerLint.Proofs.Source.Anonymous: default exports without a name.

  A class or a function may be exported as the default without a name of its own (`Anonymous`). No extractor has a word
  for that. Behind `class` or `function` a brace or a bracket comes, and nothing is found; behind `class` the word
  `extends` may come, and that is taken for the name (`exports_line`). What stands before the line is read as it is
  alone, if it leaves no list open (`exports_anonymous`).
-/

import LayerLint.Proofs.Source.Headings

namespace LayerLint.Source

open Pattern

variable {x y : List Char}

/-! ## Open lists -/

/-- Every list that starts in the text ends in it. -/
def ListsClosed (x : List Char) : Prop :=
  ∀ s t : Spot, s.whole = x → t ∈ exportList.lead.ends s → '\x7d' ∈ t.after

def spots (x : List Char) : List Spot := (List.range (x.length + 1)).map fun i => ⟨(x.take i).reverse, x.drop i⟩

theorem mem_spots {s : Spot} : s ∈ spots x ↔ s.whole = x := by
  constructor
  · intro h
    obtain ⟨i, -, rfl⟩ := List.mem_map.mp h
    simp [Spot.whole]
  · rintro rfl
    refine List.mem_map.mpr ⟨s.before.length, ?_, ?_⟩
    · rw [List.mem_range, Spot.whole, List.length_append, List.length_reverse]
      omega
    · obtain ⟨before, after⟩ := s
      show (⟨((before.reverse ++ after).take before.length).reverse, (before.reverse ++ after).drop before.length⟩ : Spot) = _
      rw [List.take_left' List.length_reverse, List.drop_left' List.length_reverse, List.reverse_reverse]

theorem listsClosed_iff : ListsClosed x ↔ ∀ s ∈ spots x, ∀ t ∈ exportList.lead.ends s, '\x7d' ∈ t.after := by
  constructor
  · intro h s hs t ht
    exact h s t (mem_spots.mp hs) ht
  · intro h s t hs ht
    exact h s (mem_spots.mpr hs) t ht

instance (x : List Char) : Decidable (ListsClosed x) := decidable_of_iff _ listsClosed_iff.symm

theorem inLine_exportList_lead : exportList.lead.InLine := by
  refine inLine_inOrder ?_
  simp only [List.forall_mem_cons, List.not_mem_nil, false_implies, implies_true, and_true]
  exact ⟨inLine_exportWord, inLine_modifier (by decide), inLine_text (by decide)⟩

theorem ListsClosed.not_crosses (h : ListsClosed x) (hx : Text.EndsLine x) (y : List Char) : ¬ exportList.Crosses x y := by
  rintro ⟨s, f, hs, hne, hf, hstop⟩
  obtain ⟨hfirst, items, hitems, hplain, hclose⟩ := mem_exportList.mp hf
  have hahead : f.first.ahead y = true := by
    obtain ⟨w, hw, hfeed⟩ := inLine_exportList_lead _ _ hfirst
    exact hw.ahead_of_feed_not_mem (hs ▸ hx) hne hfeed
  have hmem : f.first ∈ ((exportList.lead.ends s).map (Spot.followedBy y)).filter (Spot.ahead y) := by
    rw [← filter_ends_followedBy]
    exact List.mem_filter.mpr ⟨hfirst, hahead⟩
  obtain ⟨t, ht, heq⟩ := List.mem_map.mp (List.mem_filter.mp hmem).1
  obtain ⟨before, after, hbrace, hbefore⟩ := List.eq_append_cons_of_mem (h s t hs ht)
  have hsplit : items ++ '\x7d' :: f.stop.after = before ++ '\x7d' :: (after ++ y) := by
    have hthere : t.after ++ y = items ++ f.last.after := by
      rw [← hitems.2, ← heq]
      rfl
    rw [hbrace, hclose.2, List.append_assoc] at hthere
    exact hthere.symm
  obtain ⟨-, hafter⟩ := closing_brace_inj hplain hbefore hsplit
  have hne : after ≠ [] := by
    rintro rfl
    obtain ⟨w, hw⟩ := reaches_of_mem_ends ht
    rw [← hs, ← hw.whole_eq] at hx
    obtain ⟨front, hfront⟩ := Spot.exists_after_eq hx (by rw [hbrace]; simp)
    rw [hbrace] at hfront
    exact absurd (List.singleton_inj.mp (List.append_inj' hfront rfl).2) (by decide)
  have hlong : y.length < f.stop.after.length := by
    have hpos := List.length_pos_iff.mpr hne
    rw [hafter, List.length_append]
    omega
  exact absurd hlong (of_decide_eq_false hstop)

/-! ## Anonymous exports -/

/-- A class or a function that is exported as the default and has no name. The texts stand in one line. -/
inductive Anonymous where
  | baseClass (isAbstract : Bool) (body : String) (inLine : '\n' ∉ body.toList)
  | subclass (isAbstract : Bool) (parent body : String) (inLine : '\n' ∉ parent.toList ∧ '\n' ∉ body.toList)
  | function (isAsync isGenerator : Bool) (parameters body : String)
      (inLine : '\n' ∉ parameters.toList ∧ '\n' ∉ body.toList)

namespace Anonymous

def modifiers : Anonymous → Modifiers
  | baseClass isAbstract _ _ | subclass isAbstract _ _ _ => ⟨true, false, isAbstract, false⟩
  | function isAsync _ _ _ _ => ⟨true, false, false, isAsync⟩

def keyword : Anonymous → String
  | baseClass _ _ _ | subclass _ _ _ _ => "class"
  | function _ isGenerator _ _ _ => if isGenerator then "function*" else "function"

def rest : Anonymous → String
  | baseClass _ body _ => "\x7b" ++ body ++ "\x7d"
  | subclass _ parent body _ => "extends " ++ parent ++ " \x7b" ++ body ++ "\x7d"
  | function _ _ parameters body _ => "(" ++ parameters ++ ") \x7b" ++ body ++ "\x7d"

def text (d : Anonymous) : String := String.ofList (phrase ("export" :: (d.modifiers.words ++ [d.keyword]))) ++ d.rest

def taken : Anonymous → List String
  | subclass _ _ _ _ => ["extends"]
  | baseClass _ _ _ | function _ _ _ _ _ => []

theorem keyword_known (d : Anonymous) : d.keyword ∈ keywords := by
  have hclass : "class" ∈ keywords := by decide
  have hfunction : ∀ b : Bool, (if b then "function*" else "function") ∈ keywords := by decide
  cases d with
  | baseClass => exact hclass
  | subclass => exact hclass
  | function isAsync isGenerator => exact hfunction isGenerator

theorem inLine_rest (d : Anonymous) : '\n' ∉ d.rest.toList := by
  cases d with
  | baseClass isAbstract body h => simpa [rest] using h
  | subclass isAbstract parent body h => simpa [rest] using h
  | function isAsync isGenerator parameters body h => simpa [rest] using h

theorem exports_line (d : Anonymous) {z : String} (hz : z = "" ∨ z = "\n") : exports (d.text ++ z) = d.taken := by
  have htext : (d.text ++ z).toList =
      phrase ("export" :: (d.modifiers.words ++ [d.keyword])) ++ (d.rest.toList ++ z.toList) := by
    simp [text]
  have hline : Text.OneLine (d.text ++ z).toList := by
    refine Text.oneLine_append ?_ hz
    have hphrase : '\n' ∉ phrase ("export" :: (d.modifiers.words ++ [d.keyword])) :=
      inLine_phrase (List.forall_mem_cons.mpr ⟨by decide, isWord_of_mem_heading d.keyword_known⟩)
    rw [text, String.toList_append, String.toList_ofList, List.mem_append, not_or]
    exact ⟨hphrase, d.inLine_rest⟩
  have hdefault : d.modifiers.words ≠ [] := by
    cases d <;> simp [modifiers, Modifiers.words, given]
  have hbracket : ∀ {c : Char} {r : List Char}, d.rest.toList = c :: r → isNameStart c = false →
      Text.isSpaceOrTab c = false ∧ c ≠ ';' ∧ c ≠ '\n' → exports (d.text ++ z) = [] := by
    intro c r hrest hstart hfirm
    refine exports_nameless hline htext d.keyword_known ?_ ?_ fun hnone => absurd hnone hdefault
    · rw [hrest]
      exact ⟨c, rfl, hfirm⟩
    · rw [hrest]
      rintro _ ⟨⟩
      exact hstart
  cases d with
  | baseClass isAbstract body h =>
    have hrest : (baseClass isAbstract body h).rest.toList = '\x7b' :: (body ++ "\x7d").toList := by
      show ("\x7b" ++ body ++ "\x7d").toList = _
      rw [String.append_assoc, String.toList_append]
      rfl
    exact hbracket hrest (by decide) (by decide)
  | subclass isAbstract parent body h =>
    have hrest : (subclass isAbstract parent body h).rest.toList ++ z.toList =
        "extends".toList ++ ' ' :: ((parent ++ " \x7b" ++ body ++ "\x7d").toList ++ z.toList) := by
      show ("extends " ++ parent ++ " \x7b" ++ body ++ "\x7d").toList ++ z.toList = _
      simp only [String.append_assoc, String.toList_append, List.append_assoc]
      rfl
    rw [hrest] at htext
    have hname : String.ofList "extends".toList = "extends" := String.ofList_toList
    rw [exports_declaration hline htext (keyword_known _) ?_ ?_, hname]
    · rfl
    · exact ⟨'e', "xtends".toList, rfl, by decide, by decide⟩
    · rintro _ ⟨⟩
      decide
  | function isAsync isGenerator parameters body h =>
    have hrest : (function isAsync isGenerator parameters body h).rest.toList =
        '(' :: (parameters ++ ") \x7b" ++ body ++ "\x7d").toList := by
      show ("(" ++ parameters ++ ") \x7b" ++ body ++ "\x7d").toList = _
      simp only [String.append_assoc, String.toList_append]
      rfl
    exact hbracket hrest (by decide) (by decide)

end Anonymous

/-- A class or a function without a name that is exported as the default adds nothing to the exports of the text
    before it, or the word `extends`. -/
theorem exports_anonymous (a : String) (ha : Text.EndsLine a.toList) (hclosed : ListsClosed a.toList) (d : Anonymous)
    (ended : Bool) : exports (a ++ (d.text ++ if ended then "\n" else "")) = exports a ++ d.taken := by
  rw [exports_append ha (hclosed.not_crosses ha _), d.exports_line (by cases ended <;> simp)]

/-- A list is closed, an anonymous class follows, and the class is passed over; then one with a parent, and a word that
    is no name is taken for it. -/
theorem exports_anonymous_after_list :
    exports ("export \x7b a, b as c \x7d;\n" ++ ((Anonymous.baseClass false " " (by decide)).text ++ "\n")) = ["a", "c"] ∧
      exports ("export \x7b a, b as c \x7d;\n" ++ ((Anonymous.subclass true "Base" " " (by decide)).text ++ "")) =
        ["a", "c", "extends"] := by
  have hends : Text.EndsLine "export \x7b a, b as c \x7d;\n".toList := .inr ⟨"export \x7b a, b as c \x7d;".toList, by decide⟩
  have hclosed : ListsClosed "export \x7b a, b as c \x7d;\n".toList := by decide +kernel
  have hbefore : exports "export \x7b a, b as c \x7d;\n" = ["a", "c"] := by
    rw [exports_eq, inTextOrder_eq_self (by decide +kernel)]
    decide +kernel
  constructor
  · exact (exports_anonymous _ hends hclosed (.baseClass false " " (by decide)) true).trans (by rw [hbefore]; rfl)
  · exact (exports_anonymous _ hends hclosed (.subclass true "Base" " " (by decide)) false).trans (by rw [hbefore]; rfl)

/-- The default export of an anonymous class is not reported as `default`, nor at all. -/
theorem anonymous_class_unreported : exports "export default class \x7b \x7d\n" = [] := by decide +kernel

end LayerLint.Source
