/-
  LayerLint.Proofs.Source.Exports: what the extractors of exports read, and where the names stand.

  All three start at the start of a line with `export` and blanks (`mem_ends_exportWord`). A declaration and a default
  stay in their line (`lined_exportDeclaration`, `lined_exportDefault`); a list goes on to the next closing brace. A name
  of a list has a place that is made up, but it lies between the braces (`lt_of_mem_exportFound`). So where no list is
  open at the end of a line, the exports up to there come first and the others follow (`exports_append`).
-/

import LayerLint.Source.Export
import LayerLint.Proofs.Pattern.Lines
import LayerLint.Proofs.Source.Places
import LayerLint.Proofs.Text.Split

namespace LayerLint.Source

open Pattern
open Text (isSpaceOrTab)

variable {s t : Spot} {f : Find} {x y : List Char}

/-! ## Words -/

def Says (s : Spot) (word : String) (t : Spot) : Prop :=
  ∃ gap, s.Reaches (word.toList ++ gap) t ∧ gap ≠ [] ∧ ∀ c ∈ gap, isSpaceOrTab c = true

theorem mem_ends_gap : t ∈ (oneOrMore isSpaceOrTab).ends s ↔
    ∃ gap, s.Reaches gap t ∧ gap ≠ [] ∧ ∀ c ∈ gap, isSpaceOrTab c = true := by
  rw [oneOrMore, mem_ends_run]
  refine exists_congr fun gap => and_congr_right fun _ => ?_
  rw [Nat.one_le_iff_ne_zero, Ne, List.length_eq_zero_iff]
  exact And.comm

theorem says_iff {word : String} : Says s word t ↔ ∃ u, s.Reaches word.toList u ∧ t ∈ (oneOrMore isSpaceOrTab).ends u := by
  constructor
  · rintro ⟨gap, hreach, hgap⟩
    obtain ⟨u, hu, ht⟩ := Spot.reaches_append.mp hreach
    exact ⟨u, hu, mem_ends_gap.mpr ⟨gap, ht, hgap⟩⟩
  · rintro ⟨u, hu, ht⟩
    obtain ⟨gap, ht, hgap⟩ := mem_ends_gap.mp ht
    exact ⟨gap, hu.trans ht, hgap⟩

theorem mem_ends_modifier {word : String} : t ∈ (modifier word).ends s ↔ Says s word t ∨ t = s := by
  unfold modifier Pattern.optional
  rw [mem_ends_either, says_iff]
  refine or_congr ?_ List.mem_singleton
  show t ∈ ((text word).ends s).flatMap _ ↔ _
  rw [List.mem_flatMap]
  exact exists_congr fun u => and_congr_left fun _ => mem_ends_text

theorem mem_ends_exportWord : t ∈ exportWord.ends s ↔
    s.atLineStart = true ∧ ∃ indent u, s.Reaches indent u ∧ (∀ c ∈ indent, isSpaceOrTab c = true) ∧ Says u "export" t := by
  unfold exportWord
  simp only [mem_ends_inOrder_cons, mem_ends_inOrder_nil, mem_ends_lineStart, mem_ends_zeroOrMore, mem_ends_text, says_iff]
  constructor
  · rintro ⟨_, ⟨rfl, hs⟩, u, ⟨indent, hu, hindent⟩, v, hv, w, hw, rfl⟩
    exact ⟨hs, indent, u, hu, hindent, v, hv, hw⟩
  · rintro ⟨hs, indent, u, hu, hindent, v, hv, hw⟩
    exact ⟨s, ⟨rfl, hs⟩, u, ⟨indent, hu, hindent⟩, v, hv, t, hw, rfl⟩

def keywords : List String :=
  ["class", "interface", "type", "enum", "function", "function*", "const", "let", "var", "namespace"]

theorem mem_ends_keyword :
    t ∈ (oneOf (text "class")
      [text "interface", text "type", text "enum", seq (text "function") (Pattern.optional (text "*")),
       text "const", text "let", text "var", text "namespace"]).ends s ↔ ∃ w ∈ keywords, s.Reaches w.toList t := by
  have hfunction : t ∈ (seq (text "function") (Pattern.optional (text "*"))).ends s ↔
      s.Reaches "function".toList t ∨ s.Reaches "function*".toList t := by
    have hstar : "function*".toList = "function".toList ++ "*".toList := by decide
    show t ∈ ((text "function").ends s).flatMap _ ↔ _
    rw [List.mem_flatMap, hstar, Spot.reaches_append]
    constructor
    · rintro ⟨u, hu, ht⟩
      rw [mem_ends_text] at hu
      rcases mem_ends_either.mp ht with ht | ht
      · exact .inr ⟨u, hu, mem_ends_text.mp ht⟩
      · obtain rfl := List.mem_singleton.mp ht
        exact .inl hu
    · rintro (ht | ⟨u, hu, ht⟩)
      · exact ⟨t, mem_ends_text.mpr ht, mem_ends_either.mpr (.inr (List.mem_singleton_self t))⟩
      · exact ⟨u, mem_ends_text.mpr hu, mem_ends_either.mpr (.inl (mem_ends_text.mpr ht))⟩
  rw [mem_ends_oneOf]
  simp only [keywords, List.mem_cons, List.not_mem_nil, or_false, exists_eq_or_imp, exists_eq_left, mem_ends_text,
    hfunction, or_assoc]

theorem mem_lead_exportDeclaration : t ∈ exportDeclaration.lead.ends s ↔
    ∃ a, a ∈ exportWord.ends s ∧ ∃ b, b ∈ (modifier "default").ends a ∧ ∃ c, c ∈ (modifier "declare").ends b ∧
      ∃ d, d ∈ (modifier "abstract").ends c ∧ ∃ e, e ∈ (modifier "async").ends d ∧ ∃ w ∈ keywords, Says e w t := by
  unfold exportDeclaration
  simp only [mem_ends_inOrder_cons, mem_ends_inOrder_nil, mem_ends_keyword, says_iff]
  constructor
  · rintro ⟨a, ha, b, hb, c, hc, d, hd, e, he, u, ⟨w, hw, hu⟩, _, ht, rfl⟩
    exact ⟨a, ha, b, hb, c, hc, d, hd, e, he, w, hw, u, hu, ht⟩
  · rintro ⟨a, ha, b, hb, c, hc, d, hd, e, he, w, hw, u, hu, ht⟩
    exact ⟨a, ha, b, hb, c, hc, d, hd, e, he, u, ⟨w, hw, hu⟩, t, ht, rfl⟩

theorem mem_lead_exportList : t ∈ exportList.lead.ends s ↔
    ∃ a, a ∈ exportWord.ends s ∧ ∃ b, b ∈ (modifier "type").ends a ∧ b.Reaches ['\x7b'] t := by
  unfold exportList
  simp only [mem_ends_inOrder_cons, mem_ends_inOrder_nil, mem_ends_text]
  constructor
  · rintro ⟨a, ha, b, hb, _, ht, rfl⟩
    exact ⟨a, ha, b, hb, ht⟩
  · rintro ⟨a, ha, b, hb, ht⟩
    exact ⟨a, ha, b, hb, t, ht, rfl⟩

theorem mem_lead_exportDefault : t ∈ exportDefault.lead.ends s ↔ ∃ a, a ∈ exportWord.ends s ∧ Says a "default" t := by
  unfold exportDefault
  simp only [mem_ends_inOrder_cons, mem_ends_inOrder_nil, mem_ends_text, says_iff]
  constructor
  · rintro ⟨a, ha, u, hu, _, ht, rfl⟩
    exact ⟨a, ha, u, hu, ht⟩
  · rintro ⟨a, ha, u, hu, ht⟩
    exact ⟨a, ha, u, hu, t, ht, rfl⟩

/-! ## Names -/

def IsName (name : List Char) : Prop :=
  ∃ c rest, name = c :: rest ∧ isNameStart c = true ∧ ∀ a ∈ rest, isNamePart a = true

theorem mem_ends_exportedName : t ∈ exportedName.ends s ↔ ∃ name, s.Reaches name t ∧ IsName name := by
  show t ∈ ((one isNameStart).ends s).flatMap _ ↔ _
  rw [List.mem_flatMap]
  constructor
  · rintro ⟨u, hu, ht⟩
    obtain ⟨c, hc, hu⟩ := mem_ends_one.mp hu
    obtain ⟨rest, ht, hrest⟩ := mem_ends_zeroOrMore.mp ht
    exact ⟨c :: rest, hu.trans ht, c, rest, rfl, hc, hrest⟩
  · rintro ⟨_, hreach, c, rest, rfl, hc, hrest⟩
    rw [← List.singleton_append] at hreach
    obtain ⟨u, hu, ht⟩ := Spot.reaches_append.mp hreach
    exact ⟨u, mem_ends_one.mpr ⟨c, hc, hu⟩, mem_ends_zeroOrMore.mpr ⟨rest, ht, hrest⟩⟩

theorem isAscii_of_isAsciiLetter {c : Char} (h : Text.isAsciiLetter c = true) : Text.isAscii c = true := by
  have hz : c ≤ 'z' := by
    simp only [Text.isAsciiLetter, Text.isAsciiUpper, Text.isAsciiLower, Bool.or_eq_true, Bool.and_eq_true,
      decide_eq_true_eq] at h
    rcases h with ⟨-, h⟩ | ⟨-, h⟩
    · exact Char.le_trans h (by decide)
    · exact h
  have hnat : c.toNat ≤ 'z'.toNat := UInt32.le_iff_toNat_le.mp hz
  exact decide_eq_true (Nat.lt_of_le_of_lt hnat (by decide))

theorem isNamePart_of_isNameStart {c : Char} (h : isNameStart c = true) : isNamePart c = true := by
  simp only [isNameStart, Bool.or_eq_true, beq_iff_eq] at h
  rcases h with (h | rfl) | rfl
  · simp [isNamePart, Text.isWord, Text.isAsciiAlphanumeric, isAscii_of_isAsciiLetter h, h]
  · decide
  · decide

theorem IsName.parts {name : List Char} (h : IsName name) : ∀ c ∈ name, isNamePart c = true := by
  obtain ⟨c, rest, rfl, hc, hrest⟩ := h
  exact List.forall_mem_cons.mpr ⟨isNamePart_of_isNameStart hc, hrest⟩

theorem IsName.ne_nil {name : List Char} (h : IsName name) : name ≠ [] := by
  obtain ⟨c, rest, rfl, -⟩ := h
  exact List.cons_ne_nil c rest

/-! ## Extractors -/

theorem inLine_gap : (oneOrMore isSpaceOrTab).InLine := inLine_run (by decide)

theorem inLine_spaces : (zeroOrMore isSpaceOrTab).InLine := inLine_run (by decide)

theorem inLine_modifier {word : String} (h : '\n' ∉ word.toList) : (modifier word).InLine :=
  ((inLine_text h).seq inLine_gap).optional

theorem inLine_exportWord : exportWord.InLine := by
  refine inLine_inOrder ?_
  simp only [List.forall_mem_cons, List.not_mem_nil, false_implies, implies_true, and_true]
  exact ⟨inLine_lineStart, inLine_spaces, inLine_text (by decide), inLine_gap⟩

theorem inLine_exportDefault_trail : exportDefault.trail.InLine := by
  refine inLine_inOrder ?_
  simp only [List.forall_mem_cons, List.not_mem_nil, false_implies, implies_true, and_true]
  exact ⟨inLine_spaces, (inLine_text (by decide)).optional, inLine_spaces, inLine_lineEnd⟩

theorem inLine_exportDeclaration_lead : exportDeclaration.lead.InLine := by
  refine inLine_inOrder ?_
  simp only [List.forall_mem_cons, List.not_mem_nil, false_implies, implies_true, and_true]
  refine ⟨inLine_exportWord, inLine_modifier (by decide), inLine_modifier (by decide), inLine_modifier (by decide),
    inLine_modifier (by decide), ?_, inLine_gap⟩
  intro s t ht
  obtain ⟨w, hw, hreach⟩ := mem_ends_keyword.mp ht
  have hfeed : ∀ w ∈ keywords, '\n' ∉ w.toList := by decide
  exact ⟨w.toList, hreach, hfeed w hw⟩

theorem inLine_exportDefault_lead : exportDefault.lead.InLine := by
  refine inLine_inOrder ?_
  simp only [List.forall_mem_cons, List.not_mem_nil, false_implies, implies_true, and_true]
  exact ⟨inLine_exportWord, inLine_text (by decide), inLine_gap⟩

/-- A match whose middle part is a name is not empty, and it reads no line feed if its other parts do not. -/
theorem inLine_named {e : Extractor} (hbody : e.body = exportedName) (hlead : e.lead.InLine) (htrail : e.trail.InLine)
    (h : f ∈ e.findsAt s) : ∃ w, s.Reaches w f.stop ∧ w ≠ [] ∧ '\n' ∉ w := by
  obtain ⟨hfirst, hlast, hstop⟩ := Extractor.mem_findsAt.mp h
  rw [hbody] at hlast
  obtain ⟨u, hu, hufeed⟩ := hlead _ _ hfirst
  obtain ⟨name, hname, hisName⟩ := mem_ends_exportedName.mp hlast
  obtain ⟨v, hv, hvfeed⟩ := htrail _ _ hstop
  have hnamefeed : '\n' ∉ name := fun hmem => absurd (hisName.parts _ hmem) (by decide)
  refine ⟨u ++ (name ++ v), hu.trans (hname.trans hv), by simp [hisName.ne_nil], ?_⟩
  simp only [List.mem_append, not_or]
  exact ⟨hufeed, hnamefeed, hvfeed⟩

theorem atLineStart_of_mem_exportWord (h : t ∈ exportWord.ends s) : s.atLineStart = true := (mem_ends_exportWord.mp h).1

theorem lined_exportDeclaration : exportDeclaration.Lined := by
  refine ⟨fun s f hf => ?_, fun s f hf => inLine_named rfl inLine_exportDeclaration_lead inLine_empty hf⟩
  obtain ⟨a, ha, -⟩ := mem_lead_exportDeclaration.mp (Extractor.mem_findsAt.mp hf).1
  exact atLineStart_of_mem_exportWord ha

theorem lined_exportDefault : exportDefault.Lined := by
  refine ⟨fun s f hf => ?_, fun s f hf => inLine_named rfl inLine_exportDefault_lead inLine_exportDefault_trail hf⟩
  obtain ⟨a, ha, -⟩ := mem_lead_exportDefault.mp (Extractor.mem_findsAt.mp hf).1
  exact atLineStart_of_mem_exportWord ha

theorem anchored_exportList : exportList.Anchored := by
  intro s f hf
  obtain ⟨a, ha, -⟩ := mem_lead_exportList.mp (Extractor.mem_findsAt.mp hf).1
  exact atLineStart_of_mem_exportWord ha

/-- A list goes up to the next closing brace. -/
theorem mem_exportList : f ∈ exportList.findsAt s ↔ f.first ∈ exportList.lead.ends s ∧
    ∃ items, f.first.Reaches items f.last ∧ '\x7d' ∉ items ∧ f.last.Reaches ['\x7d'] f.stop := by
  rw [Extractor.mem_findsAt]
  refine and_congr_right fun _ => ?_
  show f.last ∈ (zeroOrMore _).ends _ ∧ f.stop ∈ (text _).ends _ ↔ _
  rw [mem_ends_zeroOrMore, mem_ends_text]
  constructor
  · rintro ⟨⟨items, hitems, hplain⟩, hstop⟩
    exact ⟨items, hitems, fun hmem => absurd (hplain _ hmem) (by decide), hstop⟩
  · rintro ⟨items, hitems, hplain, hstop⟩
    refine ⟨⟨items, hitems, fun c hc => ?_⟩, hstop⟩
    rw [bne_iff_ne]
    rintro rfl
    exact hplain hc

/-- The brace that closes a list is the first one there is. -/
theorem closing_brace_inj {v w : List Char} (hv : '\x7d' ∉ v) (hw : '\x7d' ∉ w) (h : v ++ '\x7d' :: x = w ++ '\x7d' :: y) :
    v = w ∧ x = y := by
  have hplain : ∀ {l : List Char}, '\x7d' ∉ l → ∀ c ∈ l, (c == '\x7d') = false := by
    intro l hl c hc
    rw [beq_eq_false_iff_ne]
    rintro rfl
    exact hl hc
  obtain ⟨hvw, -, hxy⟩ := Text.cut_inj (hplain hv) (hplain hw) (beq_self_eq_true _) (beq_self_eq_true _) h
  exact ⟨hvw, hxy⟩

theorem solid_exportList : exportList.Solid := by
  intro s f hf
  obtain ⟨hfirst, items, hitems, -, hstop⟩ := mem_exportList.mp hf
  obtain ⟨w, hw⟩ := reaches_of_mem_ends hfirst
  exact ⟨w ++ items, '\x7d', (hw.trans hitems).trans hstop, by decide⟩

/-! ## Places -/

/-- The names a text exports with their places, as they are found. -/
def exportFound (text : List Char) : List (Nat × String) :=
  namesOf exportDeclaration text ++ (exportList.finds text).flatMap listNames ++
    (namesOf exportDefault text).filter fun f => !declarationWords.contains f.2

theorem exports_eq (content : String) : exports content = (inTextOrder (exportFound content.toList)).map (·.2) := rfl

/-- In a single line each extractor finds at most what stands at its start. -/
theorem exportFound_line {text : List Char} (h : Text.OneLine text) :
    exportFound text =
      (exportDeclaration.findsAt (.start text)).head?.toList.map (fun f => (f.offset, String.ofList f.content)) ++
        (exportList.findsAt (.start text)).head?.toList.flatMap listNames ++
        ((exportDefault.findsAt (.start text)).head?.toList.map fun f => (f.offset, String.ofList f.content)).filter
          fun f => !declarationWords.contains f.2 := by
  unfold exportFound namesOf
  rw [lined_exportDeclaration.anchored.finds_line lined_exportDeclaration.solid h,
    anchored_exportList.finds_line solid_exportList h, lined_exportDefault.anchored.finds_line lined_exportDefault.solid h]

theorem lt_of_mem_namesOf {e : Extractor} (hbody : e.body = exportedName) {text : List Char} {p : Nat × String}
    (hp : p ∈ namesOf e text) : p.1 < Text.byteSize text := by
  obtain ⟨f, hf, rfl⟩ := List.mem_map.mp hp
  obtain ⟨s, hs, hfind⟩ := Extractor.mem_findsFrom hf
  have hlast := (Extractor.mem_findsAt.mp hfind).2.1
  rw [hbody] at hlast
  obtain ⟨name, hname, hisName⟩ := mem_ends_exportedName.mp hlast
  exact offset_add_lt (n := 0) (Extractor.whole_of_mem_finds hf) hname (Text.byteSize_pos hisName.ne_nil)

theorem listNames_eq (f : Find) :
    listNames f = (Text.split (· == ',') f.content).zipIdx.filterMap fun p =>
      (itemName? p.1).map fun name => (f.offset + p.2, String.ofList name) := rfl

theorem map_snd_listNames (f : Find) :
    (listNames f).map (·.2) =
      (Text.split (· == ',') f.content).filterMap fun item => (itemName? item).map String.ofList := by
  have hitems : (Text.split (· == ',') f.content).zipIdx.map (·.1) = Text.split (· == ',') f.content :=
    List.zipIdx_map_fst 0 _
  rw [listNames_eq, List.map_filterMap]
  conv => rhs; rw [← hitems, List.filterMap_map]
  refine List.filterMap_congr fun p _ => ?_
  rw [Option.map_map]
  rfl

/-- The names of a list are in order. -/
theorem pairwise_listNames (f : Find) : (listNames f).Pairwise fun a b => a.1 < b.1 := by
  have hindices : (Text.split (· == ',') f.content).zipIdx.Pairwise fun a b => a.2 < b.2 := by
    rw [← List.pairwise_map, List.zipIdx_map_snd]
    exact List.pairwise_lt_range'
  rw [listNames_eq]
  refine List.Pairwise.filterMap _ (fun a b hab p hp q hq => ?_) hindices
  obtain ⟨-, -, rfl⟩ := Option.map_eq_some_iff.mp hp
  obtain ⟨-, -, rfl⟩ := Option.map_eq_some_iff.mp hq
  exact Nat.add_lt_add_left hab _

/-- There are no more items than characters between the braces, so each has its place there. -/
theorem offset_add_lt_stop {text : List Char} (hf : f ∈ exportList.finds text) {i : Nat}
    (hi : i < (Text.split (· == ',') f.content).length) : f.offset + i < Text.byteSize f.stop.before := by
  obtain ⟨s, hs, hfind⟩ := Extractor.mem_findsFrom hf
  obtain ⟨-, items, hitems, -, hstop⟩ := mem_exportList.mp hfind
  have hcontent : f.content = items := hitems.textTo_eq
  have hpieces := Text.length_split_le (· == ',') items
  have hchars := Text.length_le_byteSize items
  have hbrace : Text.byteSize ['\x7d'] = 1 := by decide
  rw [hcontent] at hi
  rw [hstop.byteSize_before, hitems.byteSize_before, hbrace]
  show Text.byteSize f.first.before + i < _
  omega

theorem lt_of_mem_listNames {text : List Char} (hf : f ∈ exportList.finds text) {p : Nat × String}
    (hp : p ∈ listNames f) : p.1 < Text.byteSize text := by
  rw [listNames_eq] at hp
  obtain ⟨⟨item, i⟩, hi, hname⟩ := List.mem_filterMap.mp hp
  obtain ⟨name, -, rfl⟩ := Option.map_eq_some_iff.mp hname
  have hlt : i < (Text.split (· == ',') f.content).length :=
    (List.getElem?_eq_some_iff.mp (List.mem_zipIdx_iff_getElem?.mp hi)).1
  have hplace := offset_add_lt_stop hf hlt
  have hwhole := congrArg Text.byteSize (Extractor.stop_whole_of_mem_finds hf)
  rw [Spot.whole, Text.byteSize_append, Text.byteSize_reverse] at hwhole
  show f.offset + i < _
  omega

theorem lt_of_mem_exportFound {text : List Char} {p : Nat × String} (hp : p ∈ exportFound text) :
    p.1 < Text.byteSize text := by
  unfold exportFound at hp
  rw [List.mem_append, List.mem_append] at hp
  rcases hp with (hp | hp) | hp
  · exact lt_of_mem_namesOf rfl hp
  · obtain ⟨f, hf, hp⟩ := List.mem_flatMap.mp hp
    exact lt_of_mem_listNames hf hp
  · exact lt_of_mem_namesOf rfl (List.mem_filter.mp hp).1

/-! ## Two texts -/

def further (n : Nat) (p : Nat × String) : Nat × String := (p.1 + n, p.2)

theorem inTextOrder_further (n : Nat) (l : List (Nat × String)) :
    inTextOrder (l.map (further n)) = (inTextOrder l).map (further n) := by
  refine (List.map_mergeSort fun p _ q _ => ?_).symm
  simp [further]

theorem placed_name_precededBy {e : Extractor} (hf : f ∈ e.finds y) :
    ((f.precededBy x).offset, String.ofList (f.precededBy x).content) =
      further (Text.byteSize x) (f.offset, String.ofList f.content) := by
  obtain ⟨s, -, hfind⟩ := Extractor.mem_findsFrom hf
  obtain ⟨w, hw⟩ := reaches_of_mem_ends (Extractor.mem_findsAt.mp hfind).2.1
  rw [offset_precededBy, content_precededBy x hw]
  rfl

theorem namesOf_append {e : Extractor} (he : e.Lined) (hx : Text.EndsLine x) (y : List Char) :
    namesOf e (x ++ y) = namesOf e x ++ (namesOf e y).map (further (Text.byteSize x)) := by
  unfold namesOf
  rw [he.finds_append hx, List.map_append, List.map_map, List.map_map, List.map_map]
  refine congrArg (_ ++ ·) (List.map_congr_left fun f hf => ?_)
  exact placed_name_precededBy hf

theorem listNames_precededBy (hf : f ∈ exportList.finds y) :
    listNames (f.precededBy x) = (listNames f).map (further (Text.byteSize x)) := by
  obtain ⟨s, -, hfind⟩ := Extractor.mem_findsFrom hf
  obtain ⟨w, hw⟩ := reaches_of_mem_ends (Extractor.mem_findsAt.mp hfind).2.1
  rw [listNames_eq, listNames_eq, offset_precededBy, content_precededBy x hw, List.map_filterMap]
  refine List.filterMap_congr fun p _ => ?_
  have hplace : f.offset + Text.byteSize x + p.2 = f.offset + p.2 + Text.byteSize x := by omega
  rw [hplace, Option.map_map]
  rfl

/-- Where no list runs across the border, each text has the names that it has alone. -/
theorem exportFound_append (hx : Text.EndsLine x) (hcross : ¬ exportList.Crosses x y) :
    ((exportFound (x ++ y)).filter fun p => decide (p.1 < Text.byteSize x)) = exportFound x ∧
      ((exportFound (x ++ y)).filter fun p => !decide (p.1 < Text.byteSize x)) =
        (exportFound y).map (further (Text.byteSize x)) := by
  have hlow : ∀ {l : List (Nat × String)}, (∀ p ∈ l, p.1 < Text.byteSize x) →
      (l.filter fun p => decide (p.1 < Text.byteSize x)) = l ∧ (l.filter fun p => !decide (p.1 < Text.byteSize x)) = [] := by
    intro l hl
    constructor
    · exact List.filter_eq_self.mpr fun p hp => by simpa using hl p hp
    · exact List.filter_eq_nil_iff.mpr fun p hp => by simpa using hl p hp
  have hhigh : ∀ l : List (Nat × String),
      ((l.map (further (Text.byteSize x))).filter fun p => decide (p.1 < Text.byteSize x)) = [] ∧
        ((l.map (further (Text.byteSize x))).filter fun p => !decide (p.1 < Text.byteSize x)) =
          l.map (further (Text.byteSize x)) := by
    intro l
    have hle : ∀ p ∈ l.map (further (Text.byteSize x)), Text.byteSize x ≤ p.1 := by
      intro p hp
      obtain ⟨q, -, rfl⟩ := List.mem_map.mp hp
      exact Nat.le_add_left _ _
    constructor
    · exact List.filter_eq_nil_iff.mpr fun p hp => by simpa using hle p hp
    · exact List.filter_eq_self.mpr fun p hp => by simpa using hle p hp
  have hlists : (exportList.finds (x ++ y)).flatMap listNames =
      (exportList.finds x).flatMap listNames ++
        ((exportList.finds y).flatMap listNames).map (further (Text.byteSize x)) := by
    rw [Extractor.finds_append solid_exportList hx hcross, List.flatMap_append, List.flatMap_map, List.flatMap_map,
      List.map_flatMap]
    exact congrArg (_ ++ ·) (List.flatMap_congr fun f hf => listNames_precededBy hf)
  have hdefault : ((namesOf exportDefault (x ++ y)).filter fun f => !declarationWords.contains f.2) =
      ((namesOf exportDefault x).filter fun f => !declarationWords.contains f.2) ++
        ((namesOf exportDefault y).filter fun f => !declarationWords.contains f.2).map (further (Text.byteSize x)) := by
    rw [namesOf_append lined_exportDefault hx, List.filter_append, List.filter_map]
    rfl
  have hx' := fun p (hp : p ∈ exportFound x) => lt_of_mem_exportFound hp
  unfold exportFound at hx' ⊢
  rw [List.forall_mem_append, List.forall_mem_append] at hx'
  obtain ⟨⟨hd, hl⟩, hf⟩ := hx'
  rw [namesOf_append lined_exportDeclaration hx, hlists, hdefault]
  simp only [List.filter_append, (hlow hd).1, (hlow hd).2, (hlow hl).1, (hlow hl).2, (hlow hf).1, (hlow hf).2, (hhigh _).1,
    (hhigh _).2, List.append_nil, List.nil_append, List.map_append, and_self]

/-- The exports of two texts, of which the first ends a line and has no list left open, are those of both. -/
theorem exports_append {a b : String} (ha : Text.EndsLine a.toList) (hcross : ¬ exportList.Crosses a.toList b.toList) :
    exports (a ++ b) = exports a ++ exports b := by
  obtain ⟨hfirst, hsecond⟩ := exportFound_append ha hcross
  rw [exports_eq, exports_eq, exports_eq, String.toList_append, inTextOrder_split (Text.byteSize a.toList), hfirst, hsecond,
    inTextOrder_further, List.map_append, List.map_map]
  rfl

end LayerLint.Source
