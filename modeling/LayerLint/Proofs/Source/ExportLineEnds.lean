/-
  LayerLint.Proofs.Source.ExportLineEnds: the exports of a text with other line ends.

  A carriage return before each line feed does not keep a declaration or a list from being found
  (`carries_exportDeclaration`, `steady_exportList`). A default has to be alone in its line, and a carriage return is
  neither a blank nor a line end, so only a default with nothing behind it is found again (`finds_default_withReturns`).
  A name of a list keeps the line ends that stand inside it, so it is another name with other line ends
  (`itemName?_withReturns`). The places of the names of a list are made up, one byte apart, and do not move apart with
  the text: a declaration between the braces may change its place among them, and no other export does
  (`place_withReturns_le_iff`).
  - `exports_crlf`: the exported names stay the same exactly if no default ends a line and no name has a line end in it.
-/

import LayerLint.Proofs.Analysis.LineEnds
import LayerLint.Proofs.Source.Headings
import LayerLint.Proofs.Text.Trim
import Mathlib.Data.List.Pairwise

namespace LayerLint.Source

open Pattern
open Text (isSpaceOrTab)

variable {s t : Spot} {f g : Find} {text : List Char}

/-! ## Declarations and lists -/

theorem tight_gap : (oneOrMore isSpaceOrTab).Tight := tight_run (by decide) (by decide)

theorem tight_modifier {word : String} (h : word.toList ≠ [] ∧ '\n' ∉ word.toList ∧ '\r' ∉ word.toList) :
    (modifier word).Tight :=
  ((steady_text h).tight.seq tight_gap).optional

theorem steady_exportWord : exportWord.Steady := by
  refine steady_lineStart.inOrder ?_
  simp only [List.forall_mem_cons, List.not_mem_nil, false_implies, implies_true, and_true]
  exact ⟨tight_run (by decide) (by decide), (steady_text (by decide)).tight, tight_gap⟩

theorem tight_exportedName : exportedName.Tight :=
  (steady_one (by decide) (by decide)).tight.seq (tight_run (by decide) (by decide))

theorem carries_exportDeclaration : exportDeclaration.Carries := by
  have hword : ∀ {word : String}, word.toList ≠ [] ∧ '\n' ∉ word.toList ∧ '\r' ∉ word.toList → (text word).Tight :=
    fun h => (steady_text h).tight
  refine Extractor.carries_of_tight ?_ tight_exportedName tight_empty
  refine steady_exportWord.inOrder ?_
  simp only [List.forall_mem_cons, List.not_mem_nil, false_implies, implies_true, and_true]
  refine ⟨tight_modifier (by decide), tight_modifier (by decide), tight_modifier (by decide), tight_modifier (by decide),
    tight_oneOf (hword (by decide)) ?_, tight_gap⟩
  simp only [List.forall_mem_cons, List.not_mem_nil, false_implies, implies_true, and_true]
  exact ⟨hword (by decide), hword (by decide), hword (by decide), (hword (by decide)).seq (hword (by decide)).optional,
    hword (by decide), hword (by decide), hword (by decide), hword (by decide)⟩

theorem steady_exportList : exportList.Steady := by
  refine ⟨steady_exportWord.inOrder ?_, loose_run (fun _ => by decide) (.inl rfl), steady_text (by decide)⟩
  simp only [List.forall_mem_cons, List.not_mem_nil, false_implies, implies_true, and_true]
  exact ⟨tight_modifier (by decide), (steady_text (by decide)).tight⟩

/-! ## Defaults -/

/-- The defaults of a text with nothing behind them. -/
def lasting (text : List Char) : List Find := (exportDefault.finds text).filter fun f => f.stop.after.isEmpty

theorem endsLine_withReturns (h : Text.EndsLine text) : Text.EndsLine (Text.withReturns text) := by
  rcases h with rfl | ⟨front, rfl⟩
  · exact .inl rfl
  · refine .inr ⟨Text.withReturns front ++ ['\r'], ?_⟩
    rw [Text.withReturns_append, List.append_assoc]
    rfl

/-- The last character of a match is no carriage return, but one stands before each line feed. -/
theorem finds_default_of_endsLine (h : Text.EndsLine text) : exportDefault.finds (Text.withReturns text) = [] := by
  rw [List.eq_nil_iff_forall_not_mem]
  intro f hf
  obtain ⟨s, hs, hfind⟩ := Extractor.mem_findsFrom hf
  replace hs : s.whole = Text.withReturns text := hs
  obtain ⟨a, name, z, -, -, hname, hbody, hz, hzset, hend⟩ := exists_of_mem_exportDefault hfind
  have hne : f.stop.after ≠ [] := by
    refine lined_exportDefault.solid.stop_after_ne_nil ?_ hfind
    rw [hs]
    exact endsLine_withReturns h
  have hread : ∀ c ∈ name ++ z, c ≠ '\r' := by
    intro c hc
    rintro rfl
    rcases List.mem_append.mp hc with hc | hc
    · exact absurd (hname.parts _ hc) (by decide)
    · exact absurd (hzset _ hc) (by decide)
  obtain ⟨back, hback⟩ : ∃ back, f.stop.before.reverse = back ++ ['\r'] := by
    have hwhole := Extractor.stop_whole_of_mem_finds hf
    obtain ⟨c, rest, hafter⟩ := List.exists_cons_of_ne_nil hne
    unfold Spot.atLineEnd at hend
    rw [hafter] at hend
    obtain rfl : c = '\n' := beq_iff_eq.mp hend
    rw [Spot.whole, hafter] at hwhole
    exact Text.eq_concat_of_withReturns hwhole.symm
  rcases List.eq_nil_or_concat (name ++ z) with hnil | ⟨front, c, hlast⟩
  · exact hname.ne_nil (List.append_eq_nil_iff.mp hnil).1
  · rw [List.concat_eq_append] at hlast
    rw [(hbody.trans hz).1, List.reverse_append, List.reverse_reverse, hlast, ← List.append_assoc] at hback
    have hc : c ≠ '\r' := hread c (by rw [hlast]; simp)
    exact hc (List.singleton_inj.mp (List.append_inj' hback rfl).2)

theorem precededBy_withReturns (x : List Char) (s : Spot) :
    (s.precededBy x).withReturns = s.withReturns.precededBy (Text.withReturns x) := by
  unfold Spot.withReturns Spot.precededBy
  rw [Text.backWithReturns_append, Text.backWithReturns, Text.backWithReturns, List.reverse_reverse]

theorem withReturns_of_inLine (h : '\n' ∉ s.whole) : s.withReturns = s := by
  rw [Spot.whole, List.mem_append, not_or] at h
  unfold Spot.withReturns Text.backWithReturns
  rw [Text.withReturns_eq_self h.1, Text.withReturns_eq_self h.2, List.reverse_reverse]

theorem find_precededBy_withReturns {e : Extractor} {x : List Char} (h : '\n' ∉ text) (hf : f ∈ e.finds text) :
    (f.precededBy x).withReturns = f.precededBy (Text.withReturns x) := by
  obtain ⟨s, hs, hfind⟩ := Extractor.mem_findsFrom hf
  replace hs : s.whole = text := hs
  obtain ⟨hfirst, hlast, hstop⟩ := Extractor.mem_findsAt.mp hfind
  obtain ⟨u, hu⟩ := reaches_of_mem_ends hfirst
  obtain ⟨v, hv⟩ := reaches_of_mem_ends hlast
  obtain ⟨w, hw⟩ := reaches_of_mem_ends hstop
  have hspot : ∀ t : Spot, t.whole = text → (t.precededBy x).withReturns = t.precededBy (Text.withReturns x) := by
    intro t ht
    rw [precededBy_withReturns, withReturns_of_inLine (by rw [ht]; exact h)]
  unfold Find.withReturns Find.precededBy
  rw [hspot _ (hu.whole_eq.trans hs), hspot _ (hv.whole_eq.trans (hu.whole_eq.trans hs)),
    hspot _ (hw.whole_eq.trans (hv.whole_eq.trans (hu.whole_eq.trans hs)))]

/-- Only the last line may have a default with nothing behind it, and it has no others. -/
theorem lasting_append {front last : List Char} (hfront : Text.EndsLine front) (hlast : '\n' ∉ last) :
    lasting (front ++ last) = (exportDefault.finds last).map (Find.precededBy front) := by
  have hended : ((exportDefault.finds front).map (Find.followedBy last)).filter (fun f => f.stop.after.isEmpty) = [] := by
    rw [List.filter_eq_nil_iff]
    intro g hg
    obtain ⟨f, hf, rfl⟩ := List.mem_map.mp hg
    obtain ⟨s, hs, hfind⟩ := Extractor.mem_findsFrom hf
    replace hs : s.whole = front := hs
    have hne := lined_exportDefault.solid.stop_after_ne_nil (by rw [hs]; exact hfront) hfind
    show ¬ (f.stop.after ++ last).isEmpty = true
    simp [hne]
  have hopen : ((exportDefault.finds last).map (Find.precededBy front)).filter (fun f => f.stop.after.isEmpty) =
      (exportDefault.finds last).map (Find.precededBy front) := by
    rw [List.filter_eq_self]
    intro g hg
    obtain ⟨f, hf, rfl⟩ := List.mem_map.mp hg
    obtain ⟨s, -, hfind⟩ := Extractor.mem_findsFrom hf
    obtain ⟨-, -, -, -, -, -, -, -, -, hend⟩ := exists_of_mem_exportDefault hfind
    have hwhole := Extractor.stop_whole_of_mem_finds hf
    show f.stop.after.isEmpty = true
    unfold Spot.atLineEnd at hend
    cases hafter : f.stop.after with
    | nil => rfl
    | cons c rest =>
      rw [hafter] at hend
      refine absurd ?_ hlast
      rw [← hwhole, Spot.whole, hafter, beq_iff_eq.mp hend]
      simp
  unfold lasting
  rw [lined_exportDefault.finds_append hfront, List.filter_append, hended, hopen, List.nil_append]

/-- A default is found again if nothing stands behind it. -/
theorem finds_default_withReturns (text : List Char) :
    exportDefault.finds (Text.withReturns text) = (lasting text).map Find.withReturns := by
  obtain ⟨front, last, rfl, hfront, hlast⟩ := Text.exists_last_line text
  rw [Text.withReturns_append, Text.withReturns_eq_self hlast, lined_exportDefault.finds_append (endsLine_withReturns hfront),
    finds_default_of_endsLine hfront, lasting_append hfront hlast, List.map_nil, List.nil_append, List.map_map]
  exact List.map_congr_left fun f hf => (find_precededBy_withReturns hlast hf).symm

/-! ## Names -/

theorem crlf_ofList (name : List Char) : Text.crlf (String.ofList name) = String.ofList (Text.withReturns name) := by
  rw [Text.crlf, String.toList_ofList]

theorem crlf_eq_self {name : String} (h : '\n' ∉ name.toList) : Text.crlf name = name := by
  rw [Text.crlf, Text.withReturns_eq_self h, String.ofList_toList]

theorem itemName?_withReturns (item : List Char) :
    itemName? (Text.withReturns item) = (itemName? item).map Text.withReturns := by
  unfold itemName?
  rw [Text.trim_withReturns, Text.dropAll_withReturns (by decide) (by decide), Text.trim_withReturns]
  cases hitem : Text.trim (Text.dropAll "type ".toList (Text.trim item)) with
  | nil => rfl
  | cons c rest =>
    have hcut : Text.cut? " as ".toList (Text.withReturns (c :: rest)) = _ :=
      Text.cut?_withReturns (by decide) (by decide) (c :: rest)
    obtain ⟨d, more, hmore⟩ := List.exists_cons_of_ne_nil (Text.withReturns_ne_nil (List.cons_ne_nil c rest))
    rw [hmore] at hcut ⊢
    simp only [hcut]
    cases Text.cut? " as ".toList (c :: rest) with
    | none =>
      show some (d :: more) = some (Text.withReturns (c :: rest))
      rw [hmore]
    | some p => exact congrArg some (Text.trim_withReturns p.2)

theorem mem_of_mem_itemName? {item name : List Char} (h : itemName? item = some name) {c : Char} (hc : c ∈ name) :
    c ∈ item := by
  have hinner : ∀ {c : Char}, c ∈ Text.trim (Text.dropAll "type ".toList (Text.trim item)) → c ∈ item := by
    intro c hc
    exact Text.mem_of_mem_trim ((Text.dropTimes_suffix _ _ _).subset (Text.mem_of_mem_trim hc))
  unfold itemName? at h
  split at h
  · cases h
  · split at h
    · rename_i hcut
      cases h
      exact hinner ((Text.suffix_of_cut? hcut).subset (Text.mem_of_mem_trim hc))
    · cases h
      exact hinner hc

/-! ## Contents -/

theorem reaches_of_mem_finds {e : Extractor} (hf : f ∈ e.finds text) : ∃ w, f.first.Reaches w f.last := by
  obtain ⟨s, -, hfind⟩ := Extractor.mem_findsFrom hf
  exact reaches_of_mem_ends (Extractor.mem_findsAt.mp hfind).2.1

theorem content_of_mem_finds_withReturns {e : Extractor} (hf : f ∈ e.finds text) :
    f.withReturns.content = Text.withReturns f.content := by
  obtain ⟨w, hw⟩ := reaches_of_mem_finds hf
  exact Find.content_withReturns hw

theorem mem_of_mem_content {e : Extractor} (hf : f ∈ e.finds text) {c : Char} (hc : c ∈ f.content) : c ∈ text := by
  obtain ⟨w, hw⟩ := reaches_of_mem_finds hf
  have hcontent : f.content = w := hw.textTo_eq
  rw [← Extractor.whole_of_mem_finds hf, Spot.whole, hw.2, ← hcontent]
  simp [hc]

/-! ## Entries -/

/-- A name that is exported: the match it is read from, and its number if the match is a list. -/
structure Entry where
  find : Find
  number : Nat
  name : String

namespace Entry

def place (x : Entry) : Nat := x.find.offset + x.number

def withReturns (x : Entry) : Entry := ⟨x.find.withReturns, x.number, Text.crlf x.name⟩

def single (f : Find) : Entry := ⟨f, 0, String.ofList f.content⟩

def listed (f : Find) : List Entry :=
  (Text.split (· == ',') f.content).zipIdx.filterMap fun p =>
    (itemName? p.1).map fun name => ⟨f, p.2, String.ofList name⟩

theorem single_withReturns {e : Extractor} (hf : f ∈ e.finds text) : single f.withReturns = (single f).withReturns := by
  unfold single withReturns
  rw [content_of_mem_finds_withReturns hf, crlf_ofList]

theorem listed_withReturns {e : Extractor} (hf : f ∈ e.finds text) : listed f.withReturns = (listed f).map withReturns := by
  unfold listed
  rw [content_of_mem_finds_withReturns hf, Text.split_withReturns_of_not_sep (by decide) (by decide), List.zipIdx_map,
    List.filterMap_map, List.map_filterMap]
  refine List.filterMap_congr fun p _ => ?_
  show (itemName? (Text.withReturns p.1)).map _ = _
  rw [itemName?_withReturns, Option.map_map, Option.map_map]
  refine Option.map_congr fun name _ => ?_
  show Entry.mk _ _ (String.ofList (Text.withReturns name)) = Entry.mk _ _ (Text.crlf (String.ofList name))
  rw [crlf_ofList]
  rfl

theorem mem_listed {x : Entry} (h : x ∈ listed f) :
    x.find = f ∧ x.number < (Text.split (· == ',') f.content).length ∧
      ∃ item ∈ Text.split (· == ',') f.content, (itemName? item).map String.ofList = some x.name := by
  obtain ⟨⟨item, i⟩, hi, hname⟩ := List.mem_filterMap.mp h
  obtain ⟨name, hitem, rfl⟩ := Option.map_eq_some_iff.mp hname
  have hget := List.mem_zipIdx_iff_getElem?.mp hi
  refine ⟨rfl, (List.getElem?_eq_some_iff.mp hget).1, item, List.mem_of_getElem? hget, ?_⟩
  rw [hitem]
  rfl

end Entry

def entries (defaults : List Find) (text : List Char) : List Entry :=
  (exportDeclaration.finds text).map Entry.single ++ (exportList.finds text).flatMap Entry.listed ++
    (defaults.map Entry.single).filter fun x => !declarationWords.contains x.name

/-- A default is a name, and so the same with other line ends. -/
theorem name_single_withReturns (hf : f ∈ exportDefault.finds text) :
    (Entry.single f).withReturns.name = (Entry.single f).name := by
  obtain ⟨s, -, hfind⟩ := Extractor.mem_findsFrom hf
  obtain ⟨-, name, -, -, -, hname, hbody, -⟩ := exists_of_mem_exportDefault hfind
  have hcontent : f.content = name := hbody.textTo_eq
  refine crlf_eq_self ?_
  show '\n' ∉ (String.ofList f.content).toList
  rw [String.toList_ofList, hcontent]
  intro hfeed
  exact absurd (hname.parts _ hfeed) (by decide)

theorem mem_entries {defaults : List Find} (hdefaults : defaults ⊆ exportDefault.finds text) {x : Entry}
    (hx : x ∈ entries defaults text) :
    (∃ f ∈ exportDeclaration.finds text ++ exportDefault.finds text, x = .single f) ∨
      ∃ f ∈ exportList.finds text, x ∈ Entry.listed f := by
  unfold entries at hx
  rw [List.mem_append, List.mem_append] at hx
  rcases hx with (hx | hx) | hx
  · obtain ⟨f, hf, rfl⟩ := List.mem_map.mp hx
    exact .inl ⟨f, List.mem_append_left _ hf, rfl⟩
  · exact .inr (List.mem_flatMap.mp hx)
  · obtain ⟨f, hf, rfl⟩ := List.mem_map.mp (List.mem_filter.mp hx).1
    exact .inl ⟨f, List.mem_append_right _ (hdefaults hf), rfl⟩

theorem lasting_subset (text : List Char) : lasting text ⊆ exportDefault.finds text := List.filter_sublist.subset

/-- The names are made of characters of the text. -/
theorem mem_of_mem_name {x : Entry} (hx : x ∈ entries (exportDefault.finds text) text) {c : Char} (hc : c ∈ x.name.toList) :
    c ∈ text := by
  rcases mem_entries (List.Subset.refl _) hx with ⟨f, hf, rfl⟩ | ⟨f, hf, hlisted⟩
  · have hc : c ∈ f.content := by simpa [Entry.single] using hc
    rcases List.mem_append.mp hf with hf | hf
    · exact mem_of_mem_content hf hc
    · exact mem_of_mem_content hf hc
  · obtain ⟨-, -, item, hitem, hname⟩ := Entry.mem_listed hlisted
    obtain ⟨name, hsome, heq⟩ := Option.map_eq_some_iff.mp hname
    rw [← heq, String.toList_ofList] at hc
    exact mem_of_mem_content hf (Text.mem_of_mem_split hitem (mem_of_mem_itemName? hsome hc)).1

theorem filter_singles_withReturns (text : List Char) :
    (((lasting text).map Find.withReturns).map Entry.single).filter (fun x => !declarationWords.contains x.name) =
      (((lasting text).map Entry.single).filter fun x => !declarationWords.contains x.name).map Entry.withReturns := by
  have hmap : ((lasting text).map Find.withReturns).map Entry.single =
      ((lasting text).map Entry.single).map Entry.withReturns := by
    rw [List.map_map, List.map_map]
    exact List.map_congr_left fun f hf => Entry.single_withReturns (lasting_subset text hf)
  rw [hmap, List.filter_map]
  refine congrArg _ (List.filter_congr fun x hx => ?_)
  obtain ⟨f, hf, rfl⟩ := List.mem_map.mp hx
  rw [Function.comp_apply, name_single_withReturns (lasting_subset text hf)]

/-- With other line ends a text has the same entries, but for the defaults that end a line. -/
theorem entries_withReturns (h : '\r' ∉ text) :
    entries (exportDefault.finds (Text.withReturns text)) (Text.withReturns text) =
      (entries (lasting text) text).map Entry.withReturns := by
  have hlists : ((exportList.finds text).map Find.withReturns).flatMap Entry.listed =
      ((exportList.finds text).flatMap Entry.listed).map Entry.withReturns := by
    rw [List.flatMap_map, List.map_flatMap]
    exact List.flatMap_congr fun f hf => Entry.listed_withReturns hf
  unfold entries
  rw [carries_exportDeclaration.finds_withReturns h, steady_exportList.carries.finds_withReturns h,
    finds_default_withReturns, hlists, filter_singles_withReturns, List.map_append, List.map_append, List.map_map,
    List.map_map]
  refine congrArg (fun l => l ++ _ ++ _) (List.map_congr_left fun f hf => ?_)
  exact Entry.single_withReturns hf

/-! ## Order -/

/-- No other export stands between the braces of a list. -/
def ListsFlat (text : List Char) : Prop :=
  ∀ l ∈ exportList.finds text, ∀ f ∈ exportDeclaration.finds text ++ exportDefault.finds text,
    f.offset ≤ l.offset ∨ Text.byteSize l.stop.before ≤ f.offset

instance (text : List Char) : Decidable (ListsFlat text) :=
  inferInstanceAs (Decidable (∀ l ∈ exportList.finds text, ∀ f ∈ exportDeclaration.finds text ++ exportDefault.finds text,
    f.offset ≤ l.offset ∨ Text.byteSize l.stop.before ≤ f.offset))

theorem lists_apart (hf : f ∈ exportList.finds text) (hg : g ∈ exportList.finds text) (hne : f ≠ g) :
    Text.byteSize f.stop.before ≤ g.offset ∨ Text.byteSize g.stop.before ≤ f.offset := by
  have : Std.Symm fun f g : Find => Text.byteSize f.stop.before ≤ g.offset ∨ Text.byteSize g.stop.before ≤ f.offset :=
    ⟨fun _ _ h => h.symm⟩
  have hpairs : (exportList.finds text).Pairwise fun f g =>
      Text.byteSize f.stop.before ≤ g.offset ∨ Text.byteSize g.stop.before ≤ f.offset := by
    refine (Extractor.findsOn_in_order exportList (.start text)).2.imp fun h => ?_
    obtain ⟨w, hw⟩ := h
    refine .inl ?_
    rw [Find.offset, hw.byteSize_before]
    omega
  exact hpairs.forall hf hg hne

/-- The names of a list have their places between its braces, in both texts. -/
theorem listed_between (h : '\r' ∉ text) {x : Entry} (hf : f ∈ exportList.finds text) (hx : x ∈ Entry.listed f) :
    x.find = f ∧ Text.byteSize f.first.before + x.number < Text.byteSize f.stop.before ∧
      Text.byteSize f.first.withReturns.before + x.number < Text.byteSize f.stop.withReturns.before := by
  obtain ⟨hfind, hnumber, -⟩ := Entry.mem_listed hx
  have hreturns : f.withReturns ∈ exportList.finds (Text.withReturns text) := by
    rw [steady_exportList.carries.finds_withReturns h]
    exact List.mem_map_of_mem hf
  refine ⟨hfind, offset_add_lt_stop hf hnumber, offset_add_lt_stop hreturns ?_⟩
  rw [content_of_mem_finds_withReturns hf, Text.split_withReturns_of_not_sep (by decide) (by decide), List.length_map]
  exact hnumber

theorem place_withReturns_le_iff (h : '\r' ∉ text) (hflat : ListsFlat text) {x y : Entry}
    (hx : x ∈ entries (lasting text) text) (hy : y ∈ entries (lasting text) text) :
    x.place ≤ y.place ↔ x.withReturns.place ≤ y.withReturns.place := by
  have hplain : ∀ f ∈ exportDeclaration.finds text ++ exportDefault.finds text, f.first.whole = text := by
    intro f hf
    rcases List.mem_append.mp hf with hf | hf
    · exact Extractor.whole_of_mem_finds hf
    · exact Extractor.whole_of_mem_finds hf
  have hlist : ∀ f ∈ exportList.finds text, f.first.whole = text ∧ f.stop.whole = text :=
    fun f hf => ⟨Extractor.whole_of_mem_finds hf, Extractor.stop_whole_of_mem_finds hf⟩
  show Text.byteSize x.find.first.before + x.number ≤ Text.byteSize y.find.first.before + y.number ↔
    Text.byteSize x.find.first.withReturns.before + x.number ≤ Text.byteSize y.find.first.withReturns.before + y.number
  rcases mem_entries (lasting_subset text) hx with ⟨f, hf, rfl⟩ | ⟨f, hf, hxf⟩
  · rcases mem_entries (lasting_subset text) hy with ⟨g, hg, rfl⟩ | ⟨g, hg, hyg⟩
    · exact (Spot.place_withReturns_le_iff (hplain f hf) (hplain g hg)).symm
    · obtain ⟨rfl, hlow, hhigh⟩ := listed_between h hg hyg
      have hfg := Spot.place_withReturns_le_iff (hplain f hf) (hlist _ hg).1
      have hgf := Spot.place_withReturns_le_iff (hlist _ hg).2 (hplain f hf)
      have hapart : Text.byteSize f.first.before ≤ Text.byteSize y.find.first.before ∨
        Text.byteSize y.find.stop.before ≤ Text.byteSize f.first.before := hflat _ hg f hf
      show Text.byteSize f.first.before + 0 ≤ _ ↔ Text.byteSize f.first.withReturns.before + 0 ≤ _
      omega
  · obtain ⟨rfl, hlow, hhigh⟩ := listed_between h hf hxf
    rcases mem_entries (lasting_subset text) hy with ⟨g, hg, rfl⟩ | ⟨g, hg, hyg⟩
    · have hfg := Spot.place_withReturns_le_iff (hlist _ hf).1 (hplain g hg)
      have hgf := Spot.place_withReturns_le_iff (hplain g hg) (hlist _ hf).1
      have hstop := Spot.place_withReturns_le_iff (hlist _ hf).2 (hplain g hg)
      have hapart : Text.byteSize g.first.before ≤ Text.byteSize x.find.first.before ∨
        Text.byteSize x.find.stop.before ≤ Text.byteSize g.first.before := hflat _ hf g hg
      show _ ≤ Text.byteSize g.first.before + 0 ↔ _ ≤ Text.byteSize g.first.withReturns.before + 0
      omega
    · obtain ⟨rfl, hlow', hhigh'⟩ := listed_between h hg hyg
      by_cases hsame : x.find = y.find
      · rw [hsame]
        omega
      · have hfg := Spot.place_withReturns_le_iff (hlist _ hf).2 (hlist _ hg).1
        have hgf := Spot.place_withReturns_le_iff (hlist _ hg).2 (hlist _ hf).1
        have hapart : Text.byteSize x.find.stop.before ≤ Text.byteSize y.find.first.before ∨
          Text.byteSize y.find.stop.before ≤ Text.byteSize x.find.first.before := lists_apart hf hg hsame
        omega

/-! ## Exports -/

def exportsWith (defaults : List Find) (content : String) : List String :=
  (inTextOrder
    (namesOf exportDeclaration content.toList ++ (exportList.finds content.toList).flatMap listNames ++
      (defaults.map fun f => (f.offset, String.ofList f.content)).filter fun f => !declarationWords.contains f.2)).map (·.2)

theorem exports_eq_exportsWith (content : String) :
    exports content = exportsWith (exportDefault.finds content.toList) content := rfl

/-- A word that starts a declaration is no default. -/
theorem exportsWith_filter (defaults : List Find) (content : String) :
    exportsWith defaults content =
      (inTextOrder
        (namesOf exportDeclaration content.toList ++ (exportList.finds content.toList).flatMap listNames ++
          (defaults.filter fun f => !declarationWords.contains (String.ofList f.content)).map fun f =>
            (f.offset, String.ofList f.content))).map (·.2) := by
  unfold exportsWith
  rw [List.filter_map]
  rfl

theorem exportsWith_eq (defaults : List Find) (content : String) :
    exportsWith defaults content =
      (inTextOrder ((entries defaults content.toList).map fun x => (x.place, x.name))).map (·.2) := by
  unfold exportsWith entries namesOf
  rw [List.map_append, List.map_append, List.map_map, List.map_flatMap, List.filter_map, List.filter_map, List.map_map]
  refine congrArg (fun l => (inTextOrder (_ ++ l ++ _)).map _) (List.flatMap_congr fun f _ => ?_)
  rw [listNames_eq, Entry.listed, List.map_filterMap]
  refine List.filterMap_congr fun p _ => ?_
  rw [Option.map_map]
  rfl

theorem exportsWith_perm (defaults : List Find) (content : String) :
    (exportsWith defaults content).Perm ((entries defaults content.toList).map (·.name)) := by
  have hsorted := (List.mergeSort_perm ((entries defaults content.toList).map fun x => (x.place, x.name))
    fun a b => decide (a.1 ≤ b.1)).map (·.2)
  rw [List.map_map] at hsorted
  rw [exportsWith_eq]
  exact hsorted

section

variable {content : String}

theorem exports_crlf_eq (h : '\r' ∉ content.toList) :
    exports (Text.crlf content) =
      (inTextOrder ((entries (lasting content.toList) content.toList).map fun x =>
        (x.withReturns.place, Text.crlf x.name))).map (·.2) := by
  rw [exports_eq_exportsWith, exportsWith_eq, Text.toList_crlf, entries_withReturns h, List.map_map]
  rfl

/-- Other line ends leave the names with their line ends changed, but for the defaults that end a line. -/
theorem exports_crlf_perm (h : '\r' ∉ content.toList) :
    (exports (Text.crlf content)).Perm ((exportsWith (lasting content.toList) content).map Text.crlf) := by
  have hnames : (exports (Text.crlf content)).Perm
      ((entries (lasting content.toList) content.toList).map fun x => Text.crlf x.name) := by
    have hperm := exportsWith_perm (exportDefault.finds (Text.crlf content).toList) (Text.crlf content)
    rw [Text.toList_crlf, entries_withReturns h, List.map_map] at hperm
    rw [exports_eq_exportsWith, Text.toList_crlf]
    exact hperm
  have hkept := (exportsWith_perm (lasting content.toList) content).map Text.crlf
  rw [List.map_map] at hkept
  exact hnames.trans hkept.symm

theorem exports_crlf_of_flat (h : '\r' ∉ content.toList) (hflat : ListsFlat content.toList) :
    exports (Text.crlf content) = (exportsWith (lasting content.toList) content).map Text.crlf := by
  have hsame : ∀ x ∈ entries (lasting content.toList) content.toList,
      ∀ y ∈ entries (lasting content.toList) content.toList, x.place ≤ y.place ↔ x.place ≤ y.place :=
    fun _ _ _ _ => Iff.rfl
  have horder : ∀ x ∈ entries (lasting content.toList) content.toList,
      ∀ y ∈ entries (lasting content.toList) content.toList,
        x.place ≤ y.place ↔ x.withReturns.place ≤ y.withReturns.place :=
    fun x hx y hy => place_withReturns_le_iff h hflat hx hy
  rw [exports_crlf_eq h, exportsWith_eq, inTextOrder_map horder, inTextOrder_map hsame, List.map_map, List.map_map,
    List.map_map]
  rfl

/-- The exports do not show in which way the lines end. -/
structure Portable (content : String) : Prop where
  /-- Nothing follows a name that is exported as the default. -/
  defaults : ∀ f ∈ exportDefault.finds content.toList, f.stop.after = [] ∨ String.ofList f.content ∈ declarationWords
  /-- No line ends inside a name. -/
  names : ∀ name ∈ exports content, '\n' ∉ name.toList

theorem exportsWith_lasting
    (h : ∀ f ∈ exportDefault.finds content.toList, f.stop.after = [] ∨ String.ofList f.content ∈ declarationWords) :
    exportsWith (lasting content.toList) content = exports content := by
  have hkept : ((lasting content.toList).filter fun f => !declarationWords.contains (String.ofList f.content)) =
      (exportDefault.finds content.toList).filter fun f => !declarationWords.contains (String.ofList f.content) := by
    unfold lasting
    rw [List.filter_filter]
    refine List.filter_congr fun f hf => ?_
    rcases h f hf with hstop | hword
    · simp [hstop]
    · simp [hword]
  rw [exports_eq_exportsWith, exportsWith_filter, exportsWith_filter, hkept]

/-- A default that is not found again is missed in the number of the names. -/
theorem defaults_of_length (h : (exportsWith (lasting content.toList) content).length = (exports content).length) :
    ∀ f ∈ exportDefault.finds content.toList, f.stop.after = [] ∨ String.ofList f.content ∈ declarationWords := by
  intro f hf
  have hnumber : ∀ defaults, (exportsWith defaults content).length =
      (exportDeclaration.finds content.toList).length + ((exportList.finds content.toList).flatMap listNames).length +
        (defaults.filter fun f => !declarationWords.contains (String.ofList f.content)).length := by
    intro defaults
    rw [exportsWith_filter, List.length_map, inTextOrder, List.length_mergeSort, List.length_append, List.length_append,
      namesOf, List.length_map, List.length_map]
  rw [exports_eq_exportsWith, hnumber, hnumber] at h
  have hsub : ((lasting content.toList).filter fun f => !declarationWords.contains (String.ofList f.content)).Sublist
      ((exportDefault.finds content.toList).filter fun f => !declarationWords.contains (String.ofList f.content)) :=
    List.filter_sublist.filter _
  have hsame := hsub.eq_of_length (by omega)
  by_cases hword : String.ofList f.content ∈ declarationWords
  · exact .inr hword
  · have hmem : f ∈ (exportDefault.finds content.toList).filter fun f =>
        !declarationWords.contains (String.ofList f.content) := List.mem_filter.mpr ⟨hf, by simpa using hword⟩
    rw [← hsame] at hmem
    have hlast := (List.mem_filter.mp (List.mem_filter.mp hmem).1).2
    exact .inl (List.isEmpty_iff.mp hlast)

theorem Portable.map_crlf (h : Portable content) :
    (exportsWith (lasting content.toList) content).map Text.crlf = exports content := by
  rw [exportsWith_lasting h.defaults]
  refine (List.map_congr_left fun name hname => ?_).trans (List.map_id _)
  exact crlf_eq_self (h.names name hname)

theorem return_not_mem_name (h : '\r' ∉ content.toList) : ∀ name ∈ exports content, '\r' ∉ name.toList := by
  intro name hname hreturn
  rw [exports_eq_exportsWith, (exportsWith_perm _ _).mem_iff] at hname
  obtain ⟨x, hx, rfl⟩ := List.mem_map.mp hname
  exact h (mem_of_mem_name hx hreturn)

theorem portable_of_perm (h : '\r' ∉ content.toList) (hperm : (exports (Text.crlf content)).Perm (exports content)) :
    Portable content := by
  have hnames := (exports_crlf_perm h).symm.trans hperm
  have hdefaults := defaults_of_length (by rw [← hnames.length_eq, List.length_map])
  refine ⟨hdefaults, fun name hname hfeed => ?_⟩
  -- the name would get a carriage return, and no name of the text has one
  rw [exportsWith_lasting hdefaults] at hnames
  have hcrlf : Text.crlf name ∈ exports content := hnames.mem_iff.mp (List.mem_map_of_mem hname)
  refine return_not_mem_name h _ hcrlf ?_
  rw [Text.toList_crlf]
  exact Text.return_mem_withReturns hfeed

end

/-- A text without carriage returns exports the same names with other line ends exactly if it is portable. If no other
    export stands between the braces of a list, their order is the same too, and a text that is not portable loses the
    defaults that end a line and has the other line ends in its names. -/
theorem exports_crlf (content : String) (h : '\r' ∉ content.toList) :
    ((exports (Text.crlf content)).Perm (exports content) ↔ Portable content) ∧
      (ListsFlat content.toList →
        (exports (Text.crlf content) = exports content ↔ Portable content) ∧
          exports (Text.crlf content) = (exportsWith (lasting content.toList) content).map Text.crlf) := by
  refine ⟨⟨portable_of_perm h, fun hportable => ?_⟩, fun hflat => ⟨⟨fun heq => ?_, fun hportable => ?_⟩, ?_⟩⟩
  · rw [← hportable.map_crlf]
    exact exports_crlf_perm h
  · exact portable_of_perm h (.of_eq heq)
  · rw [exports_crlf_of_flat h hflat, hportable.map_crlf]
  · exact exports_crlf_of_flat h hflat

def spreadList : String := "export \x7b\n  a,\n  b as c,\n\x7d;\nexport class D \x7b\n\x7d\nexport default D"

theorem exports_crlf_spread :
    ListsFlat spreadList.toList ∧ Portable spreadList ∧ exports (Text.crlf spreadList) = ["a", "c", "D", "D"] := by
  have hplain : '\r' ∉ spreadList.toList := by decide
  have hflat : ListsFlat spreadList.toList := by decide +kernel
  have hfound : exportFound spreadList.toList = [(40, "D"), (8, "a"), (9, "c"), (61, "D")] := by decide +kernel
  have hexports : exports spreadList = ["a", "c", "D", "D"] := by
    rw [exports_eq, hfound]
    simp +decide [inTextOrder, List.mergeSort, List.MergeSort.Internal.splitInTwo]
  have hportable : Portable spreadList := by
    refine ⟨by decide +kernel, ?_⟩
    rw [hexports]
    decide
  exact ⟨hflat, hportable, (((exports_crlf spreadList hplain).2 hflat).1.mpr hportable).trans hexports⟩

/-- A default that ends a line is not found behind a carriage return. -/
theorem default_unreported_crlf :
    exports "export default Order;\n" = ["Order"] ∧ exports (Text.crlf "export default Order;\n") = [] := by
  decide +kernel

/-- A class between the braces stands at the place of the last name, and behind it with other line ends. -/
example :
    exportFound "export \x7b\nexport class C,,,,,,,,,,,,,,z \x7d".toList =
        [(22, "C"), (8, "export class C"), (22, "z")] ∧
      exportFound (Text.crlf "export \x7b\nexport class C,,,,,,,,,,,,,,z \x7d").toList =
        [(23, "C"), (8, "export class C"), (22, "z")] := by
  decide +kernel

end LayerLint.Source
