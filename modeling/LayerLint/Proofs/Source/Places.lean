/-
  LayerLint.Proofs.Source.Places: the imports of a text and where they stand.

  A match is known by the place of its specifier, since the specifier goes on up to the next quote (`placed_eq`). So
  the imports of a text are its matches put in order of their places, with none of them twice, and no other list has
  the same members in such an order (`places_eq`). What stands at one place keeps its order (`filter_inTextOrder`), and
  what lies before a place comes first (`inTextOrder_split`). Two texts with a border that no match runs across have their
  imports one after the other, those of the second with the lines of the first added (`imports_append`).
-/

import LayerLint.Proofs.Sorting
import LayerLint.Proofs.Source.Words
import LayerLint.Proofs.Text.LineEnds

namespace LayerLint

namespace Text

theorem newlines_append (s t : List Char) : newlines (s ++ t) = newlines s + newlines t := List.count_append

theorem newlines_reverse (s : List Char) : newlines s.reverse = newlines s := List.count_reverse

/-- The beginning of a text is known by its size. -/
theorem eq_of_byteSize_eq {s t text : List Char} (hs : s <+: text) (ht : t <+: text) (h : byteSize s = byteSize t) :
    s = t := by
  have hsame : ∀ {s t : List Char}, s <+: t → byteSize s = byteSize t → s = t := by
    rintro s _ ⟨w, rfl⟩ h
    by_cases hw : w = []
    · simp [hw]
    · have hpos := byteSize_pos hw
      rw [byteSize_append] at h
      omega
  rcases List.prefix_or_prefix_of_prefix hs ht with hp | hp
  · exact hsame hp h
  · exact (hsame hp h.symm).symm

end Text

theorem Spot.Reaches.byteSize_before {s t : Spot} {w : List Char} (h : s.Reaches w t) :
    Text.byteSize t.before = Text.byteSize s.before + Text.byteSize w := by
  rw [h.1, Text.byteSize_append, Text.byteSize_reverse]
  omega

def Import.below (n : Nat) (i : Import) : Import := { i with line := i.line + n }

/-- What a match tells of a text: a place and the import there. -/
def Find.placed (f : Find) : Nat × Import := (f.offset, ⟨String.ofList f.content, f.line⟩)

namespace Source

variable {text x y : List Char} {f g : Find}

/-! ## Matches -/

def allFinds (text : List Char) : List Find := extractors.flatMap fun e => e.finds text

theorem mem_allFinds : f ∈ allFinds text ↔ ∃ e ∈ extractors, f ∈ e.finds text := List.mem_flatMap

theorem whole_of_mem_allFinds {text : List Char} {f : Find} (h : f ∈ allFinds text) : f.first.whole = text := by
  obtain ⟨e, -, hf⟩ := List.mem_flatMap.mp h
  exact Extractor.whole_of_mem_finds hf

theorem quotes_of_mem_allFinds (h : f ∈ allFinds text) :
    ∃ s head spec tail, Spot.whole s = text ∧ Quotes s f head spec tail ∧ Frame head tail := by
  obtain ⟨e, he, hf⟩ := mem_allFinds.mp h
  obtain ⟨s, hs, hf⟩ := Extractor.mem_findsFrom hf
  obtain ⟨head, spec, tail, hquotes, hframe⟩ := exists_quotes he hf
  exact ⟨s, head, spec, tail, hs, hquotes, hframe⟩

theorem content_eq_of_quotes {s : Spot} {head spec tail : List Char} (h : Quotes s f head spec tail) :
    f.content = spec := h.body.textTo_eq

/-- The specifier goes on up to the next quote. -/
theorem content_eq (h : f ∈ allFinds text) : f.content = f.first.after.takeWhile inSpecifier := by
  obtain ⟨s, head, spec, tail, -, hquotes, -⟩ := quotes_of_mem_allFinds h
  obtain ⟨q, hq, hstop⟩ := hquotes.trail
  rw [content_eq_of_quotes hquotes, hquotes.body.2, hstop.2, List.takeWhile_append_of_pos hquotes.plain]
  simp [inSpecifier, hq]

/-- A place in a text is known by its distance from the start. -/
theorem before_eq (hf : f.first.whole = text) (hg : g.first.whole = text) (h : f.offset = g.offset) :
    f.first.before = g.first.before := by
  refine List.reverse_injective (Text.eq_of_byteSize_eq ⟨_, hf⟩ ⟨_, hg⟩ ?_)
  rw [Text.byteSize_reverse, Text.byteSize_reverse]
  exact h

/-- What stands at one place is one import. -/
theorem placed_eq (hf : f ∈ allFinds text) (hg : g ∈ allFinds text) (h : f.offset = g.offset) : f.placed = g.placed := by
  have hbefore := before_eq (whole_of_mem_allFinds hf) (whole_of_mem_allFinds hg) h
  have hafter : f.first.after = g.first.after := by
    have hwhole := (whole_of_mem_allFinds hf).trans (whole_of_mem_allFinds hg).symm
    unfold Spot.whole at hwhole
    rw [hbefore] at hwhole
    exact List.append_cancel_left hwhole
  have hline : f.line = g.line := by rw [Find.line, Find.line, hbefore]
  rw [Find.placed, Find.placed, h, hline, content_eq hf, content_eq hg, hafter]

/-- A place in the characters behind a place of a text is in that text. -/
theorem offset_add_lt {t : Spot} {w : List Char} {n : Nat} (hwhole : f.first.whole = text) (hreach : f.first.Reaches w t)
    (hn : n < Text.byteSize w) : f.offset + n < Text.byteSize text := by
  rw [← hwhole, Spot.whole, Text.byteSize_append, Text.byteSize_reverse, hreach.2, Text.byteSize_append]
  show Text.byteSize f.first.before + n < _
  omega

theorem offset_lt (h : f ∈ allFinds text) : f.offset < Text.byteSize text := by
  obtain ⟨s, head, spec, tail, -, hquotes, -⟩ := quotes_of_mem_allFinds h
  exact offset_add_lt (n := 0) (whole_of_mem_allFinds h) hquotes.body (Text.byteSize_pos hquotes.nonempty)

/-- Without quotes there is nothing to find. -/
theorem allFinds_unquoted (h : ∀ c ∈ text, isQuote c = false) : allFinds text = [] := by
  rw [List.eq_nil_iff_forall_not_mem]
  intro f hf
  obtain ⟨s, head, spec, tail, hwhole, hquotes, -⟩ := quotes_of_mem_allFinds hf
  obtain ⟨q, hq, hlead⟩ := hquotes.lead
  have hmem : q ∈ text := by
    rw [← hwhole, Spot.whole, hlead.2]
    simp
  rw [h q hmem] at hq
  cases hq

/-! ## Order -/

section

variable {α : Type} {l : List (Nat × α)} {p : Nat × α} {last : Option Nat}

theorem mem_of_mem_dropSamePlace (h : p ∈ dropSamePlace last l) : p ∈ l := by
  induction l generalizing last with
  | nil => cases h
  | cons q l ih =>
    rw [dropSamePlace] at h
    split at h
    · exact List.mem_cons_of_mem q (ih h)
    · rcases List.mem_cons.mp h with rfl | h
      · exact List.mem_cons_self
      · exact List.mem_cons_of_mem q (ih h)

/-- Every place stays, except the one that was just before. -/
theorem exists_mem_dropSamePlace (h : p ∈ l) (hlast : last ≠ some p.1) : ∃ q ∈ dropSamePlace last l, q.1 = p.1 := by
  induction l generalizing last with
  | nil => cases h
  | cons q l ih =>
    rw [dropSamePlace]
    by_cases hq : q.1 = p.1
    · rw [if_neg (by rw [hq]; exact hlast)]
      exact ⟨q, List.mem_cons_self, hq⟩
    · have hmem : p ∈ l := by
        rcases List.mem_cons.mp h with rfl | h
        · exact absurd rfl hq
        · exact h
      split
      · exact ih hmem hlast
      · obtain ⟨r, hr, hrp⟩ := @ih (some q.1) hmem (by simpa using hq)
        exact ⟨r, List.mem_cons_of_mem q hr, hrp⟩

/-- Places in order without those that repeat the one before are in strict order. -/
theorem pairwise_dropSamePlace (h : l.Pairwise fun a b => a.1 ≤ b.1) (hlast : ∀ n ∈ last, ∀ p ∈ l, n ≤ p.1) :
    (dropSamePlace last l).Pairwise (fun a b => a.1 < b.1) ∧ ∀ n ∈ last, ∀ p ∈ dropSamePlace last l, n < p.1 := by
  induction l generalizing last with
  | nil => exact ⟨.nil, by simp [dropSamePlace]⟩
  | cons q l ih =>
    obtain ⟨hq, hl⟩ := List.pairwise_cons.mp h
    rw [dropSamePlace]
    split
    · exact ih hl fun n hn p hp => hlast n hn p (List.mem_cons_of_mem q hp)
    · rename_i hne
      obtain ⟨hrest, habove⟩ := @ih (some q.1) hl (by simpa using hq)
      refine ⟨List.pairwise_cons.mpr ⟨habove q.1 rfl, hrest⟩, ?_⟩
      intro n hn p hp
      have hle := hlast n hn q List.mem_cons_self
      have hlt : n < q.1 := by
        refine Nat.lt_of_le_of_ne hle ?_
        rintro rfl
        exact hne hn
      rcases List.mem_cons.mp hp with rfl | hp
      · exact hlt
      · exact Nat.lt_trans hlt (habove q.1 rfl p hp)

theorem mem_inTextOrder : p ∈ inTextOrder l ↔ p ∈ l := List.mem_mergeSort

theorem pairwise_inTextOrder (l : List (Nat × α)) : (inTextOrder l).Pairwise fun a b => a.1 ≤ b.1 :=
  Sorting.pairwise_mergeSort Prod.fst l

theorem inTextOrder_eq_self (h : l.Pairwise fun a b => a.1 ≤ b.1) : inTextOrder l = l :=
  List.mergeSort_of_pairwise (h.imp fun hab => decide_eq_true hab)

/-- What stands at one place keeps its order. -/
theorem filter_inTextOrder (n : Nat) (l : List (Nat × α)) :
    (inTextOrder l).filter (fun p => p.1 == n) = l.filter fun p => p.1 == n := by
  refine Sorting.filter_mergeSort Prod.fst ?_ l
  intro a b ha hb
  rw [beq_iff_eq.mp ha, beq_iff_eq.mp hb]

/-- The order asks only how the places compare. -/
theorem inTextOrder_map {β : Type} {place place' : β → Nat} {l : List β}
    (h : ∀ x ∈ l, ∀ y ∈ l, place x ≤ place y ↔ place' x ≤ place' y) (value : β → α) :
    inTextOrder (l.map fun x => (place' x, value x)) =
      (l.mergeSort fun x y => decide (place x ≤ place y)).map fun x => (place' x, value x) :=
  (List.map_mergeSort fun x hx y hy => decide_eq_decide.mpr (h x hx y hy)).symm

/-- What lies before a place comes before the rest. -/
theorem inTextOrder_split (n : Nat) (l : List (Nat × α)) :
    inTextOrder l =
      inTextOrder (l.filter fun p => decide (p.1 < n)) ++ inTextOrder (l.filter fun p => !decide (p.1 < n)) := by
  refine Sorting.eq_of_filter_eq (pairwise_inTextOrder l) ?_ fun m => ?_
  · refine List.pairwise_append.mpr ⟨pairwise_inTextOrder _, pairwise_inTextOrder _, fun a ha b hb => ?_⟩
    have ha := (List.mem_filter.mp (mem_inTextOrder.mp ha)).2
    have hb := (List.mem_filter.mp (mem_inTextOrder.mp hb)).2
    simp only [Bool.not_eq_true', decide_eq_true_eq, decide_eq_false_iff_not] at ha hb
    omega
  · rw [List.filter_append, filter_inTextOrder, filter_inTextOrder, filter_inTextOrder, List.filter_filter,
      List.filter_filter]
    by_cases hm : m < n
    · have hall : ∀ p : Nat × α, (p.1 == m && decide (p.1 < n)) = (p.1 == m) := by
        intro p
        by_cases hp : p.1 = m <;> simp [hp, hm]
      have hnone : ∀ p : Nat × α, (p.1 == m && !decide (p.1 < n)) = false := by
        intro p
        by_cases hp : p.1 = m <;> simp [hp, hm]
      simp only [hall, hnone, List.filter_false, List.append_nil]
    · have hall : ∀ p : Nat × α, (p.1 == m && !decide (p.1 < n)) = (p.1 == m) := by
        intro p
        by_cases hp : p.1 = m <;> simp [hp, hm]
      have hnone : ∀ p : Nat × α, (p.1 == m && decide (p.1 < n)) = false := by
        intro p
        by_cases hp : p.1 = m <;> simp [hp, hm]
      simp only [hall, hnone, List.filter_false, List.nil_append]

end

/-! ## Places -/

def places (text : List Char) : List (Nat × Import) :=
  dropSamePlace none (inTextOrder ((allFinds text).map Find.placed))

theorem imports_eq (content : String) :
    imports content =
      (dropSamePlace none (inTextOrder ((allFinds content.toList).map fun f =>
        (f.offset, (⟨String.ofList f.content, f.line⟩ : Import))))).map (·.2) := by
  unfold imports importsOf
  rw [allFinds, List.map_flatMap, extractors]

theorem imports_eq_places (content : String) : imports content = (places content.toList).map (·.2) := imports_eq content

theorem pairwise_places (text : List Char) : (places text).Pairwise fun a b => a.1 < b.1 :=
  (pairwise_dropSamePlace (pairwise_inTextOrder _) (by simp)).1

theorem mem_places {p : Nat × Import} : p ∈ places text ↔ ∃ f ∈ allFinds text, f.placed = p := by
  constructor
  · intro h
    exact List.mem_map.mp (mem_inTextOrder.mp (mem_of_mem_dropSamePlace h))
  · rintro ⟨f, hf, rfl⟩
    have hmem : f.placed ∈ inTextOrder ((allFinds text).map Find.placed) :=
      mem_inTextOrder.mpr (List.mem_map.mpr ⟨f, hf, rfl⟩)
    obtain ⟨q, hq, hsame⟩ := @exists_mem_dropSamePlace _ _ _ none hmem (by simp)
    obtain ⟨g, hg, rfl⟩ := List.mem_map.mp (mem_inTextOrder.mp (mem_of_mem_dropSamePlace hq))
    rw [← placed_eq hg hf hsame]
    exact hq

/-- Imports in strict order of their places are known by their members. -/
theorem places_eq {l : List (Nat × Import)} (hl : l.Pairwise fun a b => a.1 < b.1)
    (hmem : ∀ p, p ∈ l ↔ ∃ f ∈ allFinds text, f.placed = p) : places text = l := by
  have : Std.Irrefl fun a b : Nat × Import => a.1 < b.1 := ⟨fun a => Nat.lt_irrefl a.1⟩
  have : Std.Antisymm fun a b : Nat × Import => a.1 < b.1 := ⟨fun a b h h' => absurd h (Nat.lt_asymm h')⟩
  exact (pairwise_places text).eq_of_mem_iff hl fun p => mem_places.trans (hmem p).symm

theorem places_eq_nil (h : allFinds text = []) : places text = [] := by
  refine places_eq .nil fun p => ?_
  simp [h]

/-! ## Two texts -/

theorem placed_followedBy (y : List Char) (f : Find) : (f.followedBy y).placed = f.placed := rfl

def behind (x : List Char) (p : Nat × Import) : Nat × Import := (p.1 + Text.byteSize x, p.2.below (Text.newlines x))

theorem offset_precededBy (x : List Char) (f : Find) : (f.precededBy x).offset = f.offset + Text.byteSize x := by
  show Text.byteSize (f.first.before ++ x.reverse) = _
  rw [Text.byteSize_append, Text.byteSize_reverse]
  rfl

theorem content_precededBy (x : List Char) {w : List Char} (h : f.first.Reaches w f.last) :
    (f.precededBy x).content = f.content :=
  (h.precededBy x).textTo_eq.trans h.textTo_eq.symm

theorem placed_precededBy (x : List Char) (hf : f ∈ allFinds y) : (f.precededBy x).placed = behind x f.placed := by
  obtain ⟨s, head, spec, tail, -, hquotes, -⟩ := quotes_of_mem_allFinds hf
  have hline : (f.precededBy x).line = f.line + Text.newlines x := by
    show Text.newlines (f.first.before ++ x.reverse) + 1 = Text.newlines f.first.before + 1 + Text.newlines x
    rw [Text.newlines_append, Text.newlines_reverse]
    omega
  rw [Find.placed, content_precededBy x hquotes.body, offset_precededBy, hline]
  rfl

theorem places_append (hx : Text.EndsLine x) (hcross : ∀ e ∈ extractors, ¬ e.Crosses x y) :
    places (x ++ y) = places x ++ (places y).map (behind x) := by
  have hfinds : ∀ e ∈ extractors,
      e.finds (x ++ y) = (e.finds x).map (Find.followedBy y) ++ (e.finds y).map (Find.precededBy x) :=
    fun e he => Extractor.finds_append (solid_of_mem_extractors he) hx (hcross e he)
  refine places_eq ?_ fun p => ?_
  · refine List.pairwise_append.mpr ⟨pairwise_places x, ?_, ?_⟩
    · refine List.pairwise_map.mpr ((pairwise_places y).imp fun h => ?_)
      exact Nat.add_lt_add_right h _
    · intro p hp q hq
      obtain ⟨f, hf, rfl⟩ := mem_places.mp hp
      obtain ⟨r, -, rfl⟩ := List.mem_map.mp hq
      have hlt := offset_lt hf
      show f.offset < r.1 + Text.byteSize x
      omega
  · rw [List.mem_append, List.mem_map]
    constructor
    · rintro (hp | ⟨q, hq, rfl⟩)
      · obtain ⟨f, hf, rfl⟩ := mem_places.mp hp
        obtain ⟨e, he, hf⟩ := mem_allFinds.mp hf
        refine ⟨f.followedBy y, mem_allFinds.mpr ⟨e, he, ?_⟩, placed_followedBy y f⟩
        rw [hfinds e he]
        exact List.mem_append_left _ (List.mem_map_of_mem hf)
      · obtain ⟨f, hf, rfl⟩ := mem_places.mp hq
        have hplaced := placed_precededBy x hf
        obtain ⟨e, he, hf⟩ := mem_allFinds.mp hf
        refine ⟨f.precededBy x, mem_allFinds.mpr ⟨e, he, ?_⟩, hplaced⟩
        rw [hfinds e he]
        exact List.mem_append_right _ (List.mem_map_of_mem hf)
    · rintro ⟨g, hg, rfl⟩
      obtain ⟨e, he, hg⟩ := mem_allFinds.mp hg
      rw [hfinds e he] at hg
      rcases List.mem_append.mp hg with hg | hg
      · obtain ⟨f, hf, rfl⟩ := List.mem_map.mp hg
        exact .inl (mem_places.mpr ⟨f, mem_allFinds.mpr ⟨e, he, hf⟩, rfl⟩)
      · obtain ⟨f, hf, rfl⟩ := List.mem_map.mp hg
        have hf : f ∈ allFinds y := mem_allFinds.mpr ⟨e, he, hf⟩
        exact .inr ⟨f.placed, mem_places.mpr ⟨f, hf, rfl⟩, (placed_precededBy x hf).symm⟩

/-- The imports of two texts, of which the first ends a line, are those of both if no match runs across the border. -/
theorem imports_append {a b : String} (ha : Text.EndsLine a.toList)
    (hcross : ∀ e ∈ extractors, ¬ e.Crosses a.toList b.toList) :
    imports (a ++ b) = imports a ++ (imports b).map (Import.below (Text.newlines a.toList)) := by
  rw [imports_eq_places, imports_eq_places, imports_eq_places, String.toList_append, places_append ha hcross,
    List.map_append, List.map_map, List.map_map]
  rfl

/-- Statements one per line. The last line may be ended or not. -/
def listing {α : Type} (text : α → String) (ended : Bool) : List α → String
  | [] => ""
  | [st] => text st ++ (if ended then "\n" else "")
  | st :: sts => text st ++ "\n" ++ listing text ended sts

theorem listing_induction {α : Type} {text : α → String} {motive : List α → String → Prop} (nil : motive [] "")
    (last : ∀ st z, z = "" ∨ z = "\n" → motive [st] (text st ++ z))
    (next : ∀ st sts rest, motive sts rest → motive (st :: sts) (text st ++ "\n" ++ rest)) (ended : Bool)
    (sts : List α) : motive sts (listing text ended sts) := by
  fun_induction listing text ended sts with
  | case1 => exact nil
  | case2 st => exact last st _ (by cases ended <;> simp)
  | case3 st sts _ ih => exact next st sts _ ih

end Source

end LayerLint
