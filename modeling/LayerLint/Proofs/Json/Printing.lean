/-
  LayerLint.Proofs.Json.Printing: what is written is JSON, and means what was to be written.

  A value is regular if no object in it has a key twice and its decimals are in lowest terms. In both layouts the text
  of a regular value is JSON that means the value, so the reader gives it back, and the compact text has no character
  below the blank: those in strings are escaped, and the layout adds none (`Regular.faithful`).
-/

import LayerLint.Proofs.Json.Numbers

namespace LayerLint.Json

/-- A value that a text can mean exactly. -/
inductive Regular : Json → Prop where
  | null : Regular .null
  | bool (b : Bool) : Regular (.bool b)
  | int (n : Int) : Regular (.int n)
  | real {d : Decimal} : d.Lowest → Regular (.real d)
  | str (s : String) : Regular (.str s)
  | arr {vs : List Json} : (∀ v ∈ vs, Regular v) → Regular (.arr vs)
  | obj {es : List (String × Json)} : (es.map (·.1)).Nodup → (∀ e ∈ es, Regular e.2) → Regular (.obj es)

/-! ## Characters that need no escape -/

def Plain (t : List Char) : Prop := ∀ c ∈ t, 0x20 ≤ c.toNat

@[simp] theorem plain_nil : Plain [] := nofun

@[simp] theorem plain_cons {c : Char} {t : List Char} : Plain (c :: t) ↔ 0x20 ≤ c.toNat ∧ Plain t := by
  simp [Plain]

@[simp] theorem plain_append {s t : List Char} : Plain (s ++ t) ↔ Plain s ∧ Plain t := by
  simp [Plain, or_imp, forall_and]

theorem plain_digits {ds : List Char} (h : ∀ c ∈ ds, Text.isAsciiDigit c = true) : Plain ds := by
  intro c hc
  have hdigit := h c hc
  simp only [Text.isAsciiDigit, Bool.and_eq_true, decide_eq_true_eq] at hdigit
  have : '0'.toNat ≤ c.toNat := hdigit.1
  exact Nat.le_trans (by decide) this

theorem Fraction.plain {frac : Option (List Char)} {f : List Char} (h : Fraction frac f) : Plain f := by
  cases h with
  | absent => simp
  | digits hd => simp [plain_digits hd.digit]

theorem Power.plain {power : Option Int} {p : List Char} (h : Power power p) : Plain p := by
  have hmark : ∀ {mark : Char}, mark = 'e' ∨ mark = 'E' → 0x20 ≤ mark.toNat := by
    rintro mark (rfl | rfl) <;> decide
  cases h with
  | absent => simp
  | bare hm hd | plus hm hd | minus hm hd => simp [hmark hm, plain_digits hd.digit]

theorem NumberText.plain {v : Json} {t : List Char} (h : NumberText v t) : Plain t := by
  obtain @⟨negative, whole, f, p, frac, power, hw, hf, hp⟩ := h
  have hsign : Plain (minusSign negative) := by cases negative <;> simp [minusSign]
  simp [hsign, plain_digits hw.digit, hf.plain, hp.plain]

/-! ## Strings -/

theorem mem_hexDigits : ∀ n < 16, (hexDigit n, n) ∈ hexDigits := by decide

theorem plain_hexDigit : ∀ n < 16, 0x20 ≤ (hexDigit n).toNat := by decide

theorem hex4_of_lt {n : Nat} (h : n < 0x20) : Hex4 n ['0', '0', hexDigit (n / 16), hexDigit (n % 16)] := by
  have hhigh := mem_hexDigits (n / 16) (by omega)
  have hlow := mem_hexDigits (n % 16) (by omega)
  have hzero : ('0', 0) ∈ hexDigits := by decide
  have hvalue : ((0 * 16 + 0) * 16 + n / 16) * 16 + n % 16 = n := by omega
  have hdigits := Hex4.mk hzero hzero hhigh hlow
  rwa [hvalue] at hdigits

theorem Chars.escape (c : Char) {cs t : List Char} (h : Chars cs t) : Chars (c :: cs) (escape c ++ t) := by
  simp only [Json.escape, beq_iff_eq]
  iterate 7
    split
    · next hc =>
      subst hc
      exact .short (by decide) h
  split
  · next hlow =>
    have hchars := Chars.numbered (hex4_of_lt hlow) (by omega) h
    rwa [Char.ofNat_toNat] at hchars
  · next hquote hslash _ _ _ _ _ hlow => exact .raw (by omega) hquote hslash h

theorem chars_escape (cs : List Char) : Chars cs (cs.flatMap escape) := by
  induction cs with
  | nil => exact .nil
  | cons c cs ih => exact ih.escape c

theorem plain_escape (c : Char) : Plain (escape c) := by
  simp only [Json.escape]
  iterate 7
    split
    · simp
  split
  · next hlow => simp [plain_hexDigit (c.toNat / 16) (by omega), plain_hexDigit (c.toNat % 16) (by omega)]
  · next hlow => simpa using hlow

theorem plain_flatMap_escape (cs : List Char) : Plain (cs.flatMap escape) := by
  intro c hc
  obtain ⟨d, -, hd⟩ := List.mem_flatMap.mp hc
  exact plain_escape d c hd

/-! ## Values -/

def Filler (layout : Layout) (w : List Char) : Prop := Blank w ∧ (layout = .compact → w = [])

theorem Filler.plain {layout : Layout} {w : List Char} (h : Filler layout w) (hl : layout = .compact) : Plain w := by
  rw [h.2 hl]
  simp

theorem breakLine_eq (layout : Layout) (depth : Nat) : ∃ w, Filler layout w ∧ ∀ k, breakLine layout depth k = w ++ k := by
  cases layout with
  | compact => exact ⟨[], ⟨nofun, fun _ => rfl⟩, fun k => rfl⟩
  | pretty =>
    refine ⟨'\n' :: List.replicate (2 * depth) ' ', ⟨?_, nofun⟩, fun k => rfl⟩
    intro c hc
    rcases List.mem_cons.mp hc with rfl | hc
    · rfl
    · rw [List.eq_of_mem_replicate hc]
      rfl

theorem colon_eq (layout : Layout) : ∃ w, Filler layout w ∧ ∀ k, colon layout k = ':' :: (w ++ k) := by
  cases layout with
  | compact => exact ⟨[], ⟨nofun, fun _ => rfl⟩, fun k => rfl⟩
  | pretty => exact ⟨[' '], ⟨by simp [Blank, isSpace], nofun⟩, fun k => rfl⟩

structure Written (layout : Layout) (phrase : Phrase) (t : List Char) : Prop where
  spells : Spells phrase t
  plain : layout = .compact → Plain t

def WritesValue (layout : Layout) (v : Json) : Prop :=
  ∀ depth k, ∃ t, write layout depth v k = t ++ k ∧ Written layout (.value v) t

variable {layout : Layout}

/-- The induction is on the items that are still to be written, behind one that is. -/
theorem writes_items {vs : List Json} (h : ∀ v ∈ vs, WritesValue layout v) (depth : Nat) (k : List Char) :
    ∀ {v : Json} {a t : List Char}, Filler layout a → Written layout (.value v) t →
      ∃ u, a ++ (t ++ writeItems layout depth vs k) = u ++ ']' :: k ∧ Written layout (.items (v :: vs)) u := by
  induction vs with
  | nil =>
    intro v a t ha ht
    obtain ⟨b, hb, hbreak⟩ := breakLine_eq layout depth
    refine ⟨a ++ (t ++ b), by simp [writeItems, hbreak], .lastItem ha.1 ht.spells hb.1, ?_⟩
    intro hl
    simp [ha.plain hl, ht.plain hl, hb.plain hl]
  | cons v' vs ih =>
    intro v a t ha ht
    obtain ⟨b, hb, hbreak⟩ := breakLine_eq layout (depth + 1)
    obtain ⟨t', ht', hwritten⟩ := h v' List.mem_cons_self (depth + 1) (writeItems layout depth vs k)
    obtain ⟨u, hu, hitems⟩ := ih (fun w hw => h w (List.mem_cons_of_mem v' hw)) hb hwritten
    refine ⟨a ++ (t ++ ([] ++ ',' :: u)), ?_, .item ha.1 ht.spells nofun hitems.spells, ?_⟩
    · simp [writeItems, hbreak, ht', hu]
    · intro hl
      simp [ha.plain hl, ht.plain hl, hitems.plain hl]

theorem writes_key (key : String) {a : List Char} (ha : Filler layout a) :
    ∃ n, KeyText key n ∧ (layout = .compact → Plain n) ∧
      ∀ k, a ++ writeString key (colon layout k) = n ++ k := by
  obtain ⟨c, hc, hcolon⟩ := colon_eq layout
  refine ⟨_, .mk ha.1 (chars_escape key.toList) (b := []) nofun hc.1, ?_, ?_⟩
  · intro hl
    simp [ha.plain hl, hc.plain hl, plain_flatMap_escape]
  · intro k
    simp [writeString, hcolon]

theorem writes_entries {es : List (String × Json)} (h : ∀ e ∈ es, WritesValue layout e.2) (depth : Nat)
    (k : List Char) : ∀ {key : String} {v : Json} {n t : List Char}, KeyText key n → (layout = .compact → Plain n) →
      Written layout (.value v) t →
      ∃ u, n ++ (t ++ writeEntries layout depth es k) = u ++ '\x7d' :: k ∧
        Written layout (.entries ((key, v) :: es)) u := by
  induction es with
  | nil =>
    intro key v n t hn hplain ht
    obtain ⟨b, hb, hbreak⟩ := breakLine_eq layout depth
    refine ⟨n ++ (t ++ b), by simp [writeEntries, hbreak], .lastEntry hn ht.spells hb.1, ?_⟩
    intro hl
    simp [hplain hl, ht.plain hl, hb.plain hl]
  | cons e es ih =>
    intro key v n t hn hplain ht
    obtain ⟨b, hb, hbreak⟩ := breakLine_eq layout (depth + 1)
    obtain ⟨n', hn', hplain', hkey⟩ := writes_key e.1 hb
    obtain ⟨t', ht', hwritten⟩ := h e List.mem_cons_self (depth + 1) (writeEntries layout depth es k)
    obtain ⟨u, hu, hentries⟩ := ih (fun w hw => h w (List.mem_cons_of_mem e hw)) hn' hplain' hwritten
    refine ⟨n ++ (t ++ ([] ++ ',' :: u)), ?_, .entry hn ht.spells nofun hentries.spells, ?_⟩
    · simp [writeEntries, hbreak, hkey, ht', hu]
    · intro hl
      simp [hplain hl, ht.plain hl, hentries.plain hl]

theorem lastOfEach_of_nodup {es : List (String × Json)} (h : (es.map (·.1)).Nodup) : lastOfEach es = es := by
  induction es with
  | nil => rfl
  | cons e es ih =>
    rw [List.map_cons, List.nodup_cons] at h
    have hfresh : es.any (·.1 == e.1) = false := by
      simp only [List.any_eq_false, beq_iff_eq]
      intro x hx hkey
      exact h.1 (hkey ▸ List.mem_map_of_mem hx)
    simp [lastOfEach, hfresh, ih h.2]

theorem NumberText.written {v : Json} {t : List Char} (h : NumberText v t) : Written layout (.value v) t :=
  ⟨.number h, fun _ => h.plain⟩

theorem Regular.writes {v : Json} (h : Regular v) (layout : Layout) : WritesValue layout v := by
  induction h with
  | null => exact fun depth k => ⟨_, rfl, .null, fun _ => by simp⟩
  | bool b =>
    intro depth k
    cases b with
    | true => exact ⟨_, rfl, .yes, fun _ => by simp⟩
    | false => exact ⟨_, rfl, .no, fun _ => by simp⟩
  | int n => exact fun depth k => ⟨_, rfl, (numberText_int n).written⟩
  | real hd => exact fun depth k => ⟨_, rfl, (numberText_real hd).written⟩
  | str s =>
    intro depth k
    refine ⟨_, ?_, .str (chars_escape s.toList), fun _ => ?_⟩
    · simp [write, writeString]
    · simp [plain_flatMap_escape]
  | @arr vs _ ih =>
    intro depth k
    cases vs with
    | nil => exact ⟨_, rfl, .noItems (w := []) nofun, fun _ => by simp⟩
    | cons v vs =>
      obtain ⟨a, ha, hbreak⟩ := breakLine_eq layout (depth + 1)
      obtain ⟨t, ht, hwritten⟩ := ih v List.mem_cons_self (depth + 1) (writeItems layout depth vs k)
      obtain ⟨u, hu, hitems⟩ := writes_items (fun w hw => ih w (List.mem_cons_of_mem v hw)) depth k ha hwritten
      refine ⟨_, ?_, .arr hitems.spells, fun hl => ?_⟩
      · simp [write, hbreak, ht, hu]
      · simp [hitems.plain hl]
  | @obj es hkeys _ ih =>
    intro depth k
    cases es with
    | nil => exact ⟨_, rfl, .noEntries (w := []) nofun, fun _ => by simp⟩
    | cons e es =>
      obtain ⟨a, ha, hbreak⟩ := breakLine_eq layout (depth + 1)
      obtain ⟨n, hn, hplain, hkey⟩ := writes_key e.1 ha
      obtain ⟨t, ht, hwritten⟩ := ih e List.mem_cons_self (depth + 1) (writeEntries layout depth es k)
      obtain ⟨u, hu, hentries⟩ :=
        writes_entries (fun w hw => ih w (List.mem_cons_of_mem e hw)) depth k hn hplain hwritten
      have hspells := Spells.obj hentries.spells
      rw [lastOfEach_of_nodup hkeys] at hspells
      refine ⟨_, ?_, hspells, fun hl => ?_⟩
      · simp [write, hbreak, hkey, ht, hu]
      · simp [hentries.plain hl]

/-! ## Regular values -/

attribute [simp] Regular.null Regular.bool Regular.int Regular.str

@[simp] theorem regular_nat (n : Nat) : Regular (nat n) := .int n

theorem regular_map {α : Type} {f : α → Json} {as : List α} (h : ∀ a ∈ as, Regular (f a)) : Regular (.arr (as.map f)) := by
  refine .arr fun v hv => ?_
  obtain ⟨a, ha, rfl⟩ := List.mem_map.mp hv
  exact h a ha

@[simp] theorem regular_strings (ss : List String) : Regular (strings ss) := regular_map fun s _ => .str s

/-- What the text of a value has to do with it: in both layouts it is JSON that means the value and nothing else, and is
    read as the value, and in the compact layout it is one line without control characters. -/
structure Faithful (v : Json) : Prop where
  means : ∀ layout u, IsText u (v.render layout) ↔ u = v
  parse : ∀ layout, parse? (v.render layout) = some v
  plain : ∀ c ∈ (v.render .compact).toList, 0x20 ≤ c.toNat

theorem Regular.isText {v : Json} (h : Regular v) (layout : Layout) : IsText v (v.render layout) := by
  obtain ⟨t, ht, hwritten⟩ := h.writes layout 0 []
  exact ⟨[], t, [], nofun, hwritten.spells, nofun, by simp [render, ht]⟩

theorem Regular.faithful {v : Json} (h : Regular v) : Faithful v where
  means layout u := ⟨fun hu => hu.unique (h.isText layout), fun hu => hu ▸ h.isText layout⟩
  parse layout := parse?_of_isText (h.isText layout)
  plain := by
    obtain ⟨t, ht, hwritten⟩ := h.writes .compact 0 []
    rw [render, String.toList_ofList, ht, List.append_nil]
    exact hwritten.plain rfl

end LayerLint.Json
