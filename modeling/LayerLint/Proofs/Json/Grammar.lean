/-
  LayerLint.Proofs.Json.Grammar: which texts are JSON, what each of them means, and that all of them are read.

  The grammar is a relation between phrases and texts (`Spells`). A phrase is a value, the items of a list or the
  entries of an object; strings and numbers have relations of their own (`Chars`, `NumberText`). `IsText` allows
  blanks around the one value of a text.

  The reader reads every text of the grammar as what it means (`parse?_of_isText`), so a text has one meaning at most
  (`IsText.unique`). Only a number can be cut short by what follows it, hence the condition `Stops` on the rest.
-/

import LayerLint.Json.Reader
import Mathlib.Data.List.TakeDrop

namespace LayerLint.Json

/-! ## Texts -/

def Blank (w : List Char) : Prop := ∀ c ∈ w, isSpace c = true

def shortEscapes : List (Char × Char) :=
  [('"', '"'), ('\\', '\\'), ('/', '/'), ('b', '\x08'), ('f', '\x0c'), ('n', '\n'), ('r', '\r'), ('t', '\t')]

def hexDigits : List (Char × Nat) :=
  [('0', 0), ('1', 1), ('2', 2), ('3', 3), ('4', 4), ('5', 5), ('6', 6), ('7', 7), ('8', 8), ('9', 9), ('a', 10),
   ('b', 11), ('c', 12), ('d', 13), ('e', 14), ('f', 15), ('A', 10), ('B', 11), ('C', 12), ('D', 13), ('E', 14),
   ('F', 15)]

inductive Hex4 : Nat → List Char → Prop where
  | mk {a b c d : Char} {i j k l : Nat} : (a, i) ∈ hexDigits → (b, j) ∈ hexDigits → (c, k) ∈ hexDigits →
      (d, l) ∈ hexDigits → Hex4 (((i * 16 + j) * 16 + k) * 16 + l) [a, b, c, d]

inductive Chars : List Char → List Char → Prop where
  | nil : Chars [] []
  | raw {c : Char} {cs t : List Char} : 0x20 ≤ c.toNat → c ≠ '"' → c ≠ '\\' → Chars cs t → Chars (c :: cs) (c :: t)
  | short {letter c : Char} {cs t : List Char} : (letter, c) ∈ shortEscapes → Chars cs t →
      Chars (c :: cs) ('\\' :: letter :: t)
  | numbered {n : Nat} {h cs t : List Char} : Hex4 n h → ¬(0xD800 ≤ n ∧ n < 0xE000) → Chars cs t →
      Chars (Char.ofNat n :: cs) ('\\' :: 'u' :: (h ++ t))
  /-- A character beyond the first 65536, by its two surrogates. -/
  | pair {hi lo : Nat} {h l cs t : List Char} : Hex4 hi h → 0xD800 ≤ hi → hi < 0xDC00 → Hex4 lo l → 0xDC00 ≤ lo →
      lo < 0xE000 → Chars cs t →
      Chars (Char.ofNat (0x10000 + (hi - 0xD800) * 0x400 + (lo - 0xDC00)) :: cs)
        ('\\' :: 'u' :: (h ++ '\\' :: 'u' :: (l ++ t)))

structure Digits (ds : List Char) : Prop where
  ne_nil : ds ≠ []
  digit : ∀ c ∈ ds, Text.isAsciiDigit c = true

/-- The digits before the point: no zero stands in front of others. -/
structure Whole (ds : List Char) : Prop extends Digits ds where
  lead : 1 < ds.length → ds.head? ≠ some '0'

inductive Fraction : Option (List Char) → List Char → Prop where
  | absent : Fraction none []
  | digits {ds : List Char} : Digits ds → Fraction (some ds) ('.' :: ds)

inductive Power : Option Int → List Char → Prop where
  | absent : Power none []
  | bare {mark : Char} {ds : List Char} : mark = 'e' ∨ mark = 'E' → Digits ds →
      Power (some (digitsValue ds)) (mark :: ds)
  | plus {mark : Char} {ds : List Char} : mark = 'e' ∨ mark = 'E' → Digits ds →
      Power (some (digitsValue ds)) (mark :: '+' :: ds)
  | minus {mark : Char} {ds : List Char} : mark = 'e' ∨ mark = 'E' → Digits ds →
      Power (some (-digitsValue ds)) (mark :: '-' :: ds)

def minusSign (negative : Bool) : List Char := if negative then ['-'] else []

/-- What a number means: a whole number if it has neither point nor power and is not minus zero, and otherwise the
    decimal of all its digits. -/
def numberValue (negative : Bool) (whole : List Char) : Option (List Char) → Option Int → Json
  | none, none =>
    if negative && digitsValue whole == 0 then .real ⟨true, 0, 0⟩
    else .int (if negative then -digitsValue whole else digitsValue whole)
  | frac, power =>
    .real (.ofDigits negative (digitsValue (whole ++ frac.getD [])) (power.getD 0 - (frac.getD []).length))

inductive NumberText : Json → List Char → Prop where
  | mk (negative : Bool) {whole f p : List Char} {frac : Option (List Char)} {power : Option Int} :
      Whole whole → Fraction frac f → Power power p →
      NumberText (numberValue negative whole frac power) (minusSign negative ++ (whole ++ (f ++ p)))

inductive KeyText : String → List Char → Prop where
  | mk {key : String} {a q b c : List Char} : Blank a → Chars key.toList q → Blank b → Blank c →
      KeyText key (a ++ '"' :: (q ++ '"' :: (b ++ ':' :: c)))

inductive Phrase where
  | value (v : Json)
  | items (vs : List Json)
  | entries (es : List (String × Json))

/-- The texts of a phrase. Of two entries with one key the later one counts. -/
inductive Spells : Phrase → List Char → Prop where
  | null : Spells (.value .null) ['n', 'u', 'l', 'l']
  | yes : Spells (.value (.bool true)) ['t', 'r', 'u', 'e']
  | no : Spells (.value (.bool false)) ['f', 'a', 'l', 's', 'e']
  | number {v : Json} {t : List Char} : NumberText v t → Spells (.value v) t
  | str {s : String} {t : List Char} : Chars s.toList t → Spells (.value (.str s)) ('"' :: (t ++ ['"']))
  | noItems {w : List Char} : Blank w → Spells (.value (.arr [])) ('[' :: (w ++ [']']))
  | arr {vs : List Json} {t : List Char} : Spells (.items vs) t → Spells (.value (.arr vs)) ('[' :: (t ++ [']']))
  | noEntries {w : List Char} : Blank w → Spells (.value (.obj [])) ('\x7b' :: (w ++ ['\x7d']))
  | obj {es : List (String × Json)} {t : List Char} : Spells (.entries es) t →
      Spells (.value (.obj (lastOfEach es))) ('\x7b' :: (t ++ ['\x7d']))
  | lastItem {v : Json} {a t b : List Char} : Blank a → Spells (.value v) t → Blank b →
      Spells (.items [v]) (a ++ (t ++ b))
  | item {v : Json} {vs : List Json} {a t b u : List Char} : Blank a → Spells (.value v) t → Blank b →
      Spells (.items vs) u → Spells (.items (v :: vs)) (a ++ (t ++ (b ++ ',' :: u)))
  | lastEntry {key : String} {v : Json} {n t b : List Char} : KeyText key n → Spells (.value v) t → Blank b →
      Spells (.entries [(key, v)]) (n ++ (t ++ b))
  | entry {key : String} {v : Json} {es : List (String × Json)} {n t b u : List Char} : KeyText key n →
      Spells (.value v) t → Blank b → Spells (.entries es) u →
      Spells (.entries ((key, v) :: es)) (n ++ (t ++ (b ++ ',' :: u)))

def IsText (v : Json) (text : String) : Prop :=
  ∃ a t b, Blank a ∧ Spells (.value v) t ∧ Blank b ∧ text.toList = a ++ (t ++ b)

/-! ## Reading strings -/

theorem skipSpace_blank {w : List Char} (h : Blank w) (s : List Char) : skipSpace (w ++ s) = skipSpace s :=
  List.dropWhile_append_of_pos h

theorem skipSpace_cons {c : Char} (h : isSpace c = false) (s : List Char) : skipSpace (c :: s) = c :: s := by
  simp [skipSpace, h]

theorem hexValue?_of_mem : ∀ e ∈ hexDigits, hexValue? e.1 = some e.2 := by decide

theorem Hex4.read {n : Nat} {h : List Char} (hn : Hex4 n h) (s : List Char) : hex4? (h ++ s) = some (n, s) := by
  obtain ⟨ha, hb, hc, hd⟩ := hn
  simp [hex4?, hexValue?_of_mem _ ha, hexValue?_of_mem _ hb, hexValue?_of_mem _ hc, hexValue?_of_mem _ hd]

theorem unescape?_short {letter c : Char} (h : (letter, c) ∈ shortEscapes) (s : List Char) :
    unescape? (letter :: s) = some (c, s) := by
  simp only [shortEscapes, List.mem_cons, Prod.mk.injEq, List.not_mem_nil, or_false] at h
  rcases h with ⟨rfl, rfl⟩ | ⟨rfl, rfl⟩ | ⟨rfl, rfl⟩ | ⟨rfl, rfl⟩ | ⟨rfl, rfl⟩ | ⟨rfl, rfl⟩ | ⟨rfl, rfl⟩ | ⟨rfl, rfl⟩
  all_goals rfl

theorem numbered?_single {n : Nat} {h : List Char} (hn : Hex4 n h) (hs : ¬(0xD800 ≤ n ∧ n < 0xE000)) (s : List Char) :
    numbered? (h ++ s) = some (Char.ofNat n, s) := by
  have hhigh : ¬(0xD800 ≤ n ∧ n < 0xDC00) := by omega
  have hlow : ¬(0xDC00 ≤ n ∧ n < 0xE000) := by omega
  simp [numbered?, hn.read, hhigh, hlow]

theorem numbered?_pair {hi lo : Nat} {h l : List Char} (hh : Hex4 hi h) (h1 : 0xD800 ≤ hi) (h2 : hi < 0xDC00)
    (hl : Hex4 lo l) (h3 : 0xDC00 ≤ lo) (h4 : lo < 0xE000) (s : List Char) :
    numbered? (h ++ '\\' :: 'u' :: (l ++ s)) =
      some (Char.ofNat (0x10000 + (hi - 0xD800) * 0x400 + (lo - 0xDC00)), s) := by
  simp [numbered?, hh.read, hl.read, h1, h2, h3, h4]

theorem Chars.read {cs t : List Char} (h : Chars cs t) (k : List Char) : ∀ acc fuel, t.length < fuel →
    readChars acc fuel (t ++ '"' :: k) = some (String.ofList (acc.reverse ++ cs), k) := by
  induction h with
  | nil =>
    intro acc fuel hf
    obtain ⟨fuel, rfl⟩ := Nat.exists_eq_succ_of_ne_zero (Nat.ne_of_gt hf)
    simp [readChars]
  | @raw c cs t hc hq hb _ ih =>
    intro acc fuel hf
    obtain ⟨fuel, rfl⟩ := Nat.exists_eq_succ_of_ne_zero (Nat.ne_of_gt (Nat.zero_lt_of_lt hf))
    have hlow : ¬c.toNat < 0x20 := by omega
    have hlen : t.length < fuel := by simpa using hf
    simp [readChars, hq, hb, hlow, ih (c :: acc) fuel hlen]
  | @short letter c cs t hs _ ih =>
    intro acc fuel hf
    obtain ⟨fuel, rfl⟩ := Nat.exists_eq_succ_of_ne_zero (Nat.ne_of_gt (Nat.zero_lt_of_lt hf))
    have hlen : t.length < fuel := by simp at hf; omega
    simp [readChars, unescape?_short hs, ih (c :: acc) fuel hlen]
  | @numbered n h cs t hn hs _ ih =>
    intro acc fuel hf
    obtain ⟨fuel, rfl⟩ := Nat.exists_eq_succ_of_ne_zero (Nat.ne_of_gt (Nat.zero_lt_of_lt hf))
    have hlen : t.length < fuel := by simp at hf; omega
    simp [readChars, unescape?, numbered?_single hn hs, ih (Char.ofNat n :: acc) fuel hlen]
  | @pair hi lo h l cs t hh h1 h2 hl h3 h4 _ ih =>
    intro acc fuel hf
    obtain ⟨fuel, rfl⟩ := Nat.exists_eq_succ_of_ne_zero (Nat.ne_of_gt (Nat.zero_lt_of_lt hf))
    have hlen : t.length < fuel := by simp at hf; omega
    simp [readChars, unescape?, numbered?_pair hh h1 h2 hl h3 h4, ih (_ :: acc) fuel hlen]

/-! ## Reading numbers -/

/-- What may follow a number: nothing that would belong to it. -/
def Stops (k : List Char) : Prop :=
  ∀ c ∈ k.head?, Text.isAsciiDigit c = false ∧ c ≠ '.' ∧ c ≠ 'e' ∧ c ≠ 'E'

theorem digitRow_append {ds s : List Char} (hd : ∀ c ∈ ds, Text.isAsciiDigit c = true)
    (hs : ∀ c ∈ s.head?, Text.isAsciiDigit c = false) : digitRow (ds ++ s) = (ds, s) := by
  rw [digitRow, List.span_eq_takeWhile_dropWhile, List.takeWhile_append_of_pos hd, List.dropWhile_append_of_pos hd]
  cases s with
  | nil => simp
  | cons c s => simp [hs c rfl]

theorem Fraction.read {frac : Option (List Char)} {f s : List Char} (h : Fraction frac f)
    (hs : ∀ c ∈ s.head?, Text.isAsciiDigit c = false ∧ c ≠ '.') : fraction? (f ++ s) = some (frac, s) := by
  cases h with
  | absent =>
    cases s with
    | nil => rfl
    | cons c s =>
      have hc := (hs c rfl).2
      simp [fraction?, hc]
  | @digits ds hd =>
    have hrow := digitRow_append hd.digit fun c hc => (hs c hc).1
    simp only [List.cons_append, fraction?, hrow]
    cases ds with
    | nil => exact absurd rfl hd.ne_nil
    | cons c ds => rfl

theorem digit_ne {c d : Char} (hc : Text.isAsciiDigit c = true) (hd : Text.isAsciiDigit d = false) : c ≠ d := by
  rintro rfl
  rw [hc] at hd
  cases hd

theorem Digits.exists_cons {ds : List Char} (h : Digits ds) :
    ∃ d rest, ds = d :: rest ∧ Text.isAsciiDigit d = true := by
  cases ds with
  | nil => exact absurd rfl h.ne_nil
  | cons d rest => exact ⟨d, rest, rfl, h.digit d List.mem_cons_self⟩

theorem Power.read {power : Option Int} {p s : List Char} (h : Power power p) (hs : Stops s) :
    power? (p ++ s) = some (power, s) := by
  have hrow : ∀ {ds}, Digits ds → digitRow (ds ++ s) = (ds, s) := fun hd =>
    digitRow_append hd.digit fun c hc => (hs c hc).1
  have hmark : ∀ {mark : Char}, mark = 'e' ∨ mark = 'E' → (mark == 'e' || mark == 'E') = true := by
    rintro mark (rfl | rfl) <;> rfl
  cases h with
  | absent =>
    cases s with
    | nil => rfl
    | cons c s =>
      obtain ⟨-, -, h1, h2⟩ := hs c rfl
      simp [power?, h1, h2]
  | bare hm hd =>
    obtain ⟨d, rest, rfl, hdigit⟩ := hd.exists_cons
    have hplus : d ≠ '+' := digit_ne hdigit rfl
    have hminus : d ≠ '-' := digit_ne hdigit rfl
    have := hrow hd
    simp only [List.cons_append] at this
    simp [power?, hmark hm, hplus, hminus, this]
  | plus hm hd | minus hm hd =>
    obtain ⟨d, rest, rfl, -⟩ := hd.exists_cons
    have := hrow hd
    simp only [List.cons_append] at this
    simp [power?, hmark hm, this]

theorem Power.head {power : Option Int} {p s : List Char} (h : Power power p) (hs : Stops s) :
    ∀ c ∈ (p ++ s).head?, Text.isAsciiDigit c = false ∧ c ≠ '.' := by
  have hmark : ∀ {mark : Char}, mark = 'e' ∨ mark = 'E' → Text.isAsciiDigit mark = false ∧ mark ≠ '.' := by
    rintro mark (rfl | rfl) <;> decide
  cases h with
  | absent => exact fun c hc => ⟨(hs c hc).1, (hs c hc).2.1⟩
  | bare hm _ | plus hm _ | minus hm _ =>
    rintro c ⟨⟩
    exact hmark hm

theorem Fraction.head {frac : Option (List Char)} {f s : List Char} (h : Fraction frac f)
    (hs : ∀ c ∈ s.head?, Text.isAsciiDigit c = false ∧ c ≠ '.') :
    ∀ c ∈ (f ++ s).head?, Text.isAsciiDigit c = false := by
  cases h with
  | absent => exact fun c hc => (hs c hc).1
  | digits _ =>
    rintro c ⟨⟩
    rfl

theorem readNumber_text (negative : Bool) {whole f p : List Char} {frac : Option (List Char)} {power : Option Int}
    (hw : Whole whole) (hf : Fraction frac f) (hp : Power power p) {k : List Char} (hk : Stops k) :
    readNumber (minusSign negative ++ (whole ++ (f ++ (p ++ k)))) = some (numberValue negative whole frac power, k) := by
  have hwhole := digitRow_append hw.digit (hf.head (hp.head hk))
  have hfrac := hf.read (hp.head hk)
  have hpower := hp.read hk
  obtain ⟨d, rest, rfl, hdigit⟩ := hw.exists_cons
  have hminus : d ≠ '-' := digit_ne hdigit rfl
  have hlead : ¬(0 < rest.length ∧ d = '0') := by
    rintro ⟨hlen, rfl⟩
    exact hw.lead (by simpa using hlen) rfl
  simp only [List.cons_append] at hwhole
  -- Whole numbers apart, the value does not depend on which of point and power are there.
  rcases frac with _ | ds <;> rcases power with _ | e
  · by_cases hzero : digitsValue (d :: rest) = 0 <;> cases negative <;>
      simp [readNumber, minusSign, numberValue, hwhole, hfrac, hpower, hminus, hlead, hzero]
  all_goals
    cases negative <;> simp [readNumber, minusSign, numberValue, hwhole, hfrac, hpower, hminus, hlead]

/-! ## Reading values -/

theorem readValue_blank {w : List Char} (h : Blank w) (fuel : Nat) (s : List Char) :
    readValue fuel (w ++ s) = readValue fuel s := by
  cases fuel with
  | zero => rfl
  | succ fuel => rw [readValue, readValue, skipSpace_blank h]

theorem readEntries_blank {w : List Char} (h : Blank w) (fuel : Nat) (acc : List (String × Json)) (s : List Char) :
    readEntries fuel acc (w ++ s) = readEntries fuel acc s := by
  cases fuel with
  | zero => rfl
  | succ fuel => rw [readEntries, readEntries, skipSpace_blank h]

theorem readValue_number {c : Char} (h : c = '-' ∨ Text.isAsciiDigit c = true) (fuel : Nat) (s : List Char) :
    readValue (fuel + 1) (c :: s) = readNumber (c :: s) := by
  have hne : ∀ d, d ≠ '-' → Text.isAsciiDigit d = false → c ≠ d := by
    rintro d hd hdigit rfl
    rcases h with rfl | h
    · exact hd rfl
    · rw [h] at hdigit
      cases hdigit
  have hspace : isSpace c = false := by
    simp [isSpace, hne ' ' (by decide) rfl, hne '\t' (by decide) rfl, hne '\n' (by decide) rfl, hne '\r' (by decide) rfl]
  simp [readValue, skipSpace_cons hspace, hne '"' (by decide) rfl, hne '[' (by decide) rfl,
    hne '\x7b' (by decide) rfl, hne 'n' (by decide) rfl, hne 't' (by decide) rfl, hne 'f' (by decide) rfl]

theorem word?_append (w : String) (v : Json) (k : List Char) : word? w v (w.toList ++ k) = some (v, k) := by
  simp [word?, ← String.length_toList]

theorem readValue_str {s : String} {t : List Char} (h : Chars s.toList t) (fuel : Nat) (k : List Char) :
    readValue (fuel + 1) ('"' :: (t ++ '"' :: k)) = some (.str s, k) := by
  have hread := h.read k [] ((t ++ '"' :: k).length + 1) (by rw [List.length_append]; omega)
  rw [readValue, skipSpace_cons rfl]
  simp only [hread]
  simp

/-- A list that is read as having items is not empty, so the reader does not take it for one. -/
theorem readItems_close {s k : List Char} (h : skipSpace s = ']' :: k) (fuel : Nat) (acc : List Json) :
    readItems fuel acc s = none := by
  rcases fuel with _ | _ | fuel
  · rfl
  · rfl
  · simp [readItems, readValue, h, readNumber, digitRow, List.span_eq_takeWhile_dropWhile, Text.isAsciiDigit]

theorem readValue_arr {fuel : Nat} {s k : List Char} {vs : List Json} (h : readItems fuel [] s = some (vs, k)) :
    readValue (fuel + 1) ('[' :: s) = some (.arr vs, k) := by
  have hopen : ∀ k', skipSpace s ≠ ']' :: k' := by
    intro k' hk
    rw [readItems_close hk] at h
    cases h
  rw [readValue, skipSpace_cons rfl]
  simp [h]

theorem readItems_last {fuel : Nat} (acc : List Json) {s rest k : List Char} {v : Json}
    (h : readValue fuel s = some (v, rest)) (hrest : skipSpace rest = ']' :: k) :
    readItems (fuel + 1) acc s = some (acc.reverse ++ [v], k) := by
  simp [readItems, h, hrest]

theorem readItems_next {fuel : Nat} (acc : List Json) {s rest more : List Char} {v : Json}
    (h : readValue fuel s = some (v, rest)) (hrest : skipSpace rest = ',' :: more) :
    readItems (fuel + 1) acc s = readItems fuel (v :: acc) more := by
  simp [readItems, h, hrest]

theorem readValue_obj {fuel : Nat} {s k : List Char} {es : List (String × Json)}
    (h : readEntries fuel [] s = some (es, k)) :
    readValue (fuel + 1) ('\x7b' :: s) = some (.obj (lastOfEach es), k) := by
  have hopen : ∀ k', skipSpace s ≠ '\x7d' :: k' := by
    intro k' hk
    cases fuel with
    | zero => cases h
    | succ fuel => simp [readEntries, hk] at h
  rw [readValue, skipSpace_cons rfl]
  simp [h]

/-- Behind a key and its colon the entry goes on with its value, and then with a comma or the closing brace. -/
theorem readEntries_key {key : String} {n : List Char} (hn : KeyText key n) {fuel : Nat}
    {s rest : List Char} {v : Json} (h : readValue fuel s = some (v, rest)) (acc : List (String × Json)) (k : List Char) :
    (skipSpace rest = ',' :: k → readEntries (fuel + 1) acc (n ++ s) = readEntries fuel ((key, v) :: acc) k) ∧
    (skipSpace rest = '\x7d' :: k → readEntries (fuel + 1) acc (n ++ s) = some (acc.reverse ++ [(key, v)], k)) := by
  obtain @⟨a, q, b, c, ha, hq, hb, hc⟩ := hn
  have htext : a ++ '"' :: (q ++ '"' :: (b ++ ':' :: c)) ++ s = a ++ '"' :: (q ++ '"' :: (b ++ ':' :: (c ++ s))) := by
    simp
  have hread := hq.read (b ++ ':' :: (c ++ s)) [] ((q ++ '"' :: (b ++ ':' :: (c ++ s))).length + 1)
    (by rw [List.length_append]; omega)
  rw [htext, readEntries_blank ha, readEntries, skipSpace_cons rfl]
  simp only [hread, skipSpace_blank hb, skipSpace_cons (c := ':') rfl, readValue_blank hc, h]
  constructor
  · intro hk
    simp [hk]
  · intro hk
    simp [hk]

def Reads : Phrase → List Char → Prop
  | .value v, t => ∀ fuel k, t.length ≤ fuel → Stops k → readValue fuel (t ++ k) = some (v, k)
  | .items vs, t => ∀ fuel acc k, t.length < fuel → readItems fuel acc (t ++ ']' :: k) = some (acc.reverse ++ vs, k)
  | .entries es, t => ∀ fuel acc k, t.length < fuel →
      readEntries fuel acc (t ++ '\x7d' :: k) = some (acc.reverse ++ es, k)

theorem stops_blank {w s : List Char} (h : Blank w) (hs : Stops s) : Stops (w ++ s) := by
  cases w with
  | nil => exact hs
  | cons c w =>
    rintro _ ⟨⟩
    have hc := h c List.mem_cons_self
    simp only [isSpace, Bool.or_eq_true, beq_iff_eq] at hc
    rcases hc with ((rfl | rfl) | rfl) | rfl
    all_goals decide

theorem stops_cons {c : Char} (h : c ∈ [',', ']', '\x7d']) (s : List Char) : Stops (c :: s) := by
  rintro _ ⟨⟩
  simp only [List.mem_cons, List.not_mem_nil, or_false] at h
  rcases h with rfl | rfl | rfl
  all_goals decide

theorem NumberText.reads {v : Json} {t : List Char} (h : NumberText v t) : Reads (.value v) t := by
  obtain @⟨negative, whole, f, p, frac, power, hw, hf, hp⟩ := h
  intro fuel k hfuel hk
  have hread := readNumber_text negative hw hf hp hk
  have htext : minusSign negative ++ (whole ++ (f ++ p)) ++ k = minusSign negative ++ (whole ++ (f ++ (p ++ k))) := by
    simp
  obtain ⟨d, rest, rfl, hd⟩ := hw.exists_cons
  obtain ⟨c, s, hs, hc⟩ : ∃ c s, minusSign negative ++ (d :: rest ++ (f ++ (p ++ k))) = c :: s ∧
      (c = '-' ∨ Text.isAsciiDigit c = true) := by
    cases negative with
    | true => exact ⟨'-', _, rfl, .inl rfl⟩
    | false => exact ⟨d, _, rfl, .inr hd⟩
  cases fuel with
  | zero => simp at hfuel
  | succ fuel => rw [htext, ← hread, hs, readValue_number hc]

/-- One case for each rule of the grammar. The length of a text bounds the fuel that it takes: in a list each item
    takes one unit more than its value, and has a comma or a bracket behind it. -/
theorem Spells.reads {phrase : Phrase} {t : List Char} (h : Spells phrase t) : Reads phrase t := by
  induction h with
  | null =>
    rintro (_ | fuel) k hf -
    · simp at hf
    · exact word?_append "null" .null k
  | yes =>
    rintro (_ | fuel) k hf -
    · simp at hf
    · exact word?_append "true" (.bool true) k
  | no =>
    rintro (_ | fuel) k hf -
    · simp at hf
    · exact word?_append "false" (.bool false) k
  | number hn => exact hn.reads
  | str hs =>
    rintro (_ | fuel) k hf -
    · simp at hf
    · simpa using readValue_str hs fuel k
  | noItems hw =>
    rintro (_ | fuel) k hf -
    · simp at hf
    · rw [List.cons_append, readValue, skipSpace_cons rfl]
      simp [skipSpace_blank hw, skipSpace_cons (c := ']') rfl]
  | @arr vs t _ ih =>
    rintro (_ | fuel) k hf -
    · simp at hf
    · have hread := ih fuel [] k (by simp at hf; omega)
      simpa using readValue_arr hread
  | noEntries hw =>
    rintro (_ | fuel) k hf -
    · simp at hf
    · rw [List.cons_append, readValue, skipSpace_cons rfl]
      simp [skipSpace_blank hw, skipSpace_cons (c := '\x7d') rfl]
  | @obj es t _ ih =>
    rintro (_ | fuel) k hf -
    · simp at hf
    · have hread := ih fuel [] k (by simp at hf; omega)
      simpa using readValue_obj hread
  | @lastItem v a t b ha _ hb ih =>
    rintro (_ | fuel) acc k hf
    · simp at hf
    · have hread := ih fuel (b ++ ']' :: k) (by simp at hf; omega) (stops_blank hb (stops_cons (by decide) k))
      rw [← readValue_blank ha] at hread
      have hrest : skipSpace (b ++ ']' :: k) = ']' :: k := by rw [skipSpace_blank hb, skipSpace_cons rfl]
      simpa using readItems_last acc hread hrest
  | @item v vs a t b u ha _ hb _ ihv ihs =>
    rintro (_ | fuel) acc k hf
    · simp at hf
    · have hread := ihv fuel (b ++ ',' :: (u ++ ']' :: k)) (by simp at hf; omega)
        (stops_blank hb (stops_cons (by decide) _))
      rw [← readValue_blank ha] at hread
      have hrest : skipSpace (b ++ ',' :: (u ++ ']' :: k)) = ',' :: (u ++ ']' :: k) := by
        rw [skipSpace_blank hb, skipSpace_cons rfl]
      have hnext := readItems_next acc hread hrest
      rw [ihs fuel (v :: acc) k (by simp at hf; omega)] at hnext
      simpa using hnext
  | @lastEntry key v n t b hn _ hb ih =>
    rintro (_ | fuel) acc k hf
    · simp at hf
    · have hread := ih fuel (b ++ '\x7d' :: k) (by simp at hf; omega) (stops_blank hb (stops_cons (by decide) k))
      have hrest : skipSpace (b ++ '\x7d' :: k) = '\x7d' :: k := by rw [skipSpace_blank hb, skipSpace_cons rfl]
      simpa using (readEntries_key hn hread acc k).2 hrest
  | @entry key v es n t b u hn _ hb _ ihv ihs =>
    rintro (_ | fuel) acc k hf
    · simp at hf
    · have hread := ihv fuel (b ++ ',' :: (u ++ '\x7d' :: k)) (by simp at hf; omega)
        (stops_blank hb (stops_cons (by decide) _))
      have hrest : skipSpace (b ++ ',' :: (u ++ '\x7d' :: k)) = ',' :: (u ++ '\x7d' :: k) := by
        rw [skipSpace_blank hb, skipSpace_cons rfl]
      have hnext := (readEntries_key hn hread acc _).1 hrest
      rw [ihs fuel ((key, v) :: acc) k (by simp at hf; omega)] at hnext
      simpa using hnext

/-- Every text of the grammar is read as what it means. -/
theorem parse?_of_isText {v : Json} {text : String} (h : IsText v text) : parse? text = some v := by
  obtain ⟨a, t, b, ha, ht, hb, htext⟩ := h
  have hstops : Stops b := by simpa using stops_blank hb (s := []) nofun
  have hread := ht.reads (text.toList.length + 1) b (by rw [htext]; simp; omega) hstops
  have hrest : skipSpace b = [] := by simpa [skipSpace] using skipSpace_blank hb []
  rw [← readValue_blank ha, ← htext] at hread
  simp [parse?, hread, hrest]

theorem IsText.unique {v w : Json} {text : String} (hv : IsText v text) (hw : IsText w text) : v = w := by
  have h := (parse?_of_isText hv).symm.trans (parse?_of_isText hw)
  exact Option.some.inj h

end LayerLint.Json
