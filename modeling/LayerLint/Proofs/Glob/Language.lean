/-
  LayerLint.Proofs.Glob.Language: the language of a glob, and what simple globs mean for the text of a path.

  `Takes` tells which bytes a piece stands for, without saying how a path is cut among the pieces, and trying out all
  the cuts decides it (`mem_rests_iff`): a glob accepts a path if and only if the bytes of the path are in its language
  (`accepts_iff`).

  Globs are about bytes and paths about characters. A character below 128 is one byte, which no other character has in
  its encoding, so a text of such characters stands in a path wherever its bytes stand in those of the path
  (`exists_of_bytesOf_eq_append`). With this three shapes of globs are read as conditions on the path: that it ends with
  a text, that it has a text in it, and that it leads through a directory.
-/

import LayerLint.Glob.Basic
import LayerLint.Path
import LayerLint.Proofs.Text.Split

namespace LayerLint

/-! ## The bytes of a text -/

theorem bytesOf_cons (c : Char) (s : List Char) : bytesOf (c :: s) = String.utf8EncodeChar c ++ bytesOf s := rfl

theorem bytesOf_append (s t : List Char) : bytesOf (s ++ t) = bytesOf s ++ bytesOf t := List.flatMap_append

theorem eq_nil_of_bytesOf {s : List Char} (h : bytesOf s = []) : s = [] := by
  cases s with
  | nil => rfl
  | cons c s => exact absurd (List.append_eq_nil_iff.mp h).1 String.utf8EncodeChar_ne_nil

theorem isAscii_iff_le {c : Char} : Text.isAscii c = true ↔ c.val.toNat ≤ 127 := by
  rw [Text.isAscii, decide_eq_true_iff, Nat.lt_succ_iff, Char.toNat_val]

theorem utf8EncodeChar_of_isAscii {c : Char} (h : Text.isAscii c = true) :
    String.utf8EncodeChar c = [c.val.toUInt8] :=
  String.utf8EncodeChar_eq_singleton (Char.utf8Size_eq_one_iff.mpr (isAscii_iff_le.mp h))

theorem le_toNat_ofNat_mod_add (n : Nat) {mark room : Nat} (hmark : 128 ≤ mark) (hroom : 0 < room)
    (hfit : mark + room ≤ 256) : 128 ≤ (UInt8.ofNat (n % room + mark)).toNat := by
  have hlt : n % room < room := Nat.mod_lt n hroom
  rw [UInt8.toNat_ofNat', Nat.mod_eq_of_lt (by omega)]
  omega

/-- Every byte of a longer encoding is above those of the characters that are one byte. -/
theorem le_of_mem_utf8EncodeChar {c : Char} (hc : ¬Text.isAscii c = true) {b : UInt8}
    (hb : b ∈ String.utf8EncodeChar c) : 128 ≤ b.toNat := by
  have hlarge : ¬c.val.toNat ≤ 127 := fun hle => hc (isAscii_iff_le.mpr hle)
  have hnext (n : Nat) : 128 ≤ (UInt8.ofNat (n % 0x40 + 0x80)).toNat :=
    le_toNat_ofNat_mod_add n (by decide) (by decide) (by decide)
  unfold String.utf8EncodeChar at hb
  -- Two, three or four bytes: the first one has a mark of its own, the others all have the same.
  simp only [if_neg hlarge] at hb
  split at hb
  · simp only [List.mem_cons, List.not_mem_nil, or_false] at hb
    rcases hb with rfl | rfl
    · exact le_toNat_ofNat_mod_add _ (by decide) (by decide) (by decide)
    · exact hnext _
  · split at hb
    · simp only [List.mem_cons, List.not_mem_nil, or_false] at hb
      rcases hb with rfl | rfl | rfl
      · exact le_toNat_ofNat_mod_add _ (by decide) (by decide) (by decide)
      · exact hnext _
      · exact hnext _
    · simp only [List.mem_cons, List.not_mem_nil, or_false] at hb
      rcases hb with rfl | rfl | rfl | rfl
      · exact le_toNat_ofNat_mod_add _ (by decide) (by decide) (by decide)
      · exact hnext _
      · exact hnext _
      · exact hnext _

/-- A character of one byte is the only one with that byte in its encoding. -/
theorem eq_of_mem_utf8EncodeChar {a c : Char} (hc : Text.isAscii c = true) {b : UInt8}
    (hb : String.utf8EncodeChar c = [b]) (h : b ∈ String.utf8EncodeChar a) : a = c := by
  rw [utf8EncodeChar_of_isAscii hc, List.singleton_inj] at hb
  have hsmall := isAscii_iff_le.mp hc
  have hbyte : b.toNat = c.val.toNat := by
    rw [← hb, UInt32.toNat_toUInt8]
    omega
  have ha : Text.isAscii a = true := by
    refine Decidable.byContradiction fun hna => ?_
    have hlarge := le_of_mem_utf8EncodeChar hna h
    omega
  rw [utf8EncodeChar_of_isAscii ha, List.mem_singleton] at h
  have hsmall' := isAscii_iff_le.mp ha
  refine Char.ext (UInt32.toNat_inj.mp ?_)
  rw [← hbyte, h, UInt32.toNat_toUInt8]
  omega

/-- The byte of a character stands in a text only where the character does. -/
theorem exists_of_bytesOf_eq_append_char {c : Char} (hc : Text.isAscii c = true) {s : List Char}
    {x y : Bytes} (h : bytesOf s = x ++ String.utf8EncodeChar c ++ y) :
    ∃ u v, s = u ++ c :: v ∧ bytesOf u = x ∧ bytesOf v = y := by
  obtain ⟨b, hb⟩ : ∃ b, String.utf8EncodeChar c = [b] := ⟨_, utf8EncodeChar_of_isAscii hc⟩
  rw [hb, List.append_assoc, List.singleton_append] at h
  induction s generalizing x with
  | nil => exact absurd h.symm (by simp [bytesOf])
  | cons a s ih =>
    rw [bytesOf_cons] at h
    by_cases hmem : b ∈ String.utf8EncodeChar a
    · obtain rfl := eq_of_mem_utf8EncodeChar hc hb hmem
      rw [hb, List.singleton_append] at h
      cases x with
      | nil => exact ⟨[], s, rfl, rfl, (List.cons.inj h).2⟩
      | cons b' x =>
        obtain ⟨rfl, hs⟩ := List.cons.inj h
        obtain ⟨u, v, rfl, rfl, rfl⟩ := ih hs
        exact ⟨a :: u, v, rfl, by rw [bytesOf_cons, hb]; rfl, rfl⟩
    · obtain ⟨x, rfl⟩ : ∃ x', x = String.utf8EncodeChar a ++ x' := by
        obtain ⟨x', hx, -⟩ | ⟨rest, ha, hs⟩ := List.append_eq_append_iff.mp h
        · exact ⟨x', hx⟩
        · cases rest with
          | nil => exact ⟨[], by rw [ha, List.append_nil, List.append_nil]⟩
          | cons b' rest =>
            obtain ⟨rfl, -⟩ := List.cons.inj hs
            exact absurd (by simp [ha]) hmem
      rw [List.append_assoc] at h
      obtain ⟨u, v, rfl, rfl, rfl⟩ := ih (List.append_cancel_left h)
      exact ⟨a :: u, v, rfl, rfl, rfl⟩

def Ascii (t : List Char) : Prop := ∀ c ∈ t, Text.isAscii c = true

instance (t : List Char) : Decidable (Ascii t) := inferInstanceAs (Decidable (∀ c ∈ t, _))

/-- A text of such characters stands in another one wherever its bytes do. -/
theorem exists_of_bytesOf_eq_append {t : List Char} (ht : Ascii t) (hne : t ≠ []) {s : List Char} {x y : Bytes}
    (h : bytesOf s = x ++ bytesOf t ++ y) : ∃ u v, s = u ++ t ++ v ∧ bytesOf u = x ∧ bytesOf v = y := by
  induction t generalizing s x with
  | nil => exact absurd rfl hne
  | cons c t ih =>
    rw [bytesOf_cons, ← List.append_assoc, List.append_assoc] at h
    obtain ⟨u, v, rfl, rfl, hv⟩ := exists_of_bytesOf_eq_append_char (ht c List.mem_cons_self) h
    cases t with
    | nil => exact ⟨u, v, by simp, rfl, hv⟩
    | cons d t =>
      have htail : Ascii (d :: t) := fun a ha => ht a (List.mem_cons_of_mem c ha)
      obtain ⟨w, v, rfl, hw, rfl⟩ := ih htail (List.cons_ne_nil d t) (x := []) hv
      obtain rfl := eq_nil_of_bytesOf hw
      exact ⟨u, v, by simp, rfl, rfl⟩

/-! ## The directories of a path -/

namespace Text

variable {sep : CharSet}

/-- A piece before the last one stands at the start or behind a separator, and a separator follows. -/
theorem mem_dropLast_split_iff {c : Char} (hsep : ∀ a, sep a = true ↔ a = c) {piece s : List Char}
    (hplain : c ∉ piece) :
    piece ∈ (split sep s).dropLast ↔ piece ++ [c] <+: s ∨ c :: (piece ++ [c]) <:+: s := by
  have hc : sep c = true := (hsep c).mpr rfl
  have hfirst (t : List Char) : piece ∈ (split sep (piece ++ c :: t)).dropLast := by
    obtain ⟨p, ps, ht⟩ := exists_split_eq sep t
    have hsingle : split sep piece = [piece] := by
      refine split_eq_singleton fun a ha => Bool.eq_false_iff.mpr fun hs => hplain ?_
      rwa [← (hsep a).mp hs]
    rw [split_append hc, hsingle, ht, List.singleton_append, List.dropLast_cons_of_ne_nil (List.cons_ne_nil p ps)]
    exact List.mem_cons_self
  constructor
  · intro hm
    generalize hs : split sep s = pieces at hm
    induction pieces generalizing s with
    | nil => cases hm
    | cons p ps ih =>
      cases ps with
      | nil => cases hm
      | cons q ps =>
        obtain ⟨a, ha, t, rfl, ht⟩ := exists_of_split_eq_cons_cons hs
        obtain rfl := (hsep a).mp ha
        rw [List.dropLast_cons_of_ne_nil (List.cons_ne_nil q ps), List.mem_cons] at hm
        rcases hm with rfl | hm
        · exact .inl ⟨t, by simp⟩
        · obtain ⟨v, rfl⟩ | ⟨u, v, rfl⟩ := ih ht hm
          · exact .inr ⟨p, v, by simp⟩
          · exact .inr ⟨p ++ a :: u, v, by simp⟩
  · rintro (⟨v, rfl⟩ | ⟨u, v, rfl⟩)
    · simpa using hfirst v
    · obtain ⟨p, ps, hv⟩ := exists_split_eq sep (piece ++ c :: v)
      have hrest := hfirst v
      have hassoc : u ++ c :: (piece ++ [c]) ++ v = u ++ c :: (piece ++ c :: v) := by simp
      rw [hv] at hrest
      rw [hassoc, split_append hc, hv, List.dropLast_append_of_ne_nil (List.cons_ne_nil p ps)]
      exact List.mem_append_right _ hrest

end Text

namespace Glob

/-! ## The bytes that pieces stand for -/

mutual

def Piece.Takes : Piece → Bytes → Prop
  | .literal c, w => w = String.utf8EncodeChar c
  | .any, w => ∃ b, w = [b]
  | .star, _ => True
  | .leadingDirs, w => w = [] ∨ ∃ v, w = v ++ [slash]
  | .trailingDirs, w => ∃ v, w = slash :: v
  | .middleDirs, w => w = [slash] ∨ ∃ v, w = slash :: (v ++ [slash])
  | .range negated ranges, w => ∃ b, w = [b] ∧ inRanges ranges b ≠ negated
  | .group [], w => w = []
  | .group (b :: bs), w => Takes b w ∨ TakesAny bs w

/-- The bytes that a row of pieces stands for: what the first stands for, and behind it what the others do. -/
def Takes : List Piece → Bytes → Prop
  | [], w => w = []
  | p :: ps, w => ∃ u v, w = u ++ v ∧ p.Takes u ∧ Takes ps v

def TakesAny : List (List Piece) → Bytes → Prop
  | [], _ => False
  | b :: bs, w => Takes b w ∨ TakesAny bs w

end

/-! ## Trying out the cuts -/

theorem mem_tails_iff {s t : Bytes} : t ∈ tails s ↔ ∃ w, s = w ++ t := by
  induction s with
  | nil =>
    rw [tails, List.mem_singleton]
    constructor
    · rintro rfl
      exact ⟨[], rfl⟩
    · rintro ⟨w, h⟩
      exact (List.append_eq_nil_iff.mp h.symm).2
  | cons b s ih =>
    rw [tails, List.mem_cons, ih]
    constructor
    · rintro (rfl | ⟨w, rfl⟩)
      · exact ⟨[], rfl⟩
      · exact ⟨b :: w, rfl⟩
    · rintro ⟨w, h⟩
      obtain ⟨rfl, rfl⟩ | ⟨w, rfl, rfl⟩ := List.cons_eq_append_iff.mp h
      · exact .inl rfl
      · exact .inr ⟨w, rfl⟩

theorem mem_dirTails_iff {s t : Bytes} : t ∈ dirTails s ↔ ∃ w, s = w ++ slash :: t := by
  induction s with
  | nil => simp [dirTails]
  | cons b s ih =>
    have hcons : (∃ w, b :: s = w ++ slash :: t) ↔ (b = slash ∧ s = t) ∨ ∃ w, s = w ++ slash :: t := by
      constructor
      · rintro ⟨w, h⟩
        obtain ⟨-, h⟩ | ⟨w, rfl, rfl⟩ := List.cons_eq_append_iff.mp h
        · obtain ⟨rfl, rfl⟩ := List.cons.inj h
          exact .inl ⟨rfl, rfl⟩
        · exact .inr ⟨w, rfl⟩
      · rintro (⟨rfl, rfl⟩ | ⟨w, rfl⟩)
        · exact ⟨[], rfl⟩
        · exact ⟨b :: w, rfl⟩
    rw [dirTails, hcons, ← ih]
    split
    · rename_i hb
      simp [hb, eq_comm]
    · rename_i hb
      simp [hb]

theorem mem_afterByte_iff {p : UInt8 → Bool} {s t : Bytes} :
    t ∈ afterByte p s ↔ ∃ w, s = w ++ t ∧ ∃ b, w = [b] ∧ p b = true := by
  cases s with
  | nil => simp [afterByte]
  | cons b s =>
    rw [afterByte]
    split
    · rename_i hb
      rw [List.mem_singleton]
      constructor
      · rintro rfl
        exact ⟨[b], rfl, b, rfl, hb⟩
      · rintro ⟨_, h, b', rfl, -⟩
        exact (List.cons.inj h).2.symm
    · rename_i hb
      simp only [List.not_mem_nil, false_iff]
      rintro ⟨_, h, b', rfl, hb'⟩
      obtain ⟨rfl, -⟩ := List.cons.inj h
      exact hb hb'

theorem mem_afterSlash_iff {s t : Bytes} : t ∈ afterSlash s ↔ s = slash :: t := by
  cases s with
  | nil => simp [afterSlash]
  | cons b s =>
    rw [afterSlash]
    split
    · rename_i hb
      simp [hb, eq_comm]
    · rename_i hb
      simp [hb]

theorem mem_afterBytes_iff {lead s t : Bytes} : t ∈ afterBytes lead s ↔ s = lead ++ t := by
  rw [afterBytes]
  split
  · rename_i h
    obtain ⟨rest, rfl⟩ := List.isPrefixOf_iff_prefix.mp h
    simp [eq_comm]
  · rename_i h
    simp only [List.not_mem_nil, false_iff]
    rintro rfl
    exact h (List.isPrefixOf_iff_prefix.mpr (List.prefix_append lead t))

mutual

/-- What may be left after a piece is what follows bytes that it stands for. -/
theorem mem_rests_iff (p : Piece) (s t : Bytes) : t ∈ rests p s ↔ ∃ w, s = w ++ t ∧ p.Takes w := by
  cases p with
  | literal c => simp [rests, Piece.Takes, mem_afterBytes_iff]
  | any => simp [rests, Piece.Takes, mem_afterByte_iff]
  | star => simp [rests, Piece.Takes, mem_tails_iff]
  | leadingDirs =>
    simp only [rests, Piece.Takes, List.mem_eraseDups, List.mem_cons, mem_dirTails_iff]
    constructor
    · rintro (rfl | ⟨w, rfl⟩)
      · exact ⟨[], rfl, .inl rfl⟩
      · exact ⟨w ++ [slash], by simp, .inr ⟨w, rfl⟩⟩
    · rintro ⟨w, rfl, rfl | ⟨v, rfl⟩⟩
      · exact .inl rfl
      · exact .inr ⟨v, by simp⟩
  | trailingDirs =>
    simp only [rests, Piece.Takes, List.mem_flatMap, mem_afterSlash_iff, mem_tails_iff]
    constructor
    · rintro ⟨_, rfl, w, rfl⟩
      exact ⟨slash :: w, rfl, w, rfl⟩
    · rintro ⟨_, rfl, v, rfl⟩
      exact ⟨v ++ t, rfl, v, rfl⟩
  | middleDirs =>
    simp only [rests, Piece.Takes, List.mem_eraseDups, List.mem_append, List.mem_flatMap, mem_afterSlash_iff,
      mem_dirTails_iff]
    constructor
    · rintro (rfl | ⟨_, rfl, w, rfl⟩)
      · exact ⟨[slash], rfl, .inl rfl⟩
      · exact ⟨slash :: (w ++ [slash]), by simp, .inr ⟨w, rfl⟩⟩
    · rintro ⟨_, rfl, rfl | ⟨v, rfl⟩⟩
      · exact .inl rfl
      · exact .inr ⟨v ++ slash :: t, by simp, v, rfl⟩
  | range negated ranges => simp [rests, Piece.Takes, mem_afterByte_iff]
  | group branches =>
    cases branches with
    | nil => simp [rests, Piece.Takes, eq_comm]
    | cons b bs =>
      simp only [rests, Piece.Takes, List.mem_eraseDups, List.mem_append, mem_restsAll_iff b, mem_restsAny_iff bs,
        List.mem_singleton, exists_eq_left, and_or_left, exists_or]

theorem mem_restsAll_iff (ps : List Piece) (starts : List Bytes) (t : Bytes) :
    t ∈ restsAll ps starts ↔ ∃ s ∈ starts, ∃ w, s = w ++ t ∧ Takes ps w := by
  cases ps with
  | nil => simp [restsAll, Takes]
  | cons p ps =>
    simp only [restsAll, Takes, mem_restsAll_iff ps, List.mem_eraseDups, List.mem_flatMap, mem_rests_iff p]
    constructor
    · rintro ⟨_, ⟨s, hs, u, rfl, hu⟩, v, rfl, hv⟩
      exact ⟨_, hs, u ++ v, by simp, u, v, rfl, hu, hv⟩
    · rintro ⟨_, hs, _, rfl, u, v, rfl, hu, hv⟩
      exact ⟨v ++ t, ⟨_, hs, u, by simp, hu⟩, v, rfl, hv⟩

theorem mem_restsAny_iff (bs : List (List Piece)) (s t : Bytes) :
    t ∈ restsAny bs s ↔ ∃ w, s = w ++ t ∧ TakesAny bs w := by
  cases bs with
  | nil => simp [restsAny, TakesAny]
  | cons b bs =>
    simp only [restsAny, TakesAny, List.mem_append, mem_restsAll_iff b, mem_restsAny_iff bs, List.mem_singleton,
      exists_eq_left, and_or_left, exists_or]

end

theorem accepts_iff {g : Glob} {path : String} :
    g.accepts path = true ↔ g = [.leadingDirs] ∨ Takes g (bytesOf path.toList) := by
  have hrun : (restsAll g [bytesOf path.toList]).contains [] = true ↔ Takes g (bytesOf path.toList) := by
    simp [mem_restsAll_iff]
  unfold accepts
  split
  · simp
  · rename_i hg
    rw [hrun, or_iff_right hg]

/-! ## Rows of pieces -/

theorem takes_append {ps qs : List Piece} {w : Bytes} :
    Takes (ps ++ qs) w ↔ ∃ u v, w = u ++ v ∧ Takes ps u ∧ Takes qs v := by
  induction ps generalizing w with
  | nil =>
    simp only [List.nil_append, Takes]
    constructor
    · intro h
      exact ⟨[], w, rfl, rfl, h⟩
    · rintro ⟨_, v, rfl, rfl, h⟩
      exact h
  | cons p ps ih =>
    simp only [List.cons_append, Takes, ih]
    constructor
    · rintro ⟨u, _, rfl, hu, v, x, rfl, hv, hx⟩
      exact ⟨u ++ v, x, by simp, ⟨u, v, rfl, hu, hv⟩, hx⟩
    · rintro ⟨_, x, rfl, ⟨u, v, rfl, hu, hv⟩, hx⟩
      exact ⟨u, v ++ x, by simp, hu, v, x, rfl, hv, hx⟩

theorem takes_literals {s : List Char} {w : Bytes} : Takes (s.map .literal) w ↔ w = bytesOf s := by
  induction s generalizing w with
  | nil => rfl
  | cons c s ih => simp [Takes, Piece.Takes, ih, bytesOf_cons]

/-- Directories and an asterisk behind them take any bytes. -/
theorem takes_leadingDirs_star {ps : List Piece} {w : Bytes} :
    Takes (.leadingDirs :: .star :: ps) w ↔ ∃ u v, w = u ++ v ∧ Takes ps v := by
  simp only [Takes, Piece.Takes]
  constructor
  · rintro ⟨d, _, rfl, -, u, v, rfl, -, hv⟩
    exact ⟨d ++ u, v, by simp, hv⟩
  · rintro ⟨u, v, rfl, hv⟩
    exact ⟨[], u ++ v, rfl, .inl rfl, u, v, rfl, trivial, hv⟩

/-! ## Three shapes of globs -/

def ending (text : String) : Glob := .leadingDirs :: .star :: text.toList.map .literal

def having (text : String) : Glob := .leadingDirs :: .star :: (text.toList.map .literal ++ [.star])

def through (name : String) : Glob := .leadingDirs :: (name.toList.map .literal ++ [.trailingDirs])

variable {path text name : String}

theorem accepts_ending_iff (hascii : Ascii text.toList) (hne : text.toList ≠ []) :
    (ending text).accepts path = true ↔ text.toList <:+ path.toList := by
  rw [accepts_iff, or_iff_right (by simp [ending]), ending, takes_leadingDirs_star]
  simp only [takes_literals]
  constructor
  · rintro ⟨x, _, h, rfl⟩
    rw [← List.append_nil (x ++ _)] at h
    obtain ⟨u, v, hpath, -, hv⟩ := exists_of_bytesOf_eq_append hascii hne h
    obtain rfl := eq_nil_of_bytesOf hv
    exact ⟨u, by rw [hpath, List.append_nil]⟩
  · rintro ⟨u, hpath⟩
    exact ⟨bytesOf u, _, by rw [← hpath, bytesOf_append], rfl⟩

theorem accepts_having_iff (hascii : Ascii text.toList) (hne : text.toList ≠ []) :
    (having text).accepts path = true ↔ text.toList <:+: path.toList := by
  rw [accepts_iff, or_iff_right (by simp [having]), having, takes_leadingDirs_star]
  simp only [takes_append, takes_literals, Takes, Piece.Takes]
  constructor
  · rintro ⟨x, _, h, _, y, rfl, rfl, -⟩
    rw [← List.append_assoc] at h
    obtain ⟨u, v, hpath, -, -⟩ := exists_of_bytesOf_eq_append hascii hne h
    exact ⟨u, v, hpath.symm⟩
  · rintro ⟨u, v, hpath⟩
    refine ⟨bytesOf u, bytesOf text.toList ++ bytesOf v, ?_, _, bytesOf v, rfl, rfl, bytesOf v, [], ?_, trivial, rfl⟩
    · rw [← hpath, bytesOf_append, bytesOf_append, List.append_assoc]
    · rw [List.append_nil]

theorem takes_through_iff {w : Bytes} :
    Takes (through name) w ↔ ∃ dirs rest, w = dirs ++ bytesOf (name.toList ++ ['/']) ++ rest ∧
      (dirs = [] ∨ ∃ above, dirs = above ++ [slash]) := by
  have hname : bytesOf (name.toList ++ ['/']) = bytesOf name.toList ++ [slash] := bytesOf_append _ _
  rw [through, hname]
  simp only [Takes, takes_append, takes_literals, Piece.Takes]
  constructor
  · rintro ⟨dirs, _, rfl, hdirs, _, _, rfl, rfl, _, _, rfl, ⟨rest, rfl⟩, rfl⟩
    exact ⟨dirs, rest, by simp, hdirs⟩
  · rintro ⟨dirs, rest, rfl, hdirs⟩
    exact ⟨dirs, _, by simp, hdirs, _, slash :: rest, rfl, rfl, slash :: rest, [], by simp, ⟨rest, rfl⟩, rfl⟩

theorem accepts_through_iff (hascii : Ascii name.toList) :
    (through name).accepts path = true ↔
      name.toList ++ ['/'] <+: path.toList ∨ '/' :: (name.toList ++ ['/']) <:+: path.toList := by
  have hend : Ascii (name.toList ++ ['/']) := by
    intro c hc
    obtain hc | hc := List.mem_append.mp hc
    · exact hascii c hc
    · obtain rfl := List.mem_singleton.mp hc
      decide
  have hboth : Ascii ('/' :: (name.toList ++ ['/'])) := by
    intro c hc
    obtain rfl | hc := List.mem_cons.mp hc
    · decide
    · exact hend c hc
  have hslash : bytesOf ('/' :: (name.toList ++ ['/'])) = [slash] ++ bytesOf (name.toList ++ ['/']) := rfl
  rw [accepts_iff, or_iff_right (by simp [through]), takes_through_iff]
  constructor
  · rintro ⟨dirs, rest, h, rfl | ⟨above, rfl⟩⟩
    · obtain ⟨u, v, hpath, hu, -⟩ := exists_of_bytesOf_eq_append hend (by simp) h
      obtain rfl := eq_nil_of_bytesOf hu
      exact .inl ⟨v, by rw [hpath, List.nil_append]⟩
    · rw [List.append_assoc above, ← hslash] at h
      obtain ⟨u, v, hpath, -, -⟩ := exists_of_bytesOf_eq_append hboth (by simp) h
      exact .inr ⟨u, v, hpath.symm⟩
  · rintro (⟨v, hpath⟩ | ⟨u, v, hpath⟩)
    · exact ⟨[], bytesOf v, by rw [← hpath, bytesOf_append, List.nil_append], .inl rfl⟩
    · refine ⟨bytesOf u ++ [slash], bytesOf v, ?_, .inr ⟨bytesOf u, rfl⟩⟩
      rw [← hpath, bytesOf_append, bytesOf_append, hslash, List.append_assoc (bytesOf u) [slash]]

/-- A name without a slash is that of a directory on the path if it is a segment but not the last one. -/
theorem accepts_through_iff_mem (hascii : Ascii name.toList) (hslash : '/' ∉ name.toList) :
    (through name).accepts path = true ↔ name.toList ∈ (Path.segments path).dropLast := by
  have hsep (a : Char) : Path.isSlash a = true ↔ a = '/' := beq_iff_eq
  rw [accepts_through_iff hascii, Path.segments, Text.mem_dropLast_split_iff hsep hslash]

end Glob

end LayerLint
