/-
  LayerLint.Proofs.Pattern.Language: the language of a pattern, and that a search decides it.

  `Matches` tells which words a pattern means, without saying how they are looked for: a sequence means a word of the one
  pattern and behind it a word of the other, a run any word that is made of its set and long enough. Borders depend on
  what stands on both sides, so a word is taken with its context. Trying out the ends of a match finds exactly the words
  of the language (`mem_ends_iff`). So a search finds something in a text if and only if some part of the text is in the
  language (`find?_eq_none_iff`), and then it finds the leftmost place where such a part starts (`position_find?_iff`).
-/

import LayerLint.Proofs.Pattern.Borders
import LayerLint.Proofs.Pattern.Lines
import Mathlib.Data.List.Forall2

namespace LayerLint.Pattern

open Text (CharSet)

def Edge (before after : List Char) : Prop := before.getLast?.any Text.isWord ≠ after.head?.any Text.isWord

/-- The words that a pattern means, each with what stands before it and after it. -/
def Matches : Pattern → (before word after : List Char) → Prop
  | empty, _, word, _ => word = []
  | one set, _, word, _ => ∃ c, word = [c] ∧ set c = true
  | run set least most _, _, word, _ => (∀ c ∈ word, set c = true) ∧ least ≤ word.length ∧ ∀ n ∈ most, word.length ≤ n
  | seq p q, before, word, after =>
    ∃ u v, word = u ++ v ∧ p.Matches before u (v ++ after) ∧ q.Matches (before ++ u) v after
  | either p q, before, word, after => p.Matches before word after ∨ q.Matches before word after
  | wordEdge, before, word, after => word = [] ∧ Edge before after
  | lineStart, before, word, _ => word = [] ∧ before.getLast?.all (· == '\n') = true
  | lineEnd, _, word, after => word = [] ∧ after.head?.all (· == '\n') = true

variable {p q : Pattern} {set : CharSet} {s t : Spot} {before word after : List Char}

/-! ## Runs of limited length -/

def Runs (set : CharSet) (room : Option Nat) (s t : Spot) : Prop :=
  ∃ w, s.Reaches w t ∧ (∀ c ∈ w, set c = true) ∧ ∀ n ∈ room, w.length ≤ n

theorem runs_nil {room : Option Nat} : Runs set room ⟨before, []⟩ t ↔ t = ⟨before, []⟩ := by
  constructor
  · rintro ⟨w, hw, -, -⟩
    obtain rfl : w = [] := (List.append_eq_nil_iff.mp hw.2.symm).1
    exact Spot.reaches_nil.mp hw
  · rintro rfl
    exact ⟨[], .refl _, by simp, by simp⟩

theorem runs_zero : Runs set (some 0) s t ↔ t = s := by
  constructor
  · rintro ⟨w, hw, -, hroom⟩
    obtain rfl : w = [] := List.eq_nil_of_length_eq_zero (Nat.le_zero.mp (hroom 0 rfl))
    exact Spot.reaches_nil.mp hw
  · rintro rfl
    exact ⟨[], .refl _, by simp, by simp⟩

theorem runs_cons {room : Option Nat} (hroom : room ≠ some 0) {c : Char} {rest : List Char} :
    Runs set room ⟨before, c :: rest⟩ t ↔
      (set c = true ∧ Runs set (room.map (· - 1)) ⟨c :: before, rest⟩ t) ∨ t = ⟨before, c :: rest⟩ := by
  constructor
  · rintro ⟨w, hw, hset, hmost⟩
    cases w with
    | nil => exact .inr (Spot.reaches_nil.mp hw)
    | cons a w =>
      obtain ⟨u, hu, hw⟩ := Spot.reaches_append.mp (List.singleton_append ▸ hw : Spot.Reaches _ ([a] ++ w) t)
      obtain rfl : c = a := (List.cons.inj hu.2).1
      obtain rfl : u = ⟨c :: before, rest⟩ := hu.unique ⟨rfl, rfl⟩
      refine .inl ⟨hset c List.mem_cons_self, w, hw, fun b hb => hset b (List.mem_cons_of_mem c hb), ?_⟩
      intro n hn
      obtain ⟨m, hm, rfl⟩ := Option.map_eq_some_iff.mp hn
      have hlen := hmost m hm
      rw [List.length_cons] at hlen
      omega
  · rintro (⟨hc, w, hw, hset, hmost⟩ | rfl)
    · refine ⟨c :: w, hw.cons, ?_, ?_⟩
      · intro b hb
        rcases List.mem_cons.mp hb with rfl | hb
        · exact hc
        · exact hset b hb
      · intro n hn
        have hpos : n ≠ 0 := fun h => hroom (h ▸ hn)
        have hlen := hmost (n - 1) (by rw [Option.mem_def.mp hn]; rfl)
        rw [List.length_cons]
        omega
    · exact ⟨[], .refl _, by simp, by simp⟩

theorem mem_runSpots_iff {room : Option Nat} : t ∈ runSpots set before [] room after ↔ Runs set room ⟨before, after⟩ t := by
  induction after generalizing before room with
  | nil => rw [runSpots_nil, List.mem_singleton, runs_nil]
  | cons c rest ih =>
    by_cases hroom : room = some 0
    · subst hroom
      rw [runSpots_zero, List.mem_singleton, runs_zero]
    · rw [runSpots_cons hroom, runs_cons hroom, List.mem_append, List.mem_singleton, ← ih]
      by_cases hc : set c = true
      · rw [if_pos hc]
        simp [hc]
      · rw [if_neg hc]
        simp [hc]

theorem mem_runEnds_iff {least : Nat} {most : Option Nat} : t ∈ runEnds set least most s ↔
    ∃ w, s.Reaches w t ∧ (∀ c ∈ w, set c = true) ∧ least ≤ w.length ∧ ∀ n ∈ most, w.length ≤ n := by
  rw [runEnds, List.mem_filter, mem_runSpots_iff]
  constructor
  · rintro ⟨⟨w, hw, hset, hmost⟩, hfar⟩
    have hposition : t.position = s.position + w.length := hw.position_eq
    have hfar := of_decide_eq_true hfar
    exact ⟨w, hw, hset, by omega, hmost⟩
  · rintro ⟨w, hw, hset, hleast, hmost⟩
    refine ⟨⟨w, hw, hset, hmost⟩, decide_eq_true ?_⟩
    rw [hw.position_eq]
    omega

/-! ## Ends of matches -/

theorem atWordEdge_iff : s.atWordEdge = true ↔ Edge s.before.reverse s.after := by
  rw [Spot.atWordEdge, bne_iff_ne, Edge, List.getLast?_reverse]

theorem atLineEnd_eq (s : Spot) : s.atLineEnd = s.after.head?.all (· == '\n') := by
  obtain ⟨before, after⟩ := s
  cases after with
  | nil => rfl
  | cons c rest => rfl

/-- A pattern that only looks around means empty words. -/
theorem stays_iff {P : List Char → Prop} : (t = s ∧ P s.after) ↔ ∃ w, s.Reaches w t ∧ w = [] ∧ P t.after := by
  constructor
  · rintro ⟨rfl, hP⟩
    exact ⟨[], .refl t, rfl, hP⟩
  · rintro ⟨w, hw, rfl, hP⟩
    obtain rfl := Spot.reaches_nil.mp hw
    exact ⟨rfl, hP⟩

/-- The ends that are tried out are the ends of the words that the pattern means. -/
theorem mem_ends_iff : t ∈ p.ends s ↔ ∃ w, s.Reaches w t ∧ p.Matches s.before.reverse w t.after := by
  induction p generalizing s t with
  | empty =>
    constructor
    · intro h
      exact ⟨[], Spot.reaches_nil.mpr (List.mem_singleton.mp h), rfl⟩
    · rintro ⟨w, hw, rfl⟩
      exact List.mem_singleton.mpr (Spot.reaches_nil.mp hw)
  | one set =>
    rw [mem_ends_one]
    constructor
    · rintro ⟨c, hc, hreach⟩
      exact ⟨[c], hreach, c, rfl, hc⟩
    · rintro ⟨w, hreach, c, rfl, hc⟩
      exact ⟨c, hc, hreach⟩
  | run set least most appetite =>
    cases appetite with
    | greedy => exact mem_runEnds_iff
    | lazy => exact List.mem_reverse.trans mem_runEnds_iff
  | seq p q ihp ihq =>
    have hpast : ∀ {u : Spot} {v : List Char}, s.Reaches v u → u.before.reverse = s.before.reverse ++ v := by
      intro u v hv
      rw [hv.1, List.reverse_append, List.reverse_reverse]
    constructor
    · intro h
      obtain ⟨u, hu, ht⟩ := List.mem_flatMap.mp h
      obtain ⟨v, hv, hp⟩ := ihp.mp hu
      obtain ⟨w, hw, hq⟩ := ihq.mp ht
      rw [hpast hv] at hq
      rw [hw.2] at hp
      exact ⟨v ++ w, hv.trans hw, v, w, rfl, hp, hq⟩
    · rintro ⟨x, hx, v, w, rfl, hp, hq⟩
      obtain ⟨u, hv, hw⟩ := Spot.reaches_append.mp hx
      rw [← hw.2] at hp
      rw [← hpast hv] at hq
      exact List.mem_flatMap.mpr ⟨u, ihp.mpr ⟨v, hv, hp⟩, ihq.mpr ⟨w, hw, hq⟩⟩
  | either p q ihp ihq =>
    rw [mem_ends_either, ihp, ihq, ← exists_or]
    exact exists_congr fun w => and_or_left.symm
  | wordEdge =>
    rw [mem_ends_wordEdge, atWordEdge_iff]
    exact stays_iff (P := Edge s.before.reverse)
  | lineStart =>
    rw [mem_ends_lineStart, Spot.atLineStart_eq, ← List.getLast?_reverse]
    exact stays_iff (P := fun _ => s.before.reverse.getLast?.all (· == '\n') = true)
  | lineEnd =>
    rw [mem_ends_lineEnd, atLineEnd_eq]
    exact stays_iff (P := fun after => after.head?.all (· == '\n') = true)

/-! ## Searching -/

def OccursAt (p : Pattern) (text : List Char) (n : Nat) : Prop :=
  ∃ before word after, text = before ++ word ++ after ∧ before.length = n ∧ p.Matches before word after

theorem OccursAt.le_length {text : List Char} {n : Nat} (h : p.OccursAt text n) : n ≤ text.length := by
  obtain ⟨before, word, after, rfl, rfl, -⟩ := h
  rw [List.append_assoc, List.length_append]
  exact Nat.le_add_right _ _

theorem matchAt?_isSome_iff : (p.matchAt? s).isSome = true ↔ p.OccursAt s.whole s.position := by
  rw [matchAt?, List.isSome_head?]
  constructor
  · intro h
    obtain ⟨t, ht⟩ := List.exists_mem_of_ne_nil _ h
    obtain ⟨w, hw, hp⟩ := mem_ends_iff.mp ht
    refine ⟨_, w, t.after, ?_, List.length_reverse, hp⟩
    rw [Spot.whole, hw.2, List.append_assoc]
  · rintro ⟨before, word, after, htext, hlen, hp⟩
    obtain ⟨hbefore, hafter⟩ := List.append_inj (htext.trans (List.append_assoc ..)) (by rw [List.length_reverse, hlen]; rfl)
    subst hbefore
    have hmem : (⟨word.reverse ++ s.before, after⟩ : Spot) ∈ p.ends s := mem_ends_iff.mpr ⟨word, ⟨rfl, hafter⟩, hp⟩
    exact List.ne_nil_of_mem hmem

theorem occursAt_of_findFrom? (h : p.findFrom? before after = some s) :
    p.OccursAt (before.reverse ++ after) s.position := by
  have hhere : ∀ {before after : List Char}, (p.matchAt? ⟨before, after⟩).isSome = true →
      some (⟨before, after⟩ : Spot) = some s → p.OccursAt (before.reverse ++ after) s.position := by
    intro before after hmatch hs
    cases hs
    exact matchAt?_isSome_iff.mp hmatch
  induction after generalizing before with
  | nil =>
    rw [findFrom?] at h
    split at h
    · exact hhere ‹_› h
    · cases h
  | cons c rest ih =>
    rw [findFrom?] at h
    split at h
    · exact hhere ‹_› h
    · have hrest := ih h
      rwa [List.reverse_cons, List.append_assoc] at hrest

/-- A search misses no place, and stops at the first. -/
theorem findFrom?_of_occursAt {n : Nat} (hn : before.length ≤ n) (h : p.OccursAt (before.reverse ++ after) n) :
    ∃ s, p.findFrom? before after = some s ∧ s.position ≤ n := by
  have hhere : ∀ {before after : List Char}, p.OccursAt (before.reverse ++ after) before.length →
      (p.matchAt? ⟨before, after⟩).isSome = true := fun h => matchAt?_isSome_iff.mpr h
  induction after generalizing before with
  | nil =>
    have hlen := h.le_length
    rw [List.append_nil, List.length_reverse] at hlen
    obtain rfl : before.length = n := Nat.le_antisymm hn hlen
    exact ⟨⟨before, []⟩, by rw [findFrom?, if_pos (hhere h)], Nat.le_refl _⟩
  | cons c rest ih =>
    rw [findFrom?]
    by_cases hmatch : (p.matchAt? ⟨before, c :: rest⟩).isSome = true
    · rw [if_pos hmatch]
      exact ⟨_, rfl, hn⟩
    · rw [if_neg hmatch]
      have hne : before.length ≠ n := by
        rintro rfl
        exact hmatch (hhere h)
      refine ih (Nat.lt_of_le_of_ne hn hne) ?_
      rwa [List.reverse_cons, List.append_assoc]

theorem find?_of_occursAt {text : List Char} {n : Nat} (h : p.OccursAt text n) :
    ∃ s, p.find? text = some s ∧ s.position ≤ n := findFrom?_of_occursAt (Nat.zero_le n) h

theorem find?_eq_none_iff {text : List Char} : p.find? text = none ↔ ∀ n, ¬ p.OccursAt text n := by
  constructor
  · intro hnone n h
    obtain ⟨s, hs, -⟩ := find?_of_occursAt h
    cases hnone.symm.trans hs
  · intro h
    cases hfind : p.find? text with
    | none => rfl
    | some s => exact absurd (occursAt_of_findFrom? hfind) (h s.position)

/-- What is found is the leftmost place where a word of the pattern starts. -/
theorem position_find?_iff {text : List Char} {n : Nat} :
    (p.find? text).map Spot.position = some n ↔ p.OccursAt text n ∧ ∀ m, p.OccursAt text m → n ≤ m := by
  constructor
  · intro h
    obtain ⟨s, hs, rfl⟩ := Option.map_eq_some_iff.mp h
    refine ⟨occursAt_of_findFrom? hs, fun m hm => ?_⟩
    obtain ⟨t, ht, hle⟩ := find?_of_occursAt hm
    cases hs.symm.trans ht
    exact hle
  · rintro ⟨hn, hleast⟩
    obtain ⟨s, hs, hle⟩ := find?_of_occursAt hn
    rw [hs, Option.map_some, Nat.le_antisymm hle (hleast s.position (occursAt_of_findFrom? hs))]

/-! ## Building patterns -/

/-- The pattern means these words, whatever stands around them. -/
def Means (p : Pattern) (words : List Char → Prop) : Prop := ∀ before word after, p.Matches before word after ↔ words word

theorem matches_inOrder_cons {ps : List Pattern} : (inOrder (p :: ps)).Matches before word after ↔
    ∃ u v, word = u ++ v ∧ p.Matches before u (v ++ after) ∧ (inOrder ps).Matches (before ++ u) v after := by
  cases ps with
  | cons q qs => rfl
  | nil =>
    constructor
    · intro h
      exact ⟨word, [], (List.append_nil word).symm, h, rfl⟩
    · rintro ⟨u, v, rfl, h, rfl⟩
      rwa [List.append_nil]

theorem matches_inOrder_append {ps qs : List Pattern} : (inOrder (ps ++ qs)).Matches before word after ↔
    ∃ u v, word = u ++ v ∧ (inOrder ps).Matches before u (v ++ after) ∧ (inOrder qs).Matches (before ++ u) v after := by
  induction ps generalizing before word with
  | nil =>
    constructor
    · intro h
      exact ⟨[], word, rfl, rfl, by rwa [List.append_nil]⟩
    · rintro ⟨u, v, rfl, rfl, h⟩
      rwa [List.append_nil] at h
  | cons p ps ih =>
    simp only [List.cons_append, matches_inOrder_cons, ih]
    constructor
    · rintro ⟨u, x, rfl, hp, v, w, rfl, hps, hqs⟩
      refine ⟨u ++ v, w, (List.append_assoc ..).symm, ⟨u, v, rfl, ?_, hps⟩, ?_⟩
      · rwa [List.append_assoc] at hp
      · rwa [List.append_assoc] at hqs
    · rintro ⟨x, w, rfl, ⟨u, v, rfl, hp, hps⟩, hqs⟩
      refine ⟨u, v ++ w, List.append_assoc .., ?_, v, w, rfl, hps, ?_⟩
      · rwa [List.append_assoc]
      · rwa [List.append_assoc]

theorem matches_oneOf {ps : List Pattern} :
    (oneOf p ps).Matches before word after ↔ ∃ q ∈ p :: ps, q.Matches before word after := by
  induction ps generalizing p with
  | nil => simp [oneOf]
  | cons q qs ih =>
    have hcons : (∃ r ∈ p :: q :: qs, r.Matches before word after) ↔
        p.Matches before word after ∨ ∃ r ∈ q :: qs, r.Matches before word after := by simp
    rw [oneOf, hcons, ← ih]
    rfl

variable {L M : List Char → Prop}

theorem Means.congr (hp : p.Means L) (h : ∀ word, L word ↔ M word) : p.Means M :=
  fun before word after => (hp before word after).trans (h word)

theorem Means.inOrder_cons {ps : List Pattern} (hp : p.Means L) (hps : (inOrder ps).Means M) :
    (inOrder (p :: ps)).Means fun word => ∃ u v, word = u ++ v ∧ L u ∧ M v := by
  intro before word after
  rw [matches_inOrder_cons]
  exact exists_congr fun u => exists_congr fun v => and_congr_right fun _ => and_congr (hp ..) (hps ..)

theorem Means.inOrder_pair (hp : p.Means L) (hq : q.Means M) :
    (inOrder [p, q]).Means fun word => ∃ u v, word = u ++ v ∧ L u ∧ M v := hp.inOrder_cons (show (inOrder [q]).Means M from hq)

theorem Means.optional (hp : p.Means L) : (optional p).Means fun word => L word ∨ word = [] :=
  fun before word after => or_congr_left (hp before word after)

theorem means_oneOf {α : Type} {f : α → Pattern} {words : α → List Char → Prop} (hf : ∀ a, (f a).Means (words a)) (a : α)
    (l : List α) : (oneOf (f a) (l.map f)).Means fun word => ∃ b ∈ a :: l, words b word := by
  intro before word after
  rw [matches_oneOf, ← List.map_cons]
  constructor
  · rintro ⟨_, hmem, h⟩
    obtain ⟨b, hb, rfl⟩ := List.mem_map.mp hmem
    exact ⟨b, hb, (hf b ..).mp h⟩
  · rintro ⟨b, hb, h⟩
    exact ⟨f b, List.mem_map_of_mem hb, (hf b ..).mpr h⟩

theorem means_one (set : CharSet) : (one set).Means fun word => ∃ c, word = [c] ∧ set c = true := fun _ _ _ => Iff.rfl

theorem means_atLeast (n : Nat) (set : CharSet) :
    (atLeast n set).Means fun word => (∀ c ∈ word, set c = true) ∧ n ≤ word.length := by
  intro before word after
  simp [atLeast, Matches]

theorem means_zeroOrMore (set : CharSet) : (zeroOrMore set).Means fun word => ∀ c ∈ word, set c = true := by
  intro before word after
  simp [zeroOrMore, Matches]

theorem means_exactly (n : Nat) (set : CharSet) :
    (exactly n set).Means fun word => (∀ c ∈ word, set c = true) ∧ word.length = n := by
  intro before word after
  refine and_congr_right fun _ => ?_
  constructor
  · rintro ⟨hleast, hmost⟩
    exact Nat.le_antisymm (hmost n rfl) hleast
  · rintro rfl
    refine ⟨Nat.le_refl _, fun m hm => ?_⟩
    cases hm
    exact Nat.le_refl _

/-- Characters that are told one by one. -/
theorem means_each (sets : List CharSet) :
    (inOrder (sets.map one)).Means (List.Forall₂ (fun set c => set c = true) sets) := by
  induction sets with
  | nil => exact fun _ _ _ => List.forall₂_nil_left_iff.symm
  | cons set sets ih =>
    refine ((means_one set).inOrder_cons ih).congr fun word => ?_
    rw [List.forall₂_cons_left_iff]
    constructor
    · rintro ⟨u, v, rfl, ⟨c, rfl, hc⟩, hv⟩
      exact ⟨c, v, hc, hv, rfl⟩
    · rintro ⟨c, v, hc, hv, rfl⟩
      exact ⟨[c], v, rfl, ⟨c, rfl, hc⟩, hv⟩

theorem means_text (s : String) : (text s).Means (· = s.toList) := by
  have hmap : text s = inOrder ((s.toList.map fun c => (· == c)).map one) := by rw [List.map_map]; rfl
  rw [hmap]
  refine (means_each _).congr fun word => ?_
  rw [List.forall₂_map_left_iff]
  constructor
  · intro h
    exact List.forall₂_eq_eq_eq ▸ h.flip.imp fun _ _ => beq_iff_eq.mp
  · rintro rfl
    exact List.forall₂_same.mpr fun c _ => beq_self_eq_true c

end LayerLint.Pattern
