/-
  LayerLint.Proofs.Pattern.Words: the words that patterns read.

  Where a match may end is told by the characters between its two ends: one for a single character (`mem_ends_one`),
  any that are in the set for a run (`mem_ends_run`), the text itself for a text (`mem_ends_text`), and one word after
  the other for a sequence (`mem_ends_inOrder_cons`).
-/

import LayerLint.Proofs.Pattern.Reach

namespace LayerLint

open Text (CharSet)

namespace Spot

variable {s t u : Spot} {v w : List Char}

/-- Where characters lead to is one spot. -/
theorem Reaches.unique (h : s.Reaches w t) (h' : s.Reaches w u) : t = u := by
  obtain ⟨before, after⟩ := t
  obtain ⟨before', after'⟩ := u
  obtain rfl : before = before' := h.1.trans h'.1.symm
  obtain rfl : after = after' := List.append_cancel_left (h.2.symm.trans h'.2)
  rfl

theorem reaches_append : s.Reaches (v ++ w) u ↔ ∃ t, s.Reaches v t ∧ t.Reaches w u := by
  constructor
  · intro h
    refine ⟨⟨v.reverse ++ s.before, w ++ u.after⟩, ⟨rfl, ?_⟩, ?_, rfl⟩
    · rw [h.2, List.append_assoc]
    · rw [h.1, List.reverse_append, List.append_assoc]
  · rintro ⟨t, hv, hw⟩
    exact hv.trans hw

theorem reaches_nil : s.Reaches [] t ↔ t = s := by
  constructor
  · intro h
    exact h.unique (.refl s)
  · rintro rfl
    exact .refl t

end Spot

namespace Pattern

variable {set : CharSet} {s t : Spot}

theorem mem_ends_one : t ∈ (one set).ends s ↔ ∃ c, set c = true ∧ s.Reaches [c] t := by
  obtain ⟨before, after⟩ := s
  cases after with
  | nil =>
    constructor
    · intro h
      cases h
    · rintro ⟨c, -, -, h⟩
      cases h
  | cons a rest =>
    have hends : (one set).ends ⟨before, a :: rest⟩ = if set a then [⟨a :: before, rest⟩] else [] := rfl
    have hnext : Spot.Reaches ⟨before, a :: rest⟩ [a] ⟨a :: before, rest⟩ := ⟨rfl, rfl⟩
    rw [hends]
    constructor
    · intro h
      by_cases ha : set a = true
      · rw [if_pos ha, List.mem_singleton] at h
        exact ⟨a, ha, h ▸ hnext⟩
      · rw [if_neg ha] at h
        cases h
    · rintro ⟨c, hc, h⟩
      obtain rfl : a = c := (List.cons.inj h.2).1
      rw [if_pos hc, h.unique hnext]
      exact List.mem_singleton_self _

theorem mem_reached_append {w : List Char} (hw : ∀ c ∈ w, set c = true) (before rest : List Char) :
    (⟨w.reverse ++ before, rest⟩ : Spot) ∈ reached set before (w ++ rest) := by
  induction w generalizing before with
  | nil => cases rest <;> simp [reached]
  | cons c w ih =>
    have hrest := ih (fun a ha => hw a (by simp [ha])) (c :: before)
    rw [List.cons_append, reached, if_pos (hw c (by simp)), List.reverse_cons, List.append_assoc]
    exact List.mem_cons_of_mem _ hrest

theorem mem_ends_run {least : Nat} {appetite : Appetite} :
    t ∈ (run set least none appetite).ends s ↔
      ∃ w, s.Reaches w t ∧ (∀ c ∈ w, set c = true) ∧ least ≤ w.length := by
  have hmem : t ∈ (run set least none appetite).ends s ↔ t ∈ runEnds set least none s := by
    cases appetite with
    | greedy => rfl
    | lazy => exact List.mem_reverse
  have hfar : ∀ {w}, s.Reaches w t → (s.position + least ≤ t.position ↔ least ≤ w.length) := by
    intro w hw
    rw [hw.position_eq]
    omega
  constructor
  · intro h
    obtain ⟨w, hw, hset⟩ := reaches_of_mem_run h
    have hleast := (List.mem_filter.mp (hmem.mp h)).2
    exact ⟨w, hw, hset, (hfar hw).mp (by simpa using hleast)⟩
  · rintro ⟨w, hw, hset, hleast⟩
    rw [hmem, runEnds, List.mem_filter]
    refine ⟨?_, by simpa using (hfar hw).mpr hleast⟩
    have hspot : t = ⟨w.reverse ++ s.before, t.after⟩ := by rw [← hw.1]
    rw [runSpots_none, List.append_nil, List.mem_reverse, hw.2, hspot]
    exact mem_reached_append hset s.before t.after

theorem mem_ends_zeroOrMore : t ∈ (zeroOrMore set).ends s ↔ ∃ w, s.Reaches w t ∧ ∀ c ∈ w, set c = true := by
  rw [zeroOrMore, mem_ends_run]
  simp

theorem getLast?_reached {w rest : List Char} (hw : ∀ c ∈ w, set c = true) (hrest : ∀ c ∈ rest.head?, set c = false)
    (before : List Char) : (reached set before (w ++ rest)).getLast? = some ⟨w.reverse ++ before, rest⟩ := by
  induction w generalizing before with
  | nil =>
    cases rest with
    | nil => rfl
    | cons c rest => simp [reached, hrest c rfl]
  | cons c w ih =>
    have hlast := ih (fun a ha => hw a (List.mem_cons_of_mem c ha)) (c :: before)
    rw [List.cons_append, reached, if_pos (hw c List.mem_cons_self), List.getLast?_cons, hlast]
    simp

/-- A run prefers to take all it can. -/
theorem head?_ends_zeroOrMore {w rest : List Char} (hw : ∀ c ∈ w, set c = true)
    (hrest : ∀ c ∈ rest.head?, set c = false) (hs : s.after = w ++ rest) (ht : s.Reaches w t) :
    ((zeroOrMore set).ends s).head? = some t := by
  have hall : (runSpots set s.before [] none s.after).filter (fun t => s.position + 0 ≤ t.position) =
      runSpots set s.before [] none s.after := by
    refine List.filter_eq_self.mpr fun u hu => ?_
    rcases mem_runSpots hu with hu | ⟨v, hv, -⟩
    · cases hu
    · have hposition : u.position = s.position + v.length := hv.position_eq
      exact decide_eq_true (by omega)
  have hspot : t = ⟨w.reverse ++ s.before, rest⟩ := ht.unique ⟨rfl, hs⟩
  show (runEnds set 0 none s).head? = _
  rw [runEnds, hall, runSpots_none, List.append_nil, List.head?_reverse, hs, getLast?_reached hw hrest, hspot]

theorem mem_ends_inOrder_cons {p : Pattern} {ps : List Pattern} :
    t ∈ (inOrder (p :: ps)).ends s ↔ ∃ u, u ∈ p.ends s ∧ t ∈ (inOrder ps).ends u := by
  cases ps with
  | nil => simp [inOrder, ends]
  | cons q qs => exact List.mem_flatMap

theorem mem_ends_inOrder_nil : t ∈ (inOrder []).ends s ↔ t = s := List.mem_singleton

/-- What holds of the empty pattern, and of two patterns one behind the other if it holds of both, holds of patterns in
    order if it holds of each. -/
theorem inOrder_induction {P : Pattern → Prop} (hempty : P empty) (hseq : ∀ p q, P p → P q → P (seq p q))
    {ps : List Pattern} (h : ∀ p ∈ ps, P p) : P (inOrder ps) := by
  induction ps with
  | nil => exact hempty
  | cons p ps ih =>
    have hrest := ih fun q hq => h q (List.mem_cons_of_mem p hq)
    cases ps with
    | nil => exact h p List.mem_cons_self
    | cons q qs => exact hseq p _ (h p List.mem_cons_self) hrest

theorem mem_ends_text {word : String} : t ∈ (text word).ends s ↔ s.Reaches word.toList t := by
  unfold text
  induction word.toList generalizing s with
  | nil => rw [List.map_nil, mem_ends_inOrder_nil, Spot.reaches_nil]
  | cons c cs ih =>
    rw [List.map_cons, mem_ends_inOrder_cons, ← List.singleton_append, Spot.reaches_append]
    refine exists_congr fun u => ?_
    rw [ih, mem_ends_one]
    simp

theorem mem_ends_either {p q : Pattern} : t ∈ (either p q).ends s ↔ t ∈ p.ends s ∨ t ∈ q.ends s := List.mem_append

theorem mem_ends_oneOf {p : Pattern} {ps : List Pattern} : t ∈ (oneOf p ps).ends s ↔ ∃ q ∈ p :: ps, t ∈ q.ends s := by
  induction ps generalizing p with
  | nil => simp [oneOf]
  | cons q qs ih =>
    rw [oneOf, mem_ends_either, ih]
    simp

theorem mem_ends_wordEdge : t ∈ wordEdge.ends s ↔ t = s ∧ s.atWordEdge = true := by
  rw [ends]
  split <;> simp_all

theorem mem_ends_lineStart : t ∈ lineStart.ends s ↔ t = s ∧ s.atLineStart = true := by
  rw [ends]
  split <;> simp_all

end Pattern

/-! ## Searches -/

namespace Extractor

variable {e : Extractor} {s t : Spot} {f : Find} {v : List Char}

theorem findsAt_eq_nil (h : e.findsOn s = []) : e.findsAt s = [] := by
  cases hhead : (e.findsAt s).head? with
  | none => exact List.head?_eq_none_iff.mp hhead
  | some f =>
    obtain ⟨w, hw⟩ := stop_reached (List.mem_of_mem_head? hhead)
    rw [findsOn_of_some hhead hw] at h
    cases h

/-- A search that finds nothing has nothing to find further on. -/
theorem findsAt_eq_nil_of_reaches (h : e.findsOn s = []) (hv : s.Reaches v t) : e.findsAt t = [] := by
  induction v generalizing s with
  | nil =>
    obtain rfl := Spot.reaches_nil.mp hv
    exact findsAt_eq_nil h
  | cons c v ih =>
    rw [← List.singleton_append, Spot.reaches_append] at hv
    obtain ⟨u, hu, hv⟩ := hv
    refine ih ?_ hv
    rw [findsOn_of_none (by rw [findsAt_eq_nil h]; rfl), findsPast] at h
    obtain ⟨before, after⟩ := s
    obtain rfl : after = c :: u.after := hu.2
    rw [hu.unique (u := ⟨c :: before, u.after⟩) ⟨rfl, rfl⟩]
    exact h

/-- Matches stand behind the spot where the search starts, and each behind the end of those before it. -/
theorem findsOn_in_order (e : Extractor) (s : Spot) :
    (∀ f ∈ e.findsOn s, ∃ w, s.Reaches w f.first) ∧ (e.findsOn s).Pairwise fun f g => ∃ w, f.stop.Reaches w g.first := by
  -- on the text after the spot: a search goes on behind the next character, or behind a match
  induction hn : s.after.length using Nat.strongRecOn generalizing s with
  | ind n ih =>
    have hpast : (∀ f ∈ e.findsPast s, ∃ w, s.Reaches w f.first) ∧
        (e.findsPast s).Pairwise fun f g => ∃ w, f.stop.Reaches w g.first := by
      obtain ⟨before, after⟩ := s
      cases after with
      | nil => exact ⟨by simp [findsPast, Spot.next?], .nil⟩
      | cons c rest =>
        obtain ⟨hmem, hpairs⟩ := ih rest.length (by rw [← hn]; exact Nat.lt_succ_self _) ⟨c :: before, rest⟩ rfl
        refine ⟨fun f hf => ?_, hpairs⟩
        obtain ⟨w, hw⟩ := hmem f hf
        exact ⟨c :: w, hw.cons⟩
    cases hhead : (e.findsAt s).head? with
    | none =>
      rw [findsOn_of_none hhead]
      exact hpast
    | some f =>
      have hfind := List.mem_of_mem_head? hhead
      obtain ⟨u, hu⟩ := Pattern.reaches_of_mem_ends (mem_findsAt.mp hfind).1
      obtain ⟨w, hw⟩ := stop_reached hfind
      rw [findsOn_of_some hhead hw, List.forall_mem_cons, List.pairwise_cons]
      by_cases hempty : w = []
      · subst hempty
        rw [if_pos rfl, Spot.reaches_nil.mp hw]
        exact ⟨⟨⟨u, hu⟩, hpast.1⟩, hpast⟩
      · have hlen := congrArg List.length hw.2
        have hpos := List.length_pos_iff.mpr hempty
        rw [List.length_append] at hlen
        obtain ⟨hmem, hpairs⟩ := ih f.stop.after.length (by omega) f.stop rfl
        rw [if_neg hempty]
        refine ⟨⟨⟨u, hu⟩, fun g hg => ?_⟩, hmem, hpairs⟩
        obtain ⟨v, hv⟩ := hmem g hg
        exact ⟨w ++ v, hw.trans hv⟩

theorem reaches_of_whole (s : Spot) : (Spot.start s.whole).Reaches s.before.reverse s := by
  refine ⟨?_, rfl⟩
  rw [List.reverse_reverse]
  exact (List.append_nil _).symm

/-- Where a match starts somewhere in a text, a search of the text finds one. -/
theorem finds_ne_nil (hf : f ∈ e.findsAt s) : e.finds s.whole ≠ [] := by
  intro hnil
  have hnone := findsAt_eq_nil_of_reaches (s := .start s.whole) hnil (reaches_of_whole s)
  rw [hnone] at hf
  cases hf

end Extractor

end LayerLint
