/-
  LayerLint.Proofs.Pattern.Reach: how far matches reach, and where a search goes on.

  A match takes the characters it reads from the text after its start and adds them to the text before its end
  (`Reaches`), whatever the pattern (`reaches_of_mem_ends`). So all spots of a search are spots of one text
  (`whole_of_mem_finds`). A search that has found a match goes on at its end, unless the match is empty
  (`findsOn_of_some`).
-/

import LayerLint.Pattern.Search

namespace LayerLint

open Text (CharSet)

/-! ## From spot to spot -/

namespace Spot

def Reaches (s : Spot) (w : List Char) (t : Spot) : Prop := t.before = w.reverse ++ s.before ∧ s.after = w ++ t.after

def whole (s : Spot) : List Char := s.before.reverse ++ s.after

variable {s t u : Spot} {v w : List Char}

theorem Reaches.refl (s : Spot) : s.Reaches [] s := ⟨rfl, rfl⟩

theorem Reaches.trans (h : s.Reaches v t) (h' : t.Reaches w u) : s.Reaches (v ++ w) u := by
  refine ⟨?_, ?_⟩
  · rw [h'.1, h.1, List.reverse_append, List.append_assoc]
  · rw [h.2, h'.2, List.append_assoc]

theorem Reaches.cons {before rest : List Char} {c : Char} (h : Reaches ⟨c :: before, rest⟩ w t) :
    Reaches ⟨before, c :: rest⟩ (c :: w) t :=
  Reaches.trans (v := [c]) ⟨rfl, rfl⟩ h

theorem Reaches.position_eq (h : s.Reaches w t) : t.position = s.position + w.length := by
  unfold position
  rw [h.1, List.length_append, List.length_reverse]
  omega

theorem Reaches.textTo_eq (h : s.Reaches w t) : s.textTo t = w := by
  have hlen : t.position - s.position = w.reverse.length := by
    rw [h.position_eq, List.length_reverse]
    omega
  rw [textTo, hlen, h.1, List.take_left, List.reverse_reverse]

theorem Reaches.whole_eq (h : s.Reaches w t) : t.whole = s.whole := by
  unfold whole
  rw [h.1, h.2, List.reverse_append, List.reverse_reverse, List.append_assoc]

end Spot

/-! ## Ends of matches -/

namespace Pattern

variable {set : CharSet} {s t : Spot}

/-- The spots that taking characters of a set leads to, the nearest first. -/
def reached (set : CharSet) (before : List Char) : (after : List Char) → List Spot
  | [] => [⟨before, []⟩]
  | c :: rest => ⟨before, c :: rest⟩ :: if set c then reached set (c :: before) rest else []

theorem runSpots_none (set : CharSet) (before : List Char) (acc : List Spot) (after : List Char) :
    runSpots set before acc none after = (reached set before after).reverse ++ acc := by
  induction after generalizing before acc with
  | nil => rfl
  | cons c rest ih =>
    show (if set c then runSpots set (c :: before) (⟨before, c :: rest⟩ :: acc) none rest else
      ⟨before, c :: rest⟩ :: acc) = _
    rw [reached]
    by_cases hc : set c = true
    · rw [if_pos hc, if_pos hc, ih]
      simp
    · rw [if_neg hc, if_neg hc]
      rfl

theorem mem_runSpots {before after : List Char} {acc : List Spot} {room : Option Nat}
    (h : t ∈ runSpots set before acc room after) :
    t ∈ acc ∨ ∃ w, Spot.Reaches ⟨before, after⟩ w t ∧ ∀ c ∈ w, set c = true := by
  have hhere : ∀ {before after : List Char} {acc : List Spot}, t ∈ (⟨before, after⟩ : Spot) :: acc →
      t ∈ acc ∨ ∃ w, Spot.Reaches ⟨before, after⟩ w t ∧ ∀ c ∈ w, set c = true := by
    intro before after acc h
    rcases List.mem_cons.mp h with rfl | h
    · exact .inr ⟨[], .refl _, by simp⟩
    · exact .inl h
  fun_induction runSpots set before acc room after with
  | case1 => exact hhere h
  | case2 => exact hhere h
  | case3 before acc room c rest hroom hc ih =>
    rcases ih h with h | ⟨w, hw, hset⟩
    · exact hhere h
    · refine .inr ⟨c :: w, hw.cons, ?_⟩
      intro a ha
      rcases List.mem_cons.mp ha with rfl | ha
      · exact hc
      · exact hset a ha
  | case4 => exact hhere h

/-- A run ends after characters of its set. -/
theorem reaches_of_mem_run {least : Nat} {most : Option Nat} {appetite : Appetite}
    (h : t ∈ (run set least most appetite).ends s) : ∃ w, s.Reaches w t ∧ ∀ c ∈ w, set c = true := by
  have hm : t ∈ runEnds set least most s := by
    cases appetite with
    | greedy => exact h
    | lazy => exact List.mem_reverse.mp h
  rcases mem_runSpots (List.mem_filter.mp hm).1 with h | h
  · cases h
  · exact h

theorem reaches_of_mem_ends {p : Pattern} (h : t ∈ p.ends s) : ∃ w, s.Reaches w t := by
  have hstay : ∀ {b : Bool} {s t : Spot}, t ∈ (if b then [s] else []) → ∃ w, s.Reaches w t := by
    intro b s t h
    cases b with
    | true =>
      obtain rfl := List.mem_singleton.mp h
      exact ⟨[], .refl _⟩
    | false => cases h
  induction p generalizing s t with
  | empty =>
    obtain rfl := List.mem_singleton.mp h
    exact ⟨[], .refl _⟩
  | one set =>
    obtain ⟨before, after⟩ := s
    cases after with
    | nil => cases h
    | cons c rest =>
      by_cases hc : set c = true
      · simp only [ends, Spot.next?, if_pos hc, List.mem_singleton] at h
        exact ⟨[c], h ▸ ⟨rfl, rfl⟩⟩
      · simp [ends, Spot.next?, hc] at h
  | run set least most appetite =>
    obtain ⟨w, hw, -⟩ := reaches_of_mem_run h
    exact ⟨w, hw⟩
  | seq p q ihp ihq =>
    obtain ⟨u, hu, ht⟩ := List.mem_flatMap.mp h
    obtain ⟨v, hv⟩ := ihp hu
    obtain ⟨w, hw⟩ := ihq ht
    exact ⟨v ++ w, hv.trans hw⟩
  | either p q ihp ihq =>
    rcases List.mem_append.mp h with h | h
    · exact ihp h
    · exact ihq h
  | wordEdge => exact hstay h
  | lineStart => exact hstay h
  | lineEnd => exact hstay h

end Pattern

/-! ## Searching -/

namespace Extractor

variable {e : Extractor} {s : Spot} {f : Find}

theorem mem_findsAt :
    f ∈ e.findsAt s ↔ f.first ∈ e.lead.ends s ∧ f.last ∈ e.body.ends f.first ∧ f.stop ∈ e.trail.ends f.last := by
  simp only [findsAt, List.mem_flatMap, List.mem_map]
  constructor
  · rintro ⟨a, ha, b, hb, c, hc, rfl⟩
    exact ⟨ha, hb, hc⟩
  · rintro ⟨ha, hb, hc⟩
    exact ⟨_, ha, _, hb, _, hc, rfl⟩

theorem stop_reached (h : f ∈ e.findsAt s) : ∃ w, s.Reaches w f.stop := by
  obtain ⟨ha, hb, hc⟩ := mem_findsAt.mp h
  obtain ⟨u, hu⟩ := Pattern.reaches_of_mem_ends ha
  obtain ⟨v, hv⟩ := Pattern.reaches_of_mem_ends hb
  obtain ⟨w, hw⟩ := Pattern.reaches_of_mem_ends hc
  exact ⟨u ++ v ++ w, (hu.trans hv).trans hw⟩

def findsOn (e : Extractor) (s : Spot) : List Find := e.findsFrom s.before 0 s.after

def findsPast (e : Extractor) (s : Spot) : List Find := (s.next?.map fun x => e.findsOn x.2).getD []

theorem findsFrom_skip (e : Extractor) (before w rest : List Char) :
    e.findsFrom before w.length (w ++ rest) = e.findsOn ⟨w.reverse ++ before, rest⟩ := by
  induction w generalizing before with
  | nil => rfl
  | cons c w ih =>
    rw [List.length_cons, List.cons_append, findsFrom, ih, List.reverse_cons, List.append_assoc]
    rfl

theorem findsOn_of_none (h : (e.findsAt s).head? = none) : e.findsOn s = e.findsPast s := by
  obtain ⟨before, after⟩ := s
  cases after with
  | nil => rw [findsOn, findsFrom, h]; rfl
  | cons c rest => rw [findsOn, findsFrom, h]; rfl

/-- Behind a match the search goes on where the match ends, or one character further if it is empty. -/
theorem findsOn_of_some (h : (e.findsAt s).head? = some f) {w : List Char} (hw : s.Reaches w f.stop) :
    e.findsOn s = f :: if w = [] then e.findsPast s else e.findsOn f.stop := by
  obtain ⟨before, after⟩ := s
  obtain ⟨hbefore, hafter⟩ := hw
  cases after with
  | nil =>
    obtain rfl : w = [] := by
      cases w with
      | nil => rfl
      | cons c w => cases hafter
    rw [findsOn, findsFrom, h]
    rfl
  | cons c rest =>
    rw [findsOn, findsFrom, h]
    have hpos : f.stop.position - before.length - 1 = w.length - 1 := by
      have hlen : f.stop.position = w.length + before.length := by
        rw [Spot.position, hbefore, List.length_append, List.length_reverse]
      omega
    show f :: e.findsFrom (c :: before) (f.stop.position - before.length - 1) rest = _
    rw [hpos]
    cases w with
    | nil => rfl
    | cons a w =>
      obtain ⟨rfl, rfl⟩ := List.cons.inj hafter
      have hstop : f.stop = ⟨w.reverse ++ c :: before, f.stop.after⟩ := by
        rw [List.reverse_cons, List.append_assoc] at hbefore
        exact congrArg (fun b => Spot.mk b f.stop.after) hbefore
      rw [if_neg (List.cons_ne_nil _ _), hstop]
      exact congrArg _ (findsFrom_skip e (c :: before) w f.stop.after)

theorem mem_findsFrom {before after : List Char} {skip : Nat} (h : f ∈ e.findsFrom before skip after) :
    ∃ s : Spot, s.whole = Spot.whole ⟨before, after⟩ ∧ f ∈ e.findsAt s := by
  have hhead : ∀ {l : List Find} {f : Find}, l.head? = some f → f ∈ l := fun h => List.mem_of_mem_head? h
  have hnext : ∀ (before rest : List Char) (c : Char),
      Spot.whole ⟨c :: before, rest⟩ = Spot.whole ⟨before, c :: rest⟩ :=
    fun before rest c => Spot.Reaches.whole_eq (w := [c]) ⟨rfl, rfl⟩
  fun_induction findsFrom e before skip after with
  | case1 before => exact ⟨_, rfl, hhead (Option.mem_toList.mp h)⟩
  | case2 => cases h
  | case3 before skip c rest ih =>
    obtain ⟨s, hs, hf⟩ := ih h
    exact ⟨s, hs.trans (hnext _ _ _), hf⟩
  | case4 before c rest g hg ih =>
    rcases List.mem_cons.mp h with rfl | h
    · exact ⟨_, rfl, hhead hg⟩
    · obtain ⟨s, hs, hf⟩ := ih h
      exact ⟨s, hs.trans (hnext _ _ _), hf⟩
  | case5 before c rest hg ih =>
    obtain ⟨s, hs, hf⟩ := ih h
    exact ⟨s, hs.trans (hnext _ _ _), hf⟩

/-- What a search finds in a text is in that text. -/
theorem whole_of_mem_finds {text : List Char} (h : f ∈ e.finds text) : f.first.whole = text := by
  obtain ⟨s, hs, hf⟩ := mem_findsFrom h
  obtain ⟨w, hw⟩ := Pattern.reaches_of_mem_ends (mem_findsAt.mp hf).1
  exact hw.whole_eq.trans hs

theorem stop_whole_of_mem_finds {text : List Char} (h : f ∈ e.finds text) : f.stop.whole = text := by
  obtain ⟨s, hs, hf⟩ := mem_findsFrom h
  obtain ⟨w, hw⟩ := stop_reached hf
  exact hw.whole_eq.trans hs

end Extractor

end LayerLint
