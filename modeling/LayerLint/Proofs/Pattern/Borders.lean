/-
  LayerLint.Proofs.Pattern.Borders: searching a text on both sides of a line end.

  A text that starts a new line is read as if nothing stood before it (`ends_precededBy`). What stands behind a spot
  is seen only by matches that end behind it, so the matches that end earlier are the same whatever follows
  (`filter_ends_followedBy`). If no match runs across the border between two texts, a search finds what it finds in
  each of them (`finds_append`). That a match runs across is judged in the whole text (`Crosses`): it may need what
  stands on the other side.
-/

import LayerLint.Proofs.Pattern.Reach
import Mathlib.Data.List.Basic

namespace LayerLint

open Text (CharSet)

/-- The text is empty or ends with a line feed, so that what follows starts a line. -/
def Text.EndsLine (x : List Char) : Prop := x = [] ∨ ∃ front, x = front ++ ['\n']

theorem Text.EndsLine.suffix {x m : List Char} (h : Text.EndsLine (x ++ m)) (hm : m ≠ []) :
    ∃ front, m = front ++ ['\n'] := by
  rcases List.eq_nil_or_concat m with hnil | ⟨front, c, hconcat⟩
  · exact absurd hnil hm
  · rw [List.concat_eq_append] at hconcat
    subst hconcat
    rcases h with h | ⟨back, h⟩
    · simp at h
    · rw [← List.append_assoc] at h
      obtain rfl := List.singleton_inj.mp (List.append_inj' h rfl).2
      exact ⟨front, rfl⟩

/-! ## Spots -/

namespace Spot

def followedBy (y : List Char) (s : Spot) : Spot := ⟨s.before, s.after ++ y⟩

def precededBy (x : List Char) (s : Spot) : Spot := ⟨s.before ++ x.reverse, s.after⟩

def ahead (y : List Char) (s : Spot) : Bool := decide (y.length < s.after.length)

variable {x y w : List Char} {s t : Spot}

theorem ahead_followedBy (y : List Char) (s : Spot) : (s.followedBy y).ahead y = !s.after.isEmpty := by
  obtain ⟨before, after⟩ := s
  cases after with
  | nil => simp [ahead, followedBy]
  | cons c rest =>
    refine decide_eq_true ?_
    rw [followedBy, List.length_append, List.length_cons]
    omega

theorem Reaches.followedBy (h : s.Reaches w t) (y : List Char) : (s.followedBy y).Reaches w (t.followedBy y) := by
  refine ⟨h.1, ?_⟩
  show s.after ++ y = w ++ (t.after ++ y)
  rw [h.2, List.append_assoc]

theorem Reaches.precededBy (h : s.Reaches w t) (x : List Char) : (s.precededBy x).Reaches w (t.precededBy x) := by
  refine ⟨?_, h.2⟩
  show t.before ++ x.reverse = w.reverse ++ (s.before ++ x.reverse)
  rw [h.1, List.append_assoc]

/-- Reading on never brings a spot back in front of what it has passed. -/
theorem Reaches.not_ahead (h : s.Reaches w t) (hs : s.ahead y = false) : t.ahead y = false := by
  have hlen := congrArg List.length h.2
  simp only [ahead, decide_eq_false_iff_not, List.length_append] at hs hlen ⊢
  omega

/-- Who reads past the end of a text has read all of it. -/
theorem Reaches.exists_append (h : (s.followedBy y).Reaches w t) (ht : t.ahead y = false) :
    ∃ z, w = s.after ++ z ∧ y = z ++ t.after := by
  have hafter : s.after ++ y = w ++ t.after := h.2
  have hlen := congrArg List.length hafter
  simp only [ahead, decide_eq_false_iff_not, List.length_append] at ht hlen
  obtain ⟨z, hz, hy⟩ | ⟨z, hz, hy⟩ := List.append_eq_append_iff.mp hafter
  · exact ⟨z, hz, hy⟩
  · have hnil : z = [] := by
      have hz' := congrArg List.length hy
      rw [List.length_append] at hz'
      exact List.length_eq_zero_iff.mp (by omega)
    subst hnil
    exact ⟨[], by rw [hz]; simp, by rw [hy]; simp⟩

/-- What is left of a text that ends with its last line ends with a line feed. -/
theorem exists_after_eq (h : Text.EndsLine s.whole) (hne : s.after ≠ []) : ∃ front, s.after = front ++ ['\n'] :=
  Text.EndsLine.suffix (x := s.before.reverse) h hne

/-- Who reads no line feed does not leave such a text. -/
theorem Reaches.ahead_of_feed_not_mem (h : (s.followedBy y).Reaches w t) (hends : Text.EndsLine s.whole)
    (hne : s.after ≠ []) (hw : '\n' ∉ w) : t.ahead y = true := by
  cases hahead : t.ahead y with
  | true => rfl
  | false =>
    obtain ⟨z, rfl, -⟩ := h.exists_append hahead
    obtain ⟨front, hfront⟩ := exists_after_eq hends hne
    rw [hfront] at hw
    exact absurd (by simp) hw

theorem position_precededBy (x : List Char) (s : Spot) : (s.precededBy x).position = s.position + x.length := by
  simp [position, precededBy]

theorem head?_before_precededBy (hx : Text.EndsLine x) (s : Spot) :
    (s.precededBy x).before.head? = s.before.head? ∨ (s.before = [] ∧ (s.precededBy x).before.head? = some '\n') := by
  obtain ⟨before, after⟩ := s
  cases before with
  | cons c before => exact .inl rfl
  | nil =>
    rcases hx with rfl | ⟨front, rfl⟩
    · exact .inl rfl
    · exact .inr ⟨rfl, by simp [precededBy]⟩

theorem atWordEdge_precededBy (hx : Text.EndsLine x) (s : Spot) : (s.precededBy x).atWordEdge = s.atWordEdge := by
  have hword : (s.precededBy x).before.head?.any Text.isWord = s.before.head?.any Text.isWord := by
    rcases head?_before_precededBy hx s with h | ⟨hnil, h⟩
    · rw [h]
    · rw [h, hnil]
      decide
  unfold atWordEdge
  rw [hword]
  rfl

theorem atLineStart_eq (s : Spot) : s.atLineStart = s.before.head?.all (· == '\n') := by
  obtain ⟨before, after⟩ := s
  cases before with
  | nil => rfl
  | cons c before => rfl

theorem atLineStart_precededBy (hx : Text.EndsLine x) (s : Spot) : (s.precededBy x).atLineStart = s.atLineStart := by
  rw [atLineStart_eq, atLineStart_eq]
  rcases head?_before_precededBy hx s with h | ⟨hnil, h⟩
  · rw [h]
  · rw [h, hnil]
    rfl

end Spot

/-! ## Patterns -/

namespace Pattern

variable {x y : List Char}

/-! ### Runs -/

theorem runSpots_zero (set : CharSet) (before : List Char) (acc : List Spot) (after : List Char) :
    runSpots set before acc (some 0) after = ⟨before, after⟩ :: acc := by
  unfold runSpots
  rfl

theorem runSpots_nil (set : CharSet) (before : List Char) (acc : List Spot) (room : Option Nat) :
    runSpots set before acc room [] = ⟨before, []⟩ :: acc := by
  rcases room with _ | _ | n <;> rfl

theorem runSpots_acc (set : CharSet) (before : List Char) (acc : List Spot) (room : Option Nat) (after : List Char) :
    runSpots set before acc room after = runSpots set before [] room after ++ acc := by
  induction after generalizing before acc room with
  | nil => simp [runSpots_nil]
  | cons c rest ih =>
    by_cases hroom : room = some 0
    · simp [hroom, runSpots_zero]
    · rw [runSpots, runSpots]
      · split
        · rw [ih, ih _ [_], List.append_assoc]
          rfl
        · rfl
      · simpa using hroom
      · simpa using hroom

theorem runSpots_cons {room : Option Nat} (hroom : room ≠ some 0) (set : CharSet) (before : List Char) (c : Char)
    (rest : List Char) :
    runSpots set before [] room (c :: rest) =
      (if set c then runSpots set (c :: before) [] (room.map (· - 1)) rest else []) ++ [⟨before, c :: rest⟩] := by
  rw [runSpots]
  · split
    · rw [runSpots_acc]
    · rfl
  · simpa using hroom

theorem runSpots_precededBy (set : CharSet) (x before after : List Char) (room : Option Nat) :
    runSpots set (before ++ x.reverse) [] room after = (runSpots set before [] room after).map (Spot.precededBy x) := by
  induction after generalizing before room with
  | nil => simp [runSpots_nil, Spot.precededBy]
  | cons c rest ih =>
    by_cases hroom : room = some 0
    · simp [hroom, runSpots_zero, Spot.precededBy]
    · have hrest := ih (c :: before) (room.map (· - 1))
      rw [List.cons_append] at hrest
      rw [runSpots_cons hroom, runSpots_cons hroom, hrest]
      split <;> simp [Spot.precededBy]

/-- Of a run that may go on into the text behind, the spots in front of it are the same. -/
theorem filter_runSpots_followedBy (set : CharSet) (y before after : List Char) (room : Option Nat) :
    (runSpots set before [] room (after ++ y)).filter (Spot.ahead y) =
      ((runSpots set before [] room after).map (Spot.followedBy y)).filter (Spot.ahead y) := by
  induction after generalizing before room with
  | nil =>
    have hhere : Spot.ahead y ⟨before, y⟩ = false := by simp [Spot.ahead]
    have hleft : (runSpots set before [] room y).filter (Spot.ahead y) = [] := by
      rw [List.filter_eq_nil_iff]
      intro t ht
      rcases mem_runSpots ht with ht | ⟨w, hw, -⟩
      · cases ht
      · simp [hw.not_ahead hhere]
    rw [List.nil_append, hleft, runSpots_nil]
    simp [Spot.ahead, Spot.followedBy]
  | cons c rest ih =>
    by_cases hroom : room = some 0
    · simp [hroom, runSpots_zero, Spot.followedBy]
    · rw [List.cons_append, runSpots_cons hroom, runSpots_cons hroom, List.filter_append, List.map_append,
        List.filter_append]
      congr 1
      split
      · exact ih _ _
      · rfl

/-! ### Ends -/

theorem ends_precededBy (hx : Text.EndsLine x) (p : Pattern) (s : Spot) :
    p.ends (s.precededBy x) = (p.ends s).map (Spot.precededBy x) := by
  induction p generalizing s with
  | empty => rfl
  | one set =>
    obtain ⟨before, after⟩ := s
    cases after with
    | nil => rfl
    | cons c rest =>
      simp only [ends, Spot.next?, Spot.precededBy]
      split <;> rfl
  | run set least most appetite =>
    have hends : runEnds set least most (s.precededBy x) = (runEnds set least most s).map (Spot.precededBy x) := by
      unfold runEnds
      have hspots := runSpots_precededBy set x s.before s.after most
      rw [show (s.precededBy x).before = s.before ++ x.reverse from rfl, show (s.precededBy x).after = s.after from rfl,
        hspots, List.filter_map]
      refine congrArg _ (List.filter_congr fun t _ => ?_)
      simp only [Function.comp_apply, Spot.position_precededBy, decide_eq_decide]
      omega
    cases appetite with
    | greedy => exact hends
    | lazy =>
      show (runEnds set least most (s.precededBy x)).reverse = (runEnds set least most s).reverse.map _
      rw [hends, List.map_reverse]
  | seq p q ihp ihq =>
    show (p.ends (s.precededBy x)).flatMap q.ends = ((p.ends s).flatMap q.ends).map (Spot.precededBy x)
    rw [ihp, List.flatMap_map, List.map_flatMap]
    exact List.flatMap_congr fun t _ => ihq t
  | either p q ihp ihq =>
    show p.ends (s.precededBy x) ++ q.ends (s.precededBy x) = (p.ends s ++ q.ends s).map (Spot.precededBy x)
    rw [ihp, ihq, List.map_append]
  | wordEdge =>
    simp only [ends, Spot.atWordEdge_precededBy hx]
    split <;> rfl
  | lineStart =>
    simp only [ends, Spot.atLineStart_precededBy hx]
    split <;> rfl
  | lineEnd =>
    have hend : (s.precededBy x).atLineEnd = s.atLineEnd := rfl
    simp only [ends, hend]
    split <;> rfl

section

variable {α β : Type} {f g : α → List β}

/-- Members that lead to nothing can be left out. -/
theorem flatMap_filter {keep : α → Bool} (hnone : ∀ a, keep a = false → f a = []) (l : List α) :
    (l.filter keep).flatMap f = l.flatMap f := by
  induction l with
  | nil => rfl
  | cons a l ih =>
    by_cases ha : keep a = true
    · simp [ha, ih]
    · simp [ha, hnone a (Bool.eq_false_iff.mpr ha), ih]

end

/-- What goes on from spots in front of `y` only goes on from the same spots, whatever follows. -/
theorem flatMap_ends_followedBy {β : Type} {p : Pattern} {s : Spot} {f g : Spot → List β}
    (hends : (p.ends (s.followedBy y)).filter (Spot.ahead y) = ((p.ends s).map (Spot.followedBy y)).filter (Spot.ahead y))
    (hnone : ∀ t, t.ahead y = false → f t = []) (h : ∀ t, f (t.followedBy y) = g t) :
    (p.ends (s.followedBy y)).flatMap f = (p.ends s).flatMap g := by
  rw [← flatMap_filter hnone, hends, flatMap_filter hnone, List.flatMap_map]
  exact List.flatMap_congr fun t _ => h t

theorem ends_eq_nil_of_not_ahead {p : Pattern} {t : Spot} (ht : t.ahead y = false) :
    (p.ends t).filter (Spot.ahead y) = [] := by
  rw [List.filter_eq_nil_iff]
  intro u hu
  obtain ⟨w, hw⟩ := reaches_of_mem_ends hu
  simp [hw.not_ahead ht]

/-- The ends in front of `y` are the same whether `y` follows or not. -/
theorem filter_ends_followedBy (y : List Char) (p : Pattern) (s : Spot) :
    (p.ends (s.followedBy y)).filter (Spot.ahead y) = ((p.ends s).map (Spot.followedBy y)).filter (Spot.ahead y) := by
  -- a test at the spot itself sees the same next character, or the spot is not in front of `y`
  have htest : ∀ (test : Spot → Bool) (s : Spot), (∀ c rest, s.after = c :: rest → test (s.followedBy y) = test s) →
      (if test (s.followedBy y) then [s.followedBy y] else []).filter (Spot.ahead y) =
        ((if test s then [s] else []).map (Spot.followedBy y)).filter (Spot.ahead y) := by
    intro test s h
    cases hs : s.after with
    | nil =>
      have hnot : (s.followedBy y).ahead y = false := by rw [Spot.ahead_followedBy, hs]; rfl
      split <;> split <;> simp [hnot]
    | cons c rest =>
      rw [h c rest hs]
      split <;> rfl
  induction p generalizing s with
  | empty => rfl
  | one set =>
    obtain ⟨before, after⟩ := s
    cases after with
    | nil =>
      rw [ends_eq_nil_of_not_ahead (by simp [Spot.ahead, Spot.followedBy])]
      rfl
    | cons c rest =>
      simp only [ends, Spot.next?, Spot.followedBy, List.cons_append]
      split <;> rfl
  | run set least most appetite =>
    have hends : (runEnds set least most (s.followedBy y)).filter (Spot.ahead y) =
        ((runEnds set least most s).map (Spot.followedBy y)).filter (Spot.ahead y) := by
      have hspots := filter_runSpots_followedBy set y s.before s.after most
      unfold runEnds
      rw [List.filter_comm, show (s.followedBy y).before = s.before from rfl,
        show (s.followedBy y).after = s.after ++ y from rfl, hspots, List.filter_comm, List.filter_map]
      rfl
    cases appetite with
    | greedy => exact hends
    | lazy =>
      show (runEnds set least most (s.followedBy y)).reverse.filter _ =
        ((runEnds set least most s).reverse.map (Spot.followedBy y)).filter _
      rw [List.filter_reverse, hends, List.map_reverse, List.filter_reverse]
  | seq p q ihp ihq =>
    show ((p.ends (s.followedBy y)).flatMap q.ends).filter _ = (((p.ends s).flatMap q.ends).map _).filter _
    rw [List.filter_flatMap, List.map_flatMap, List.filter_flatMap]
    exact flatMap_ends_followedBy (ihp s) (fun t ht => ends_eq_nil_of_not_ahead ht) ihq
  | either p q ihp ihq =>
    show (p.ends (s.followedBy y) ++ q.ends (s.followedBy y)).filter _ = ((p.ends s ++ q.ends s).map _).filter _
    rw [List.filter_append, List.map_append, List.filter_append, ihp, ihq]
  | wordEdge =>
    refine htest Spot.atWordEdge s fun c rest hs => ?_
    simp [Spot.atWordEdge, Spot.followedBy, hs]
  | lineStart => exact htest Spot.atLineStart s fun _ _ _ => rfl
  | lineEnd =>
    refine htest Spot.atLineEnd s fun c rest hs => ?_
    simp [Spot.atLineEnd, Spot.followedBy, hs]

end Pattern

/-! ## Searches -/

namespace Find

def followedBy (y : List Char) (f : Find) : Find := ⟨f.first.followedBy y, f.last.followedBy y, f.stop.followedBy y⟩

def precededBy (x : List Char) (f : Find) : Find := ⟨f.first.precededBy x, f.last.precededBy x, f.stop.precededBy x⟩

end Find

namespace Extractor

/-- No match is empty or ends with a line feed. -/
def Solid (e : Extractor) : Prop := ∀ s f, f ∈ e.findsAt s → ∃ w c, s.Reaches (w ++ [c]) f.stop ∧ c ≠ '\n'

/-- Some match starts in `x` and ends in `y`, which follows it. -/
def Crosses (e : Extractor) (x y : List Char) : Prop :=
  ∃ (s : Spot) (f : Find), s.whole = x ∧ s.after ≠ [] ∧ f ∈ e.findsAt (s.followedBy y) ∧ f.stop.ahead y = false

variable {e : Extractor} {s : Spot} {x y : List Char}

theorem findsAt_precededBy (hx : Text.EndsLine x) (e : Extractor) (s : Spot) :
    e.findsAt (s.precededBy x) = (e.findsAt s).map (Find.precededBy x) := by
  unfold findsAt
  rw [Pattern.ends_precededBy hx, List.flatMap_map, List.map_flatMap]
  refine List.flatMap_congr fun first _ => ?_
  rw [Pattern.ends_precededBy hx, List.flatMap_map, List.map_flatMap]
  refine List.flatMap_congr fun last _ => ?_
  rw [Pattern.ends_precededBy hx, List.map_map, List.map_map]
  rfl

theorem findsFrom_precededBy (hx : Text.EndsLine x) (e : Extractor) (before after : List Char) (skip : Nat) :
    e.findsFrom (before ++ x.reverse) skip after = (e.findsFrom before skip after).map (Find.precededBy x) := by
  have hat : ∀ before after, e.findsAt ⟨before ++ x.reverse, after⟩ = (e.findsAt ⟨before, after⟩).map (Find.precededBy x) :=
    fun before after => findsAt_precededBy hx e ⟨before, after⟩
  induction after generalizing before skip with
  | nil =>
    cases skip with
    | zero =>
      rw [findsFrom, findsFrom, hat, List.head?_map]
      cases (e.findsAt ⟨before, []⟩).head? <;> rfl
    | succ skip => rfl
  | cons c rest ih =>
    cases skip with
    | succ skip =>
      rw [findsFrom, findsFrom]
      exact ih (c :: before) skip
    | zero =>
      rw [findsFrom, findsFrom, hat, List.head?_map]
      cases (e.findsAt ⟨before, c :: rest⟩).head? with
      | none => exact ih (c :: before) 0
      | some f =>
        have hskip : (f.precededBy x).stop.position - (before ++ x.reverse).length - 1 =
            f.stop.position - before.length - 1 := by
          rw [show (f.precededBy x).stop = f.stop.precededBy x from rfl, Spot.position_precededBy, List.length_append,
            List.length_reverse]
          omega
        show f.precededBy x :: e.findsFrom (c :: before ++ x.reverse) _ rest = f.precededBy x :: _
        rw [hskip]
        exact congrArg _ (ih (c :: before) _)

theorem findsOn_precededBy (hx : Text.EndsLine x) (e : Extractor) (s : Spot) :
    e.findsOn (s.precededBy x) = (e.findsOn s).map (Find.precededBy x) :=
  findsFrom_precededBy hx e s.before s.after 0

/-- The matches that end in front of `y` are the same whether `y` follows or not. -/
theorem filter_findsAt_followedBy (y : List Char) (e : Extractor) (s : Spot) :
    (e.findsAt (s.followedBy y)).filter (fun f => f.stop.ahead y) =
      ((e.findsAt s).map (Find.followedBy y)).filter fun f => f.stop.ahead y := by
  have hfinish : ∀ (a b : Spot), ((e.trail.ends b).map fun c => (⟨a, b, c⟩ : Find)).filter (fun f => f.stop.ahead y) =
      ((e.trail.ends b).filter (Spot.ahead y)).map fun c => ⟨a, b, c⟩ := fun _ _ => List.filter_map
  unfold findsAt
  simp only [List.filter_flatMap, List.map_flatMap, hfinish]
  refine Pattern.flatMap_ends_followedBy (Pattern.filter_ends_followedBy y _ s) ?_ fun first => ?_
  · intro first hfirst
    rw [List.flatMap_eq_nil_iff]
    intro last hlast
    obtain ⟨w, hw⟩ := Pattern.reaches_of_mem_ends hlast
    rw [Pattern.ends_eq_nil_of_not_ahead (hw.not_ahead hfirst)]
    rfl
  · refine Pattern.flatMap_ends_followedBy (Pattern.filter_ends_followedBy y _ first) ?_ fun last => ?_
    · intro last hlast
      rw [Pattern.ends_eq_nil_of_not_ahead hlast]
      rfl
    · rw [Pattern.filter_ends_followedBy, List.filter_map, List.map_map, List.map_map, List.filter_map]
      rfl

/-- In a text that ends a line something stands behind every match, at least the line feed. -/
theorem Solid.stop_after_ne_nil (he : e.Solid) (hs : Text.EndsLine s.whole) {f : Find} (hf : f ∈ e.findsAt s) :
    f.stop.after ≠ [] := by
  obtain ⟨w, c, hw, hc⟩ := he s f hf
  intro hnil
  have hwhole : s.whole = (s.before.reverse ++ w) ++ [c] := by
    rw [← hw.whole_eq, Spot.whole, hw.1, hnil]
    simp
  rcases hs with hempty | ⟨front, hfront⟩
  · rw [hwhole] at hempty
    simp at hempty
  · rw [hwhole] at hfront
    exact hc (List.singleton_inj.mp (List.append_inj' hfront rfl).2)

/-- Behind a spot in front of the border the matches are the same if none crosses it. -/
theorem findsAt_followedBy (he : e.Solid) (hx : Text.EndsLine x) (hcross : ¬ e.Crosses x y) (hs : s.whole = x)
    (hne : s.after ≠ []) : e.findsAt (s.followedBy y) = (e.findsAt s).map (Find.followedBy y) := by
  have hfilter := filter_findsAt_followedBy y e s
  rwa [List.filter_eq_self.mpr, List.filter_eq_self.mpr] at hfilter
  · intro f hf
    obtain ⟨g, hg, rfl⟩ := List.mem_map.mp hf
    have hstop : g.stop.after ≠ [] := he.stop_after_ne_nil (hs ▸ hx) hg
    show (g.stop.followedBy y).ahead y = true
    rw [Spot.ahead_followedBy]
    simpa using hstop
  · intro f hf
    by_cases hahead : f.stop.ahead y = true
    · exact hahead
    · exact absurd ⟨s, f, hs, hne, hf, Bool.eq_false_iff.mpr hahead⟩ hcross

theorem Solid.findsAt_nil (he : e.Solid) (before : List Char) : e.findsAt ⟨before, []⟩ = [] := by
  rw [List.eq_nil_iff_forall_not_mem]
  intro f hf
  obtain ⟨w, c, hw, -⟩ := he _ f hf
  have hafter : [] = w ++ [c] ++ f.stop.after := hw.2
  simp at hafter

theorem findsOn_followedBy (he : e.Solid) (hx : Text.EndsLine x) (hcross : ¬ e.Crosses x y) (hs : s.whole = x) :
    e.findsOn (s.followedBy y) = (e.findsOn s).map (Find.followedBy y) ++ (e.finds y).map (Find.precededBy x) := by
  -- on what is left of `x`: a search goes on behind the next character, or behind a match
  induction hn : s.after.length using Nat.strongRecOn generalizing s with
  | ind n ih =>
    by_cases hne : s.after = []
    · have hspot : s = ⟨x.reverse, []⟩ := by
        obtain ⟨before, after⟩ := s
        obtain rfl : after = [] := hne
        rw [← hs]
        simp [Spot.whole]
      have hy : s.followedBy y = (Spot.start y).precededBy x := by rw [hspot]; rfl
      have hnothing : e.findsOn s = [] := by
        rw [hspot, findsOn, findsFrom, he.findsAt_nil]
        rfl
      rw [hy, findsOn_precededBy hx, hnothing]
      rfl
    · have hat := findsAt_followedBy he hx hcross hs hne
      cases hf : (e.findsAt s).head? with
      | none =>
        have hf' : (e.findsAt (s.followedBy y)).head? = none := by rw [hat, List.head?_map, hf]; rfl
        rw [findsOn_of_none hf, findsOn_of_none hf']
        obtain ⟨before, after⟩ := s
        cases after with
        | nil => exact absurd rfl hne
        | cons c rest =>
          have hnext : Spot.whole ⟨c :: before, rest⟩ = x := by
            rw [← hs]
            exact Spot.Reaches.whole_eq (w := [c]) ⟨rfl, rfl⟩
          exact ih rest.length (by rw [← hn]; exact Nat.lt_succ_self _) hnext rfl
      | some f =>
        have hf' : (e.findsAt (s.followedBy y)).head? = some (f.followedBy y) := by rw [hat, List.head?_map, hf]; rfl
        obtain ⟨w, c, hw, -⟩ := he s f (List.mem_of_mem_head? hf)
        have hlonger : w ++ [c] ≠ [] := by simp
        have hlen := congrArg List.length hw.2
        simp only [List.length_append, List.length_singleton] at hlen
        rw [findsOn_of_some hf hw, findsOn_of_some hf' (hw.followedBy y), if_neg hlonger, if_neg hlonger, List.map_cons,
          List.cons_append]
        exact congrArg _ (ih f.stop.after.length (by omega) (hw.whole_eq.trans hs) rfl)

/-- Where no match runs across the border of two texts, of which the first ends a line, a search finds what it
    finds in the first and then what it finds in the second. -/
theorem finds_append (he : e.Solid) (hx : Text.EndsLine x) (hcross : ¬ e.Crosses x y) :
    e.finds (x ++ y) = (e.finds x).map (Find.followedBy y) ++ (e.finds y).map (Find.precededBy x) :=
  findsOn_followedBy (s := .start x) he hx hcross rfl

end Extractor

end LayerLint
