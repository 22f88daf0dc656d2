/-
  LayerLint.Proofs.Pattern.LineEnds: patterns that do not see how lines end.

  A text with carriage returns in its line ends has all spots of the text without them (`Spot.withReturns`), and
  one more in each line end, between the two characters (`Spot.inLineEnd`). Three things can be said of a pattern
  that carries over to such texts:
  - It is `Tight` if its matches end at the same spots.
  - It is `Loose` if they may also end inside line ends. So are runs that take a carriage return wherever they take
    a line feed (`loose_run`).
  - It `Refuses` line ends if no match starts inside one.
  What follows a loose pattern has to refuse line ends; both together are then tight (`Loose.seq`). An extractor
  made of such parts (`Steady.carries`, `carries_of_tight`) finds the same matches (`finds_withReturns`).
-/

import LayerLint.Proofs.Pattern.Words
import LayerLint.Proofs.Text.LineEnds
import Mathlib.Data.List.Basic

namespace LayerLint

open Text (CharSet)

/-! ## Spots -/

namespace Spot

def withReturns (s : Spot) : Spot := ⟨Text.backWithReturns s.before, Text.withReturns s.after⟩

def inLineEnd (s : Spot) : Bool := s.before.head? == some '\r' && s.after.head? == some '\n'

def Plain (s : Spot) : Prop := '\r' ∉ s.whole

variable {s t : Spot} {w : List Char}

theorem Plain.reached (hs : s.Plain) (h : s.Reaches w t) : t.Plain := by
  unfold Plain
  rw [h.whole_eq]
  exact hs

theorem Reaches.withReturns (h : s.Reaches w t) : s.withReturns.Reaches (Text.withReturns w) t.withReturns := by
  refine ⟨?_, ?_⟩
  · show Text.backWithReturns t.before = _ ++ Text.backWithReturns s.before
    rw [h.1, Text.backWithReturns_append]
    unfold Text.backWithReturns
    rw [List.reverse_reverse]
  · show Text.withReturns s.after = _ ++ Text.withReturns t.after
    rw [h.2, Text.withReturns_append]

/-- What stands before a spot stands before it in the other text too. -/
theorem head?_before_withReturns (s : Spot) : s.withReturns.before.head? = s.before.head? := by
  obtain ⟨before, after⟩ := s
  cases before with
  | nil => rfl
  | cons c before =>
    show (Text.backWithReturns (c :: before)).head? = some c
    by_cases hc : c = '\n'
    · subst hc
      rw [Text.backWithReturns_cons_feed]
      rfl
    · rw [Text.backWithReturns_cons_of_ne hc]
      rfl

/-- What stands after a spot is another character if a line end does. -/
theorem head?_after_withReturns (s : Spot) :
    s.withReturns.after.head? = if s.after.head? = some '\n' then some '\r' else s.after.head? := by
  obtain ⟨before, after⟩ := s
  cases after with
  | nil => rfl
  | cons c rest =>
    show (Text.withReturns (c :: rest)).head? = if some c = some '\n' then some '\r' else some c
    by_cases hc : c = '\n'
    · subst hc
      rfl
    · rw [Text.withReturns_cons_of_ne hc, if_neg (by simpa using hc)]
      rfl

/-- Spots of one text are in the same order in the other. -/
theorem place_withReturns_le_iff {text : List Char} (hs : s.whole = text) (ht : t.whole = text) :
    Text.byteSize s.withReturns.before ≤ Text.byteSize t.withReturns.before ↔
      Text.byteSize s.before ≤ Text.byteSize t.before := by
  have hback : ∀ s : Spot, Text.byteSize s.withReturns.before = Text.byteSize (Text.withReturns s.before.reverse) :=
    fun s => Text.byteSize_reverse _
  rw [hback, hback, ← Text.byteSize_reverse s.before, ← Text.byteSize_reverse t.before]
  exact Text.byteSize_withReturns_le_iff ⟨_, hs⟩ ⟨_, ht⟩

theorem inLineEnd_withReturns (hs : s.Plain) : s.withReturns.inLineEnd = false := by
  have hbefore : s.withReturns.before.head? ≠ some '\r' := by
    rw [head?_before_withReturns]
    intro h
    refine hs (List.mem_append_left _ (List.mem_reverse.mpr ?_))
    exact List.mem_of_mem_head? h
  simp [inLineEnd, hbefore]

end Spot

/-! ## Patterns -/

namespace Pattern

/-- Matches end at the same spots in the text with carriage returns. -/
def Tight (p : Pattern) : Prop := ∀ s : Spot, s.Plain → p.ends s.withReturns = (p.ends s).map Spot.withReturns

/-- Matches end at the same spots in the text with carriage returns, and maybe inside line ends. -/
def Loose (p : Pattern) : Prop :=
  ∀ s : Spot, s.Plain → ((p.ends s.withReturns).filter fun t => !t.inLineEnd) = (p.ends s).map Spot.withReturns

def Refuses (p : Pattern) : Prop := ∀ s : Spot, s.inLineEnd = true → p.ends s = []

structure Steady (p : Pattern) : Prop where
  tight : p.Tight
  refuses : p.Refuses

variable {p q : Pattern} {s : Spot}

section

variable {β : Type} {f g : Spot → List β}

theorem Tight.flatMap_ends (hp : p.Tight) (hs : s.Plain) (h : ∀ t : Spot, t.Plain → f t.withReturns = g t) :
    (p.ends s.withReturns).flatMap f = (p.ends s).flatMap g := by
  rw [hp s hs, List.flatMap_map]
  refine List.flatMap_congr fun t ht => ?_
  obtain ⟨w, hw⟩ := reaches_of_mem_ends ht
  exact h t (hs.reached hw)

/-- What finds nothing inside line ends does not see where a loose pattern ends in addition. -/
theorem Loose.flatMap_ends (hp : p.Loose) (hs : s.Plain) (hnone : ∀ t : Spot, t.inLineEnd = true → f t = [])
    (h : ∀ t : Spot, t.Plain → f t.withReturns = g t) :
    (p.ends s.withReturns).flatMap f = (p.ends s).flatMap g := by
  have hdrop : ∀ l : List Spot, l.flatMap f = (l.filter fun t => !t.inLineEnd).flatMap f := by
    intro l
    induction l with
    | nil => rfl
    | cons t l ih =>
      by_cases ht : t.inLineEnd = true
      · simp [ht, hnone t ht, ih]
      · simp [ht, ih]
  rw [hdrop, hp s hs, List.flatMap_map]
  refine List.flatMap_congr fun t ht => ?_
  obtain ⟨w, hw⟩ := reaches_of_mem_ends ht
  exact h t (hs.reached hw)

end

theorem Tight.seq (hp : p.Tight) (hq : q.Tight) : (seq p q).Tight := by
  intro s hs
  show (p.ends s.withReturns).flatMap q.ends = ((p.ends s).flatMap q.ends).map Spot.withReturns
  rw [List.map_flatMap]
  exact hp.flatMap_ends hs hq

theorem Loose.seq (hp : p.Loose) (hq : q.Steady) : (seq p q).Tight := by
  intro s hs
  show (p.ends s.withReturns).flatMap q.ends = ((p.ends s).flatMap q.ends).map Spot.withReturns
  rw [List.map_flatMap]
  exact hp.flatMap_ends hs hq.refuses hq.tight

theorem Steady.seq (hp : p.Steady) (hq : q.Tight) : (seq p q).Steady := by
  refine ⟨hp.tight.seq hq, ?_⟩
  intro s hs
  show (p.ends s).flatMap q.ends = []
  rw [hp.refuses s hs]
  rfl

theorem tight_empty : empty.Tight := fun _ _ => rfl

theorem Tight.either (hp : p.Tight) (hq : q.Tight) : (either p q).Tight := by
  intro s hs
  show p.ends s.withReturns ++ q.ends s.withReturns = (p.ends s ++ q.ends s).map Spot.withReturns
  rw [hp s hs, hq s hs, List.map_append]

theorem Tight.optional (hp : p.Tight) : (optional p).Tight := hp.either tight_empty

theorem Steady.either (hp : p.Steady) (hq : q.Steady) : (either p q).Steady := by
  refine ⟨hp.tight.either hq.tight, ?_⟩
  intro s hs
  show p.ends s ++ q.ends s = []
  rw [hp.refuses s hs, hq.refuses s hs]
  rfl

theorem steady_one {set : CharSet} (hn : set '\n' = false) (hr : set '\r' = false) : (one set).Steady := by
  refine ⟨?_, ?_⟩
  · rintro ⟨before, after⟩ -
    cases after with
    | nil => rfl
    | cons c rest =>
      by_cases hc : c = '\n'
      · subst hc
        simp [ends, Spot.next?, Spot.withReturns, Text.withReturns_cons, Text.returned, hn, hr]
      · by_cases hset : set c = true
        · simp [ends, Spot.next?, Spot.withReturns, Text.withReturns_cons_of_ne hc, Text.backWithReturns_cons_of_ne hc,
            hset]
        · simp [ends, Spot.next?, Spot.withReturns, Text.withReturns_cons_of_ne hc, hset]
  · rintro ⟨before, after⟩ hs
    cases after with
    | nil => rfl
    | cons c rest =>
      obtain rfl : c = '\n' := by simpa [Spot.inLineEnd] using (Bool.and_eq_true_iff.mp hs).2
      simp [ends, Spot.next?, hn]

theorem steady_wordEdge : wordEdge.Steady := by
  have hword : ∀ c, (if c = some '\n' then some '\r' else c).any Text.isWord = c.any Text.isWord := by
    intro c
    by_cases hc : c = some '\n'
    · subst hc
      decide
    · rw [if_neg hc]
  refine ⟨?_, ?_⟩
  · intro s hs
    have hedge : s.withReturns.atWordEdge = s.atWordEdge := by
      unfold Spot.atWordEdge
      rw [Spot.head?_before_withReturns, Spot.head?_after_withReturns, hword]
    show (if s.withReturns.atWordEdge then [s.withReturns] else []) = _
    rw [hedge, ends]
    cases s.atWordEdge with
    | true => rfl
    | false => rfl
  · intro s hs
    obtain ⟨hr, hn⟩ := Bool.and_eq_true_iff.mp hs
    have hedge : s.atWordEdge = false := by
      unfold Spot.atWordEdge
      rw [beq_iff_eq.mp hr, beq_iff_eq.mp hn]
      decide
    rw [ends, hedge]
    rfl

theorem steady_lineStart : lineStart.Steady := by
  have hstart : ∀ s : Spot, s.atLineStart = (s.before.head?.all (· == '\n')) := by
    rintro ⟨before, after⟩
    cases before with
    | nil => rfl
    | cons c before => rfl
  refine ⟨?_, ?_⟩
  · intro s hs
    show (if s.withReturns.atLineStart then [s.withReturns] else []) = _
    rw [hstart, Spot.head?_before_withReturns, ← hstart, ends]
    cases s.atLineStart with
    | true => rfl
    | false => rfl
  · intro s hs
    have hfalse : s.atLineStart = false := by
      rw [hstart, beq_iff_eq.mp (Bool.and_eq_true_iff.mp hs).1]
      rfl
    rw [ends, hfalse]
    rfl

theorem tight_inOrder {ps : List Pattern} (h : ∀ p ∈ ps, p.Tight) : (inOrder ps).Tight :=
  inOrder_induction tight_empty (fun _ _ hp hq => hp.seq hq) h

/-- No match starts inside a line end if the first part does not. -/
theorem Steady.inOrder {ps : List Pattern} (hp : p.Steady) (h : ∀ q ∈ ps, q.Tight) : (inOrder (p :: ps)).Steady := by
  cases ps with
  | nil => exact hp
  | cons q qs => exact hp.seq (tight_inOrder h)

theorem tight_oneOf {ps : List Pattern} (hp : p.Tight) (h : ∀ q ∈ ps, q.Tight) : (oneOf p ps).Tight := by
  induction ps generalizing p with
  | nil => exact hp
  | cons q qs ih => exact hp.either (ih (h q List.mem_cons_self) fun r hr => h r (List.mem_cons_of_mem q hr))

/-- A word without line ends. -/
theorem steady_text {word : String} (h : word.toList ≠ [] ∧ '\n' ∉ word.toList ∧ '\r' ∉ word.toList) :
    (text word).Steady := by
  obtain ⟨hne, hn, hr⟩ := h
  have hone : ∀ a ∈ word.toList, (one (· == a)).Steady := by
    intro a ha
    refine steady_one ?_ ?_
    · rw [beq_eq_false_iff_ne]
      rintro rfl
      exact hn ha
    · rw [beq_eq_false_iff_ne]
      rintro rfl
      exact hr ha
  unfold text
  cases hword : word.toList with
  | nil => exact absurd hword hne
  | cons c rest =>
    rw [hword] at hone
    refine (hone c List.mem_cons_self).inOrder fun p hp => ?_
    obtain ⟨a, ha, rfl⟩ := List.mem_map.mp hp
    exact (hone a (List.mem_cons_of_mem c ha)).tight

/-! ### Runs -/

section

variable {set : CharSet}

theorem mem_reached {before after : List Char} {t : Spot} (h : t ∈ reached set before after) :
    ∃ w, Spot.Reaches ⟨before, after⟩ w t ∧ ∀ c ∈ w, set c = true := by
  have hm : t ∈ runSpots set before [] none after := by
    rw [runSpots_none, List.append_nil]
    exact List.mem_reverse.mpr h
  rcases mem_runSpots hm with h | h
  · cases h
  · exact h

/-- Taking a carriage return with every line feed leads to the same spots, apart from those inside line ends. -/
theorem filter_reached (hret : set '\n' = true → set '\r' = true) {before after : List Char}
    (hs : Spot.Plain ⟨before, after⟩) :
    ((reached set (Text.backWithReturns before) (Text.withReturns after)).filter fun t => !t.inLineEnd) =
      (reached set before after).map Spot.withReturns := by
  induction after generalizing before with
  | nil =>
    have hhere : Spot.inLineEnd ⟨Text.backWithReturns before, []⟩ = false := Spot.inLineEnd_withReturns hs
    exact List.filter_cons_of_pos (by simpa using hhere)
  | cons c rest ih =>
    have hhere : Spot.inLineEnd ⟨Text.backWithReturns before, Text.withReturns (c :: rest)⟩ = false :=
      Spot.inLineEnd_withReturns hs
    have hnext : Spot.Plain ⟨c :: before, rest⟩ := hs.reached (w := [c]) ⟨rfl, rfl⟩
    have hrest := ih hnext
    by_cases hc : c = '\n'
    · subst hc
      rw [Text.backWithReturns_cons_feed] at hrest
      rw [Text.withReturns_cons_feed] at hhere ⊢
      have hinside : Spot.inLineEnd ⟨'\r' :: Text.backWithReturns before, '\n' :: Text.withReturns rest⟩ = true := rfl
      rw [reached, List.filter_cons_of_pos (by simpa using hhere), reached, reached, List.map_cons]
      refine congrArg _ ?_
      by_cases hn : set '\n' = true
      · rw [if_pos (hret hn), if_pos hn, if_pos hn, List.filter_cons_of_neg (by simpa using hinside)]
        exact hrest
      · rw [if_neg hn, if_neg hn]
        by_cases hr : set '\r' = true
        · rw [if_pos hr, List.filter_cons_of_neg (by simpa using hinside)]
          rfl
        · rw [if_neg hr]
          rfl
    · rw [Text.backWithReturns_cons_of_ne hc] at hrest
      rw [Text.withReturns_cons_of_ne hc] at hhere ⊢
      have hspot : Spot.withReturns ⟨before, c :: rest⟩ =
          ⟨Text.backWithReturns before, c :: Text.withReturns rest⟩ := by
        rw [Spot.withReturns, Text.withReturns_cons_of_ne hc]
      rw [reached, List.filter_cons_of_pos (by simpa using hhere), reached, List.map_cons, hspot]
      refine congrArg _ ?_
      by_cases hset : set c = true
      · rw [if_pos hset, if_pos hset]
        exact hrest
      · rw [if_neg hset, if_neg hset]
        rfl

/-- A run is as long in both texts if it takes no line feed, so a least length matters in one as in the other. -/
theorem far_withReturns_iff {least : Nat} (hleast : least = 0 ∨ set '\n' = false) {s t : Spot} {w : List Char}
    (hw : s.Reaches w t) (hset : ∀ c ∈ w, set c = true) :
    s.withReturns.position + least ≤ t.withReturns.position ↔ s.position + least ≤ t.position := by
  rw [hw.withReturns.position_eq, hw.position_eq]
  rcases hleast with rfl | hn
  · omega
  · have hfeed : '\n' ∉ w := by
      intro hm
      rw [hset _ hm] at hn
      cases hn
    rw [Text.withReturns_eq_self hfeed]
    omega

theorem loose_run {least : Nat} {appetite : Appetite} (hret : set '\n' = true → set '\r' = true)
    (hleast : least = 0 ∨ set '\n' = false) : (run set least none appetite).Loose := by
  intro s hs
  have hends : ((runEnds set least none s.withReturns).filter fun t => !t.inLineEnd) =
      (runEnds set least none s).map Spot.withReturns := by
    unfold runEnds
    rw [List.filter_comm, runSpots_none, runSpots_none, List.append_nil, List.append_nil, List.filter_reverse]
    have hreached : ((reached set s.withReturns.before s.withReturns.after).filter fun t => !t.inLineEnd) =
        (reached set s.before s.after).map Spot.withReturns := filter_reached hret hs
    rw [hreached, ← List.map_reverse, List.filter_map]
    refine congrArg _ (List.filter_congr fun t ht => ?_)
    obtain ⟨w, hw, hset⟩ := mem_reached (List.mem_reverse.mp ht)
    exact decide_eq_decide.mpr (far_withReturns_iff hleast hw hset)
  cases appetite with
  | greedy => exact hends
  | lazy =>
    show ((runEnds set least none s.withReturns).reverse.filter fun t => !t.inLineEnd) =
      (runEnds set least none s).reverse.map Spot.withReturns
    rw [List.filter_reverse, hends, List.map_reverse]

/-- A run that takes neither character of a line end ends before it. -/
theorem tight_run {least : Nat} {appetite : Appetite} (hn : set '\n' = false) (hr : set '\r' = false) :
    (run set least none appetite).Tight := by
  intro s hs
  have hloose : (run set least none appetite).Loose := loose_run (fun h => absurd h (by simp [hn])) (.inr hn)
  rw [← hloose s hs, eq_comm, List.filter_eq_self]
  intro t ht
  obtain ⟨w, hw, hset⟩ := reaches_of_mem_run ht
  rcases List.eq_nil_or_concat w with rfl | ⟨front, c, rfl⟩
  · rw [Spot.reaches_nil.mp hw, Spot.inLineEnd_withReturns hs]
    rfl
  · have hc : c ≠ '\r' := by
      rintro rfl
      rw [hset _ (by simp)] at hr
      cases hr
    simp [Spot.inLineEnd, hw.1, hc]

end

end Pattern

/-! ## Searches -/

def Find.withReturns (f : Find) : Find := ⟨f.first.withReturns, f.last.withReturns, f.stop.withReturns⟩

theorem Find.content_withReturns {f : Find} {w : List Char} (h : f.first.Reaches w f.last) :
    f.withReturns.content = Text.withReturns f.content := by
  have hcontent : f.content = w := h.textTo_eq
  rw [hcontent]
  exact h.withReturns.textTo_eq

namespace Extractor

/-- Matches are found again in the text with carriage returns, and no others. -/
structure Carries (e : Extractor) : Prop where
  refuses : ∀ s : Spot, s.inLineEnd = true → e.findsAt s = []
  carries : ∀ s : Spot, s.Plain → e.findsAt s.withReturns = (e.findsAt s).map Find.withReturns

structure Steady (e : Extractor) : Prop where
  lead : e.lead.Steady
  body : e.body.Loose
  trail : e.trail.Steady

variable {e : Extractor} {s : Spot}

theorem findsAt_eq_nil_of_lead (h : e.lead.ends s = []) : e.findsAt s = [] := by
  rw [findsAt, h]
  rfl

theorem Steady.carries (he : e.Steady) : e.Carries := by
  refine ⟨fun s hs => findsAt_eq_nil_of_lead (he.lead.refuses s hs), fun s hs => ?_⟩
  unfold findsAt
  rw [List.map_flatMap]
  refine he.lead.tight.flatMap_ends hs fun first hfirst => ?_
  rw [List.map_flatMap]
  refine he.body.flatMap_ends hfirst ?_ ?_
  · intro last hlast
    rw [he.trail.refuses last hlast]
    rfl
  · intro last hlast
    rw [he.trail.tight last hlast, List.map_map, List.map_map]
    rfl

/-- Where the middle part does not end inside a line end, the last part need not refuse one. -/
theorem carries_of_tight (hlead : e.lead.Steady) (hbody : e.body.Tight) (htrail : e.trail.Tight) : e.Carries := by
  refine ⟨fun s hs => findsAt_eq_nil_of_lead (hlead.refuses s hs), fun s hs => ?_⟩
  unfold findsAt
  rw [List.map_flatMap]
  refine hlead.tight.flatMap_ends hs fun first hfirst => ?_
  rw [List.map_flatMap]
  refine hbody.flatMap_ends hfirst fun last hlast => ?_
  rw [htrail last hlast, List.map_map, List.map_map]
  rfl

/-- Going on by a whole line end is going on by a line feed. -/
theorem Carries.findsPast_withReturns (he : e.Carries) (c : Char) (before rest : List Char) :
    e.findsPast (Spot.withReturns ⟨before, c :: rest⟩) = e.findsOn (Spot.withReturns ⟨c :: before, rest⟩) := by
  by_cases hc : c = '\n'
  · subst hc
    have hinside : Spot.inLineEnd ⟨'\r' :: Text.backWithReturns before, '\n' :: Text.withReturns rest⟩ = true := rfl
    show e.findsOn ⟨'\r' :: Text.backWithReturns before, '\n' :: Text.withReturns rest⟩ = _
    rw [findsOn_of_none (by rw [he.refuses _ hinside]; rfl), Spot.withReturns, Text.backWithReturns_cons_feed]
    rfl
  · unfold Spot.withReturns
    rw [Text.backWithReturns_cons_of_ne hc, Text.withReturns_cons_of_ne hc]
    rfl

theorem Carries.findsOn_withReturns (he : e.Carries) (hs : s.Plain) :
    e.findsOn s.withReturns = (e.findsOn s).map Find.withReturns := by
  -- on the text after the spot: a search goes on behind the next character, or behind a match
  induction hn : s.after.length using Nat.strongRecOn generalizing s with
  | ind n ih =>
    have hpast : e.findsPast s.withReturns = (e.findsPast s).map Find.withReturns := by
      obtain ⟨before, after⟩ := s
      cases after with
      | nil => rfl
      | cons c rest =>
        have hnext : Spot.Plain ⟨c :: before, rest⟩ := hs.reached (w := [c]) ⟨rfl, rfl⟩
        rw [he.findsPast_withReturns]
        exact ih rest.length (by rw [← hn]; exact Nat.lt_succ_self _) hnext rfl
    have hhead : (e.findsAt s.withReturns).head? = (e.findsAt s).head?.map Find.withReturns := by
      rw [he.carries s hs, List.head?_map]
    cases hf : (e.findsAt s).head? with
    | none =>
      rw [hf] at hhead
      rw [findsOn_of_none hf, findsOn_of_none hhead, hpast]
    | some f =>
      rw [hf] at hhead
      obtain ⟨w, hw⟩ := stop_reached (List.mem_of_mem_head? hf)
      rw [findsOn_of_some hf hw, findsOn_of_some hhead hw.withReturns, List.map_cons]
      refine congrArg _ ?_
      by_cases hempty : w = []
      · subst hempty
        rw [if_pos rfl]
        exact hpast
      · rw [if_neg hempty, if_neg (Text.withReturns_ne_nil hempty)]
        have hlen := congrArg List.length hw.2
        have hpos := List.length_pos_iff.mpr hempty
        rw [List.length_append] at hlen
        exact ih f.stop.after.length (by omega) (hs.reached hw) rfl

theorem Carries.finds_withReturns (he : e.Carries) {text : List Char} (h : '\r' ∉ text) :
    e.finds (Text.withReturns text) = (e.finds text).map Find.withReturns :=
  he.findsOn_withReturns (s := .start text) h

end Extractor

end LayerLint
