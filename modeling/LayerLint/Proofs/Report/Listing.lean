/-
  LayerLint.Proofs.Report.Listing: what the options of a text report hide.

  A text report has one section for each rule between an opening and a closing that do not ask for the options
  (`text_eq`). The violations of a rule are sorted by severity, so those that are grave enough are the first ones
  (`visible_eq_take`), and the limit then takes the first of these (`shown_eq_take`): the options only ever hide the end
  of a list, and nothing that is hidden is graver than what is shown (`text_shows_first`).
-/

import LayerLint.Proofs.Report.Partition
import LayerLint.Proofs.Report.Verdict

namespace LayerLint.Report

/-! ## The parts of a text -/

def opening (r : Report) : Styled := r.summaryText ++ if r.total = 0 then [] else r.totalsText

def closing (r : Report) : Styled :=
  if r.total = 0 then [⟨.plain, "\n"⟩, ⟨.boldColored .green, "No violations found!"⟩, ⟨.plain, "\n\n"⟩]
  else Styled.plain "\n"

def headingText (rule : Rule) (n : Nat) : Styled :=
  [⟨.plain, "\n"⟩, ⟨.bold, title rule⟩, ⟨.plain, s!" ({n})\n"⟩]

def restText (n : Nat) : Styled := [⟨.plain, "  "⟩, ⟨.dimmed, s!"... and {n} more"⟩, ⟨.plain, "\n"⟩]

theorem total_eq_length (r : Report) : r.total = r.all.length := by
  simp [total, all, Rule.all]

theorem get_eq_nil_of_total {r : Report} (h : r.total = 0) (rule : Rule) : r.violations.get rule = [] := by
  rw [total_eq_length, List.length_eq_zero_iff] at h
  rw [List.eq_nil_iff_forall_not_mem]
  intro v hv
  have hall : v ∈ r.all := mem_all.mpr ⟨rule, hv⟩
  rw [h] at hall
  cases hall

variable (o : TextOptions)

theorem ruleText_nil (rule : Rule) : ruleText o rule [] = [] := by
  unfold ruleText visible
  cases o.minSeverity <;> rfl

theorem text_eq (r : Report) :
    r.text o = r.opening ++ (Rule.all.flatMap fun rule => ruleText o rule (r.violations.get rule)) ++ r.closing := by
  unfold text opening closing
  by_cases h : r.total = 0
  · have hnone : (Rule.all.flatMap fun rule => ruleText o rule (r.violations.get rule)) = [] := by
      rw [List.flatMap_eq_nil_iff]
      intro rule _
      rw [get_eq_nil_of_total h, ruleText_nil]
    simp only [if_pos h, hnone, List.append_nil]
  · simp only [if_neg h, List.append_assoc]

/-! ## Sections -/

/-- Whether a violation is grave enough to be shown. The lightest severity is the least that can be asked for. -/
def graveEnough (v : Violation) : Bool := v.severity.atLeast (o.minSeverity.getD .low)

theorem visible_eq_filter (violations : List Violation) : visible o violations = violations.filter (graveEnough o) := by
  unfold visible graveEnough
  cases o.minSeverity with
  | some least => rfl
  | none =>
    refine (List.filter_eq_self.mpr fun v _ => ?_).symm
    cases v.severity <;> rfl

theorem graveEnough_of_graver {v w : Violation} (h : v.severity.rank ≤ w.severity.rank)
    (hw : graveEnough o w = true) : graveEnough o v = true := by
  simp only [graveEnough, Severity.atLeast, decide_eq_true_eq] at hw ⊢
  omega

variable {o} {violations : List Violation}

theorem moreText_of_left {n : Nat} (h : (visible o violations).length - (shown o violations).length = n) :
    moreText o violations = if n = 0 then [] else restText n := by
  unfold moreText
  rw [h]
  cases n with
  | zero => rfl
  | succ n => rfl

section

variable {k limit : Nat} (hk : violations.countP (graveEnough o) = k) (hlimit : o.limit.getD k = limit)
  (hsorted : GravestFirst violations)

include hk

theorem length_visible : (visible o violations).length = k := by
  rw [visible_eq_filter, ← List.countP_eq_length_filter, hk]

include hsorted

theorem visible_eq_take : visible o violations = violations.take k := by
  rw [visible_eq_filter, ← hk]
  exact Sorting.filter_eq_take (hsorted.imp fun h => graveEnough_of_graver o h)

include hlimit

theorem shown_eq_take : shown o violations = violations.take (min limit k) := by
  unfold shown
  rw [visible_eq_take hk hsorted, ← hlimit]
  cases o.limit with
  | some n => exact List.take_take
  | none => rw [Option.getD_none, Nat.min_self]

theorem moreText_eq : moreText o violations = if limit < k then restText (k - limit) else [] := by
  have hle : k ≤ violations.length := hk ▸ List.countP_le_length
  have hleft : (visible o violations).length - (shown o violations).length = k - limit := by
    rw [length_visible hk, shown_eq_take hk hlimit hsorted, List.length_take]
    omega
  rw [moreText_of_left hleft]
  by_cases h : limit < k
  · rw [if_pos h, if_neg (by omega)]
  · rw [if_neg h, if_pos (by omega)]

theorem ruleText_eq (rule : Rule) :
    ruleText o rule violations =
      if k = 0 then []
      else headingText rule k ++ (violations.take (min limit k)).flatMap violationText ++
        if limit < k then restText (k - limit) else [] := by
  unfold ruleText
  rw [length_visible hk, shown_eq_take hk hlimit hsorted, moreText_eq hk hlimit hsorted]
  cases k with
  | zero => rfl
  | succ n => rfl

end

/-- What comes later in a sorted list is not graver. -/
theorem rank_le_of_mem_take_drop (hsorted : GravestFirst violations) (n : Nat) {v w : Violation}
    (hv : v ∈ violations.take n) (hw : w ∈ violations.drop n) : v.severity.rank ≤ w.severity.rank := by
  rw [GravestFirst, ← List.take_append_drop n violations, List.pairwise_append] at hsorted
  exact hsorted.2.2 v hv w hw

/-- The section of a rule that lists these violations, of which `k` are grave enough: there is none if `k` is zero,
    and else one with `k` in its heading, the first violations up to the limit in their order, and a line on the others
    exactly if there are more than the limit. What is not shown is not graver than what is. -/
structure ShowsFirst (o : TextOptions) (rule : Rule) (listed : List Violation) (k limit : Nat) : Prop where
  omitted : ruleText o rule listed = [] ↔ k = 0
  printed : k ≠ 0 → ruleText o rule listed =
    headingText rule k ++ (listed.take (min limit k)).flatMap violationText ++
      if k > limit then restText (k - limit) else []
  hidden : ∀ v ∈ listed.take (min limit k), ∀ w ∈ listed.drop (min limit k), v.severity.rank ≤ w.severity.rank

theorem showsFirst {k limit : Nat} (hk : violations.countP (graveEnough o) = k) (hlimit : o.limit.getD k = limit)
    (hsorted : GravestFirst violations) (rule : Rule) :
    ShowsFirst o rule violations k limit := by
  have htext := ruleText_eq hk hlimit hsorted rule
  refine ⟨?_, ?_, fun v hv w hw => rank_le_of_mem_take_drop hsorted _ hv hw⟩
  · rw [htext]
    constructor
    · intro h
      by_cases hzero : k = 0
      · exact hzero
      · rw [if_neg hzero] at h
        cases h
    · intro hzero
      rw [if_pos hzero]
  · intro hzero
    rw [htext, if_neg hzero]

/-- The text of a report shows the beginning of each rule's violations. The opening, with all counts, and the closing
    do not depend on the options, which only say where the list of a rule ends. -/
theorem text_shows_first (outputs : List Check.Output) (units : List SourceUnit) (graph : Graph) (o : TextOptions) :
    let r := aggregate outputs units graph
    r.text o = r.opening ++ (Rule.all.flatMap fun rule => ruleText o rule (r.violations.get rule)) ++ r.closing ∧
      ∀ rule,
        let listed := r.violations.get rule
        let k := listed.countP fun v => v.severity.atLeast (o.minSeverity.getD .low)
        ShowsFirst o rule listed k (o.limit.getD k) := by
  intro r
  refine ⟨text_eq o r, ?_⟩
  intro rule listed k
  have hsorted : GravestFirst listed := gravestFirst_aggregate outputs units graph rule
  exact showsFirst rfl rfl hsorted rule

def misnamed (file : String) (severity : Severity) : Violation :=
  ⟨.naming, .naming file "Order.ts", severity, ⟨file, none⟩, "", none⟩

def mixedOutput : Check.Output :=
  ⟨.hardcodedSecret, [misnamed "a.ts" .low, misnamed "b.ts" .high, misnamed "c.ts" .critical, misnamed "d.ts" .medium]⟩

/-- Two violations are grave enough, and one of them is shown. -/
theorem text_shows_first_mixed :
    let listed := (aggregate [mixedOutput] [] .empty).violations.get .naming
    (listed.countP fun v => v.severity.atLeast .high) = 2 ∧
      ruleText ⟨some .high, some 1⟩ .naming listed =
        headingText .naming 2 ++ violationText (misnamed "c.ts" .critical) ++ restText 1 ∧
      misnamed "c.ts" .critical ∈ listed.take 1 ∧ misnamed "b.ts" .high ∈ listed.drop 1 ∧
      (misnamed "c.ts" .critical).severity.rank ≤ (misnamed "b.ts" .high).severity.rank := by
  intro listed
  have hlisted : listed =
      [misnamed "c.ts" .critical, misnamed "b.ts" .high, misnamed "d.ts" .medium, misnamed "a.ts" .low] := by
    show bySeverity _ .naming = _
    rw [bySeverity_eq_flatMap]
    decide +kernel
  have hk : (listed.countP fun v => v.severity.atLeast .high) = 2 := by rw [hlisted]; decide
  have hfirst : listed.take 1 = [misnamed "c.ts" .critical] := by rw [hlisted]; rfl
  have hshown : misnamed "c.ts" .critical ∈ listed.take 1 := by rw [hfirst]; exact List.mem_cons_self
  have hrest : misnamed "b.ts" .high ∈ listed.drop 1 := by rw [hlisted]; exact List.mem_cons_self
  obtain ⟨-, hrules⟩ := text_shows_first [mixedOutput] [] .empty ⟨some .high, some 1⟩
  have hnaming : ShowsFirst ⟨some .high, some 1⟩ .naming listed 2 1 := hk ▸ hrules .naming
  refine ⟨hk, ?_, hshown, hrest, hnaming.hidden _ hshown _ hrest⟩
  rw [hnaming.printed (by decide)]
  show headingText .naming 2 ++ (listed.take 1).flatMap violationText ++ restText 1 = _
  rw [hfirst, List.flatMap_singleton]

end LayerLint.Report
