/-
  LayerLint.Proofs.Report.Verdict: whether a report passes a check, and how the outputs tell.

  A report passes a threshold when no violation of any rule is at least as grave (`passes_iff`), so it
  passes every graver threshold too (`passes_of_graver`). Each renderer judges a check for itself, and both come to
  that verdict (`passed_judgeJson`, `passed_judgeText`). The outputs tell it: the JSON document by a flag
  (`passed_checkJson`), and the text by one of two words that occur nowhere else in it in that style, however
  the violations are worded (`verdictSpan_mem_checkText`).
-/

import LayerLint.Report.Text

namespace LayerLint

namespace Report

variable {r : Report}

/-! ## The threshold -/

theorem mem_all {v : Violation} : v ∈ r.all ↔ ∃ rule, v ∈ r.violations.get rule :=
  List.mem_flatMap.trans ⟨fun ⟨rule, _, h⟩ => ⟨rule, h⟩, fun ⟨rule, h⟩ => ⟨rule, rule.mem_all, h⟩⟩

theorem passes_iff {threshold : Severity} :
    r.passes threshold = true ↔ ∀ rule, ∀ v ∈ r.violations.get rule, threshold.rank < v.severity.rank := by
  simp only [passes, countAtLeast, beq_iff_eq, List.countP_eq_zero, mem_all, Severity.atLeast, decide_eq_true_eq,
    Nat.not_le]
  exact ⟨fun h rule v hv => h v ⟨rule, hv⟩, fun h v ⟨rule, hv⟩ => h rule v hv⟩

theorem not_passes_iff {threshold : Severity} :
    r.passes threshold = false ↔ ∃ rule, ∃ v ∈ r.violations.get rule, v.severity.rank ≤ threshold.rank := by
  rw [← Bool.not_eq_true, passes_iff]
  simp

theorem passes_of_graver {threshold graver : Severity} (h : graver.rank ≤ threshold.rank)
    (hp : r.passes threshold = true) : r.passes graver = true := by
  rw [passes_iff] at hp ⊢
  intro rule v hv
  have := hp rule v hv
  omega

/-! ## The outputs -/

theorem passed_judgeJson (threshold : Severity) : (r.judgeJson threshold).passed = r.passes threshold := rfl

theorem passed_judgeText (threshold : Severity) : (r.judgeText threshold).passed = r.passes threshold := rfl

theorem passed_checkJson (threshold : Severity) :
    ((r.checkJson threshold).get? "check").bind (·.get? "passed") = some (.bool (r.passes threshold)) := rfl

def verdictSpan (passed : Bool) : Span :=
  if passed then ⟨.boldColored .green, "CHECK PASSED"⟩ else ⟨.boldColored .red, "CHECK FAILED"⟩

theorem boldColored_mem_violationText {v : Violation} {color : Color} {text : String}
    (h : ⟨.boldColored color, text⟩ ∈ violationText v) : text = "CRITICAL" := by
  have hlabel : ∀ severity, (⟨.boldColored color, text⟩ : Span) = severityLabel severity → text = "CRITICAL" := by
    intro severity hs
    cases severity with
    | critical => exact congrArg Span.text hs
    | _ => cases hs
  unfold violationText at h
  rcases List.mem_append.mp h with h | h
  · simp only [List.mem_cons, Span.mk.injEq, reduceCtorEq, false_and, List.not_mem_nil, or_false, false_or] at h
    exact hlabel v.severity h
  · cases hv : v.suggestion <;> simp [hv] at h

theorem boldColored_mem_ruleText {o : TextOptions} {rule : Rule} {violations : List Violation} {color : Color}
    {text : String} (h : ⟨.boldColored color, text⟩ ∈ ruleText o rule violations) : text = "CRITICAL" := by
  unfold ruleText at h
  split at h
  · cases h
  · rcases List.mem_append.mp h with h | h
    · rcases List.mem_append.mp h with h | h
      · simp at h
      · obtain ⟨v, -, hv⟩ := List.mem_flatMap.mp h
        exact boldColored_mem_violationText hv
    · unfold moreText at h
      split at h <;> simp at h

/-- The words in a bold colour, of which the outcome of a check is none. -/
theorem boldColored_mem_text {o : TextOptions} {color : Color} {text : String}
    (h : ⟨.boldColored color, text⟩ ∈ r.text o) :
    text ∈ ["No violations found!", "Violations", "CRITICAL"] := by
  unfold Report.text at h
  rcases List.mem_append.mp h with h | h
  · simp [summaryText, Styled.plain, ProjectMetrics.fileCounts] at h
  · split at h
    · obtain ⟨-, rfl⟩ : color = .green ∧ text = "No violations found!" := by simpa using h
      decide
    · rcases List.mem_append.mp h with h | h
      · rcases List.mem_append.mp h with h | h
        · obtain ⟨-, rfl⟩ : color = .red ∧ text = "Violations" := by simpa [totalsText] using h
          decide
        · obtain ⟨rule, -, hr⟩ := List.mem_flatMap.mp h
          simp [boldColored_mem_ruleText hr]
      · simp [Styled.plain] at h

theorem checkText_eq (threshold : Severity) : ∃ line,
    r.checkText threshold = r.text .default ++ [verdictSpan (r.passes threshold), ⟨.plain, line⟩] := by
  cases h : r.passes threshold with
  | true => exact ⟨_, congrArg (r.text .default ++ ·) (if_pos h)⟩
  | false => exact ⟨_, congrArg (r.text .default ++ ·) (if_neg (Bool.eq_false_iff.mp h))⟩

theorem verdictSpan_mem_checkText {threshold : Severity} {passed : Bool} :
    verdictSpan passed ∈ r.checkText threshold ↔ r.passes threshold = passed := by
  have hnot : verdictSpan passed ∉ r.text .default := by
    intro h
    cases passed with
    | true => exact absurd (boldColored_mem_text h) (by decide)
    | false => exact absurd (boldColored_mem_text h) (by decide)
  obtain ⟨line, hline⟩ := checkText_eq (r := r) threshold
  rw [hline, List.mem_append, or_iff_right hnot]
  cases passed <;> cases r.passes threshold <;> simp [verdictSpan]

end Report

end LayerLint
