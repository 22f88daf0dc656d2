/-
  LayerLint.Proofs.Report.Counts: the counts of violations agree.

  A report counts its violations in four ways: in all, by rule, by severity, and down to a threshold. None of them is
  kept; each is counted in the lists of the rules when it is asked for. These lists hold what the checks found, in
  another order (`all_perm`), so the counts are those of what was found, whatever check it came from
  (`countOf_aggregate`, `length_get_aggregate`). A threshold counts the severities that reach it
  (`countAtLeast_eq_sum`), and so never less if it is lighter (`countAtLeast_mono`) and all if it is the lightest.
-/

import LayerLint.Proofs.Report.Listing
import LayerLint.Proofs.Tally

namespace LayerLint

theorem Severity.all_nodup : all.Nodup := by decide

theorem Severity.atLeast_low (s : Severity) : s.atLeast .low = true := by cases s <;> rfl

namespace Report

/-! ## Counts of a report -/

theorem sum_countOf (r : Report) : (Severity.all.map r.countOf).sum = r.total := by
  rw [total_eq_length]
  exact Tally.sum_countP_label Severity.all_nodup r.all fun v _ => v.severity.mem_all

theorem countAtLeast_eq_sum (r : Report) (threshold : Severity) :
    r.countAtLeast threshold = ((Severity.all.filter fun s => s.atLeast threshold).map r.countOf).sum :=
  (Tally.sum_countP_filter_label Severity.all_nodup (·.atLeast threshold) r.all fun v _ => v.severity.mem_all).symm

theorem countAtLeast_mono (r : Report) {graver lighter : Severity} (h : graver.rank ≤ lighter.rank) :
    r.countAtLeast graver ≤ r.countAtLeast lighter := by
  apply List.countP_mono_left
  intro v _ hv
  simp only [Severity.atLeast, decide_eq_true_eq] at hv ⊢
  omega

theorem countAtLeast_low (r : Report) : r.countAtLeast .low = r.total := by
  rw [total_eq_length]
  exact List.countP_eq_length.mpr fun v _ => v.severity.atLeast_low

/-! ## What the checks found -/

variable (outputs : List Check.Output) (units : List SourceUnit) (graph : Graph)

theorem total_aggregate :
    (aggregate outputs units graph).total = (outputs.map fun output => output.violations.length).sum := by
  rw [total_eq_length, (all_perm outputs units graph).length_eq, List.length_flatMap]

theorem countOf_aggregate (s : Severity) :
    (aggregate outputs units graph).countOf s = (outputs.flatMap (·.violations)).countP fun v => v.severity = s :=
  (all_perm outputs units graph).countP_eq _

theorem length_get_aggregate (rule : Rule) :
    ((aggregate outputs units graph).violations.get rule).length =
      (outputs.flatMap (·.violations)).countP fun v => v.rule = rule := by
  rw [aggregate, PerRule.get_ofFn, (bySeverity_perm _ rule).length_eq, List.countP_eq_length_filter]

structure CountsAgree (outputs : List Check.Output) (r : Report) : Prop where
  threshold : ∀ t, r.countAtLeast t = ((Severity.all.filter fun s => s.atLeast t).map r.countOf).sum
  severities : (Severity.all.map r.countOf).sum = r.total
  rules : (Rule.all.map fun rule => (r.violations.get rule).length).sum = r.total
  found : (outputs.map fun output => output.violations.length).sum = r.total
  bySeverity : ∀ s, r.countOf s = (outputs.flatMap (·.violations)).countP fun v => v.severity = s
  byRule : ∀ rule, (r.violations.get rule).length = (outputs.flatMap (·.violations)).countP fun v => v.rule = rule
  monotone : ∀ s t : Severity, s.rank ≤ t.rank → r.countAtLeast s ≤ r.countAtLeast t
  lightest : r.countAtLeast .low = r.total

/-- Whatever the checks found, and under whichever rules, the counts of the report agree. -/
theorem aggregate_counts_agree : CountsAgree outputs (aggregate outputs units graph) where
  threshold := countAtLeast_eq_sum _
  severities := sum_countOf _
  rules := List.sum_eq_foldr
  found := (total_aggregate outputs units graph).symm
  bySeverity := countOf_aggregate outputs units graph
  byRule := length_get_aggregate outputs units graph
  monotone _ _ h := countAtLeast_mono _ h
  lightest := countAtLeast_low _

end Report

end LayerLint
