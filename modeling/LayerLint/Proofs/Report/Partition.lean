/-
  LayerLint.Proofs.Report.Partition: a report sorts what the checks found into rules and severities.

  The violations of a rule are those that carry it, the critical ones first, then the high, the medium and the low
  ones, and within a severity in the order in which they were found (`bySeverity_eq_flatMap`). Each violation carries
  one rule, so none is lost and none is listed twice (`all_perm`).
-/

import LayerLint.Proofs.Sorting
import LayerLint.Report.Basic

namespace LayerLint

theorem Severity.all_pairwise_rank : all.Pairwise fun s t => s.rank < t.rank := by decide

theorem Rule.all_nodup : all.Nodup := by decide

namespace Report

theorem bySeverity_perm (violations : List Violation) (rule : Rule) :
    (bySeverity violations rule).Perm (violations.filter fun v => v.rule = rule) :=
  List.mergeSort_perm _ _

/-- No violation comes before a graver one. -/
def GravestFirst (violations : List Violation) : Prop :=
  violations.Pairwise fun v w => v.severity.rank ≤ w.severity.rank

theorem gravestFirst_bySeverity (violations : List Violation) (rule : Rule) :
    GravestFirst (bySeverity violations rule) :=
  Sorting.pairwise_mergeSort (fun v : Violation => v.severity.rank) _

/-- Violations of one rule and one severity are listed as they were found. -/
theorem filter_bySeverity (violations : List Violation) (rule : Rule) (s : Severity) :
    ((bySeverity violations rule).filter fun v => v.severity = s) =
      violations.filter fun v => v.rule = rule ∧ v.severity = s := by
  have hsame : ∀ v w : Violation, decide (v.severity = s) = true → decide (w.severity = s) = true →
      v.severity.rank ≤ w.severity.rank := by
    intro v w hv hw
    rw [of_decide_eq_true hv, of_decide_eq_true hw]
  have hstable := Sorting.filter_mergeSort (fun v : Violation => v.severity.rank) hsame
    (violations.filter fun v => v.rule = rule)
  rw [bySeverity, hstable, List.filter_filter]
  refine List.filter_congr fun v _ => ?_
  rw [Bool.decide_and, Bool.and_comm]

theorem bySeverity_eq_flatMap (violations : List Violation) (rule : Rule) :
    bySeverity violations rule =
      Severity.all.flatMap fun s => violations.filter fun v => v.rule = rule ∧ v.severity = s := by
  have hgroups := Sorting.eq_flatMap_filter Severity.all_pairwise_rank (gravestFirst_bySeverity violations rule)
    fun v _ => v.severity.mem_all
  simp only [filter_bySeverity] at hgroups
  exact hgroups

variable (outputs : List Check.Output) (units : List SourceUnit) (graph : Graph)

theorem gravestFirst_aggregate (rule : Rule) : GravestFirst ((aggregate outputs units graph).violations.get rule) := by
  rw [aggregate, PerRule.get_ofFn]
  exact gravestFirst_bySeverity _ rule

/-- The rules together list each violation as often as the checks found it. -/
theorem all_perm : (aggregate outputs units graph).all.Perm (outputs.flatMap (·.violations)) := by
  have hsorted : (aggregate outputs units graph).all.Perm
      (Rule.all.flatMap fun rule => (outputs.flatMap (·.violations)).filter fun v => v.rule = rule) := by
    refine List.Perm.flatMap_left Rule.all fun rule _ => ?_
    rw [aggregate, PerRule.get_ofFn]
    exact bySeverity_perm _ rule
  exact hsorted.trans (Sorting.flatMap_filter_perm Rule.all_nodup _ fun v _ => v.rule.mem_all)

/-- A report is a stable partition of what the checks found, whichever check found it: under each rule stand the
    violations that carry it, by severity and then as they were found. All six rules are there, also in the written
    report, and together they list what was found, nothing lost and nothing twice. -/
theorem aggregate_partitions :
    (∀ rule, (aggregate outputs units graph).violations.get rule =
        [Severity.critical, .high, .medium, .low].flatMap fun s =>
          (outputs.flatMap (·.violations)).filter fun v => v.rule = rule ∧ v.severity = s) ∧
      (aggregate outputs units graph).all.Perm (outputs.flatMap (·.violations)) ∧
      ∃ table, ("violations", Json.obj table) ∈ (aggregate outputs units graph).entries ∧
        table.map Prod.fst = ["layer-direction", "circular-dependency", "aggregate-boundary", "naming",
          "forbidden-package", "hardcoded-secret"] := by
  refine ⟨?_, all_perm outputs units graph, ?_⟩
  · intro rule
    rw [aggregate, PerRule.get_ofFn]
    exact bySeverity_eq_flatMap _ rule
  · exact ⟨_, List.mem_cons_of_mem _ (List.mem_cons_of_mem _ List.mem_cons_self), rfl⟩

end Report

end LayerLint
