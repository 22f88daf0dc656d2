/-
  LayerLint.Proofs.Analysis.Rules: what the rules of a configuration can change in a report.

  A report sorts the violations of all checks by the rule they carry and then by severity. All violations
  that a check finds carry its own rule and one severity, so the sort moves nothing: under each rule the
  report has what the checks of that rule found, one check after the other (`violations_report`).
  - Checks of different rules can be listed in any order (`run_withChecks_perm`): each rule shows exactly
    what its check found.
  - The settings of the rules act on a finished report (`run_eq_run_plain`): they empty the rules that are
    disabled and change the severities of the others.
-/

import LayerLint.Analysis
import LayerLint.Proofs.Check.Draft
import Mathlib.Data.List.Perm.Basic

namespace LayerLint

/-- Reports that differ at most in their violations, and have the same under each rule, are the same. -/
theorem Report.eq_of_violations {r r' : Report} (h : { r with violations := r'.violations } = r')
    (hv : ∀ rule, r.violations.get rule = r'.violations.get rule) : r = r' := by
  rw [← h, ← PerRule.ext_get hv]

/-! ## Sorting what the checks found -/

/-- Violations of one severity stay in their order. -/
theorem Report.bySeverity_eq_filter {violations : List Violation} {rule : Rule} {severity : Severity}
    (h : ∀ v ∈ violations, v.rule = rule → v.severity = severity) :
    bySeverity violations rule = violations.filter fun v => v.rule = rule := by
  have hs : ∀ v ∈ violations.filter fun v => v.rule = rule, v.severity = severity := by
    intro v hv
    obtain ⟨hm, hr⟩ := List.mem_filter.mp hv
    exact h v hm (by simpa using hr)
  refine List.mergeSort_of_pairwise (List.pairwise_of_forall_mem_list fun v hv w hw => ?_)
  rw [hs v hv, hs w hw]
  exact decide_eq_true (Nat.le_refl _)

namespace Check

variable {checks : List Check} {ctx : Context}

theorem filter_run (check : Check) (rule : Rule) :
    ((check.run ctx).filter fun v => v.rule = rule) = if check.rule = rule then check.run ctx else [] := by
  by_cases h : check.rule = rule
  · rw [if_pos h, List.filter_eq_self]
    intro v hv
    simpa [h] using (labels_of_mem_run hv).1
  · rw [if_neg h, List.filter_eq_nil_iff]
    intro v hv
    simpa [(labels_of_mem_run hv).1] using h

/-- Under a rule stands what the checks of that rule found, one after the other. -/
theorem bySeverity_flatMap_run (checks : List Check) (rule : Rule) :
    Report.bySeverity (checks.flatMap (·.run ctx)) rule =
      (checks.filter fun check => check.rule = rule).flatMap (·.run ctx) := by
  have hs : ∀ v ∈ checks.flatMap (·.run ctx), v.rule = rule → v.severity = ctx.severities.get rule := by
    intro v hv hr
    obtain ⟨check, -, hm⟩ := List.mem_flatMap.mp hv
    obtain ⟨hrule, -, hsev⟩ := labels_of_mem_run hm
    rw [hsev, ← hrule, hr]
  rw [Report.bySeverity_eq_filter hs, List.filter_flatMap]
  clear hs
  -- a check passes the filter of its own rule whole, and that of any other rule not at all
  induction checks with
  | nil => rfl
  | cons check checks ih =>
    rw [List.flatMap_cons, ih, filter_run, List.filter_cons]
    by_cases h : check.rule = rule
    · simp [h]
    · simp [h]

/-! ## Checks of different rules -/

theorem filter_eq_nil {rule : Rule} (h : rule ∉ checks.map Check.rule) :
    (checks.filter fun c => c.rule = rule) = [] := by
  rw [List.filter_eq_nil_iff]
  intro c hc e
  exact h (List.mem_map.mpr ⟨c, hc, by simpa using e⟩)

theorem filter_eq_singleton (hd : (checks.map Check.rule).Nodup) {check : Check} (h : check ∈ checks) :
    (checks.filter fun c => c.rule = check.rule) = [check] := by
  induction checks with
  | nil => cases h
  | cons first rest ih =>
    obtain ⟨hfirst, hrest⟩ := List.nodup_cons.mp hd
    rcases List.mem_cons.mp h with rfl | h
    · simp [filter_eq_nil hfirst]
    · have hne : first.rule ≠ check.rule := fun e => hfirst (List.mem_map.mpr ⟨check, h, e.symm⟩)
      simp [hne, ih hrest h]

/-- A rule finds its one check wherever it is listed. -/
theorem filter_eq_of_perm {checks' : List Check} (hd : (checks.map Check.rule).Nodup) (hp : checks'.Perm checks)
    (rule : Rule) : (checks'.filter fun c => c.rule = rule) = checks.filter fun c => c.rule = rule := by
  have hm : (checks'.map Check.rule).Perm (checks.map Check.rule) := hp.map _
  by_cases h : rule ∈ checks.map Check.rule
  · obtain ⟨check, hc, rfl⟩ := List.mem_map.mp h
    rw [filter_eq_singleton hd hc, filter_eq_singleton (hm.nodup_iff.mpr hd) (hp.mem_iff.mpr hc)]
  · rw [filter_eq_nil h, filter_eq_nil (mt hm.mem_iff.mp h)]

end Check

/-- What the checks found in a project is in the report as they found it: rule by rule, in the order of the
    check, under one rule and one severity. -/
structure Report.Relays (report : Report) (checks : List Check) (ctx : Check.Context) : Prop where
  found : ∀ check ∈ checks, report.violations.get check.rule = check.run ctx
  unchecked : ∀ rule, rule ∉ checks.map Check.rule → report.violations.get rule = []
  labels : ∀ rule, ∀ v ∈ report.violations.get rule,
    v.rule = rule ∧ v.finding.rule = rule ∧ v.severity = ctx.severities.get rule

namespace Analysis

def withChecks (a : Analysis) (checks : List Check) : Analysis := { a with checks := some checks }

theorem violations_report (a : Analysis) (units : List SourceUnit) (rule : Rule) :
    (a.report units).violations.get rule =
      (a.activeChecks.filter fun check => check.rule = rule).flatMap (·.run (a.context units)) := by
  rw [← Check.bySeverity_flatMap_run]
  simp only [report, Report.aggregate, outputs, PerRule.get_ofFn, List.flatMap_map, Check.output]

/-- Two analyses that look at the same files give reports that stand to each other as their reports on the
    units do. -/
theorem run_eq_map {a a' : Analysis} {access : FileAccess} {root : String} {includes excludes : Option (List String)}
    {f : Report → Report} (hp : a.config.project = a'.config.project)
    (h : ∀ paths, a.report (a.units access paths) = f (a'.report (a'.units access paths))) :
    a.run access root includes excludes = (a'.run access root includes excludes).map f := by
  cases hs : access.scan (includes.getD a.config.project.includes) (excludes.getD a.config.project.excludes) with
  | ok paths =>
    rw [a.run_of_scan_ok hs, a'.run_of_scan_ok (hp ▸ hs), h]
    rfl
  | error causes =>
    rw [a.run_of_scan_error hs, a'.run_of_scan_error (hp ▸ hs)]
    rfl

theorem report_relays (a : Analysis) {checks : List Check} (hd : (checks.map Check.rule).Nodup)
    (units : List SourceUnit) : ((a.withChecks checks).report units).Relays checks (a.context units) := by
  have hv : ∀ rule, ((a.withChecks checks).report units).violations.get rule =
      (checks.filter fun check => check.rule = rule).flatMap (·.run (a.context units)) :=
    violations_report (a.withChecks checks) units
  refine ⟨fun check hc => ?_, fun rule hr => ?_, fun rule v hm => ?_⟩
  · rw [hv, Check.filter_eq_singleton hd hc, List.flatMap_singleton]
  · rw [hv, Check.filter_eq_nil hr, List.flatMap_nil]
  · rw [hv] at hm
    obtain ⟨check, hc, hrun⟩ := List.mem_flatMap.mp hm
    obtain rfl : check.rule = rule := by simpa using (List.mem_filter.mp hc).2
    exact Check.labels_of_mem_run hrun

/-- Checks of different rules may be listed in any order, and a run that can scan its project reports what
    each of them found and nothing else. -/
theorem run_withChecks_perm (a : Analysis) (access : FileAccess) (root : String)
    (includes excludes : Option (List String)) (checks : List Check) (hd : (checks.map Check.rule).Nodup) :
    (∀ checks', checks'.Perm checks →
        (a.withChecks checks').run access root includes excludes =
          (a.withChecks checks).run access root includes excludes) ∧
      ∀ paths, access.scan (includes.getD a.config.project.includes) (excludes.getD a.config.project.excludes) =
          .ok paths →
        ∃ report, (a.withChecks checks).run access root includes excludes = .ok report ∧
          report.Relays checks (a.context (a.units access paths)) := by
  constructor
  · intro checks' hp
    have hreport : ∀ paths, (a.withChecks checks').report ((a.withChecks checks').units access paths) =
        id ((a.withChecks checks).report ((a.withChecks checks).units access paths)) := by
      intro paths
      refine Report.eq_of_violations rfl fun rule => ?_
      rw [id, violations_report, violations_report]
      exact congrArg (List.flatMap _) (Check.filter_eq_of_perm hd hp rule)
    calc (a.withChecks checks').run access root includes excludes
        = ((a.withChecks checks).run access root includes excludes).map id := run_eq_map rfl hreport
      _ = (a.withChecks checks).run access root includes excludes := congrFun Except.map_id _
  · intro paths hs
    exact ⟨_, run_of_scan_ok (a.withChecks checks) hs root, a.report_relays hd (a.units access paths)⟩

def oneFile : FileAccess := ⟨fun _ _ => .ok ["src/domain/Order.ts"], fun _ => some "import './OrderManager';"⟩

/-- The checks of all rules, listed backwards. -/
theorem run_withChecks_perm_reverse :
    ((Rule.all.map Check.standard).map Check.rule).Nodup ∧
      (Rule.all.map Check.standard).reverse.Perm (Rule.all.map Check.standard) ∧
      ((ofConfig .default).withChecks (Rule.all.map Check.standard).reverse).run oneFile "project" none none =
        ((ofConfig .default).withChecks (Rule.all.map Check.standard)).run oneFile "project" none none ∧
      ∃ report,
        ((ofConfig .default).withChecks (Rule.all.map Check.standard)).run oneFile "project" none none = .ok report ∧
          report.Relays (Rule.all.map Check.standard)
            ((ofConfig .default).context ((ofConfig .default).units oneFile ["src/domain/Order.ts"])) := by
  have hd : ((Rule.all.map Check.standard).map Check.rule).Nodup := by decide
  have hp := List.reverse_perm (Rule.all.map Check.standard)
  obtain ⟨hany, hok⟩ := run_withChecks_perm (ofConfig .default) oneFile "project" none none _ hd
  exact ⟨hd, hp, hany _ hp, hok ["src/domain/Order.ts"] rfl⟩

end Analysis

/-! ## The settings of the rules -/

/-- The configuration with every rule enabled, at its own severity. -/
def Config.plain (c : Config) : Config :=
  { c with rules := { c.rules with severities := Config.Rules.default.severities, disabled := [] } }

/-- A report as the rules of a configuration leave it: without the violations of rules that an entry of the
    disabled list names, and with the severities of the configuration. -/
def Report.under (c : Config) (r : Report) : Report :=
  { r with
    violations := .ofFn fun rule =>
      if ∃ id ∈ c.rules.disabled, Rule.parse? id = some rule then []
      else (r.violations.get rule).map (·.under c.severityMap) }

namespace Config

theorem enables_iff (c : Config) (rule : Rule) :
    c.rules.enables rule = true ↔ ¬∃ id ∈ c.rules.disabled, Rule.parse? id = some rule := by
  simp [Rules.enables]

end Config

namespace Check

theorem builtin_plain (c : Config) (scanner : SecretScanner) : builtin c.plain scanner = configured c scanner := by
  refine List.filter_eq_self.mpr fun check _ => ?_
  simp [Config.plain, Config.Rules.enables]

/-- A disabled rule has no check, and any other has the checks it would have without the list. -/
theorem filter_builtin (c : Config) (scanner : SecretScanner) (rule : Rule) :
    ((builtin c scanner).filter fun check => check.rule = rule) =
      if ∃ id ∈ c.rules.disabled, Rule.parse? id = some rule then []
      else (configured c scanner).filter fun check => check.rule = rule := by
  rw [builtin, List.filter_filter]
  split
  · rename_i h
    refine List.filter_eq_nil_iff.mpr fun check _ hc => ?_
    obtain ⟨hr, he⟩ := Bool.and_eq_true_iff.mp hc
    rw [decide_eq_true_eq] at hr
    rw [hr, c.enables_iff] at he
    exact he h
  · rename_i h
    refine List.filter_congr fun check _ => ?_
    by_cases hr : check.rule = rule
    · simp [hr, (c.enables_iff rule).mpr h]
    · simp [hr]

end Check

namespace Analysis

variable (config : Config) (counter : Option FunctionCounter) (scanner : SecretScanner)

theorem report_under (units : List SourceUnit) :
    (Analysis.mk config counter scanner none).report units =
      ((Analysis.mk config.plain counter scanner none).report units).under config := by
  refine Report.eq_of_violations rfl fun rule => ?_
  have hplain : ((Analysis.mk config.plain counter scanner none).report units).violations.get rule =
      ((Check.configured config scanner).filter fun check => check.rule = rule).flatMap
        (·.run ((Analysis.mk config.plain counter scanner none).context units)) := by
    rw [violations_report, ← Check.builtin_plain]
    rfl
  -- the two runs look at the same units with the same classifier, so only the severities differ
  have hctx : (Analysis.mk config counter scanner none).context units =
      ((Analysis.mk config.plain counter scanner none).context units).under config.severityMap := rfl
  rw [violations_report, Report.under, PerRule.get_ofFn, hplain, hctx]
  show List.flatMap _ ((Check.builtin config scanner).filter fun check => check.rule = rule) = _
  rw [Check.filter_builtin]
  split
  · rfl
  · rw [List.map_flatMap]
    exact List.flatMap_congr fun check _ => Check.run_under _ check config.severityMap

/-- Disabled rules and severities act on the finished report of a run without them: the same files, units, graph and
    numbers, and under each rule that is left the same violations in the same order, under other severities. -/
theorem run_eq_run_plain (access : FileAccess) (root : String) (includes excludes : Option (List String)) :
    (Analysis.mk config counter scanner none).run access root includes excludes =
      ((Analysis.mk config.plain counter scanner none).run access root includes excludes).map
        (Report.under config) := by
  have hproject : config.project = config.plain.project := rfl
  exact run_eq_map hproject fun paths => report_under config counter scanner _

end Analysis

end LayerLint
