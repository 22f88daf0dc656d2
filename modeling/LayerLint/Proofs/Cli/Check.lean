/-
  LayerLint.Proofs.Cli.Check: the exit code of a check.

  `Ends` names each way a check can end, and every run of one ends in one of these ways (`run_check_ends`).
  It fails with code 2 if settings that were given cannot be loaded, if the project cannot be scanned, or
  if the output should be a drawing. Otherwise the code is the verdict on the report, 0 or 1. That is all
  the code depends on (`check_exit_code`):
  - the threshold is the one that was given, or else the one of the settings;
  - text and JSON, compact or not and coloured or not, get the same code, and both tell the same verdict;
  - a check that passes at a threshold passes at every graver one.
-/

import LayerLint.Cli.Run
import LayerLint.Proofs.Analysis.Rules
import LayerLint.Proofs.Report.Verdict

namespace LayerLint.Cli

namespace CheckOptions

variable (d : Disk) (o : CheckOptions)

/-- The settings of a check: those at the path that was given, or those that hold for the project. -/
def Loads (config : Config) : Prop :=
  match o.config with
  | some path => d.loadConfig path = .ok config
  | none => d.configOf o.path = config

def Misconfigured : Prop := ∃ path e, o.config = some path ∧ d.loadConfig path = .error e

def Unscannable : Prop :=
  ∃ config causes, o.Loads d config ∧ d.scan o.path config.project.includes config.project.excludes = .error causes

def Reports (config : Config) (report : Report) : Prop :=
  (Analysis.ofConfig config).run (d.access o.path) o.path none none = .ok report

def threshold (config : Config) : Severity := o.failOn.getD config.rules.failOn

/-- The ways a check can end. -/
inductive Ends (color : Bool) : Outcome → Prop
  | misconfigured {message : String} (h : o.Misconfigured d) : Ends color (.failed message)
  | unscannable {message : String} (h : o.Unscannable d) : Ends color (.failed message)
  | drawn {message : String} (h : o.format = .dot) : Ends color (.failed message)
  | judged {config : Config} {report : Report} {j : Report.Judged String} (hl : o.Loads d config)
      (hr : o.Reports d config report) (hj : judge o color (o.threshold config) report = .ok j) :
      Ends color { Outcome.success j.output with code := if j.passed then 0 else 1 }

variable {d o}

theorem Loads.unique {config config' : Config} (h : o.Loads d config) (h' : o.Loads d config') : config = config' := by
  cases hp : o.config with
  | some path =>
    simp only [Loads, hp] at h h'
    exact Except.ok.inj (h.symm.trans h')
  | none =>
    simp only [Loads, hp] at h h'
    exact h.symm.trans h'

theorem Loads.not_misconfigured {config : Config} (h : o.Loads d config) : ¬o.Misconfigured d := by
  rintro ⟨path, e, hp, he⟩
  simp only [Loads, hp, he] at h
  cases h

theorem Reports.not_unscannable {config : Config} {report : Report} (hl : o.Loads d config)
    (hr : o.Reports d config report) : ¬o.Unscannable d := by
  rintro ⟨config', causes, hl', hs⟩
  obtain rfl := hl.unique hl'
  have hscan : (d.access o.path).scan (Option.getD none config.project.includes)
      (Option.getD none config.project.excludes) = .error causes := hs
  rw [Reports, (Analysis.ofConfig config).run_of_scan_error hscan] at hr
  cases hr

end CheckOptions

open CheckOptions

variable {d : Disk} {o : CheckOptions}

/-! ## How a check ends -/

theorem mapError_eq_ok {ε ε' α : Type} {f : ε → ε'} {x : Except ε α} {a : α} (h : x.mapError f = .ok a) : x = .ok a := by
  cases x with
  | ok b =>
    cases h
    rfl
  | error e => cases h

theorem loads_of_settings {config : Config} (h : settings d o.path o.config = .ok config) : o.Loads d config := by
  cases hp : o.config with
  | some path =>
    simp only [settings, hp] at h
    simpa only [Loads, hp] using mapError_eq_ok h
  | none =>
    simp only [settings, hp] at h
    simpa only [Loads, hp] using Except.ok.inj h

theorem misconfigured_of_settings {message : String} (h : settings d o.path o.config = .error message) :
    o.Misconfigured d := by
  cases hp : o.config with
  | some path =>
    simp only [settings, hp] at h
    cases hl : d.loadConfig path with
    | ok c =>
      rw [hl] at h
      cases h
    | error e => exact ⟨path, e, hp, hl⟩
  | none =>
    simp only [settings, hp] at h
    cases h

theorem unscannable_of_report {config : Config} {message : String} (hl : o.Loads d config)
    (h : report d o.path config none none = .error message) : o.Unscannable d := by
  cases hs : d.scan o.path config.project.includes config.project.excludes with
  | error causes => exact ⟨config, causes, hl, hs⟩
  | ok paths =>
    have hscan : (d.access o.path).scan (Option.getD none config.project.includes)
        (Option.getD none config.project.excludes) = .ok paths := hs
    rw [report, (Analysis.ofConfig config).run_of_scan_ok hscan] at h
    cases h

theorem format_of_judge {color : Bool} {threshold : Severity} {r : Report} {message : String}
    (h : judge o color threshold r = .error message) : o.format = .dot := by
  unfold judge at h
  split at h
  · cases h
  · cases h
  · assumption

/-- Every run of a check ends in one of the named ways. -/
theorem run_check_ends (d : Disk) (color : Bool) {noColor : Bool} {args : List String}
    (h : request args = .run (.check o) noColor) :
    o.Ends d (color && !noColor) (run d color args).2 := by
  have hrun : (run d color args).2 = match check d o (color && !noColor) with
      | .ok r => r
      | .error message => .failed message := by
    simp only [run, h, execute]
    cases check d o (color && !noColor) <;> rfl
  rw [hrun]
  -- the steps of a check, one after the other, each of which may end it
  cases hs : settings d o.path o.config with
  | error message =>
    simp only [check, hs, bind, Except.bind]
    exact .misconfigured (misconfigured_of_settings hs)
  | ok config =>
    have hl := loads_of_settings hs
    cases hr : report d o.path config none none with
    | error message =>
      simp only [check, hs, hr, bind, Except.bind]
      exact .unscannable (unscannable_of_report hl hr)
    | ok r =>
      cases hj : judge o (color && !noColor) (o.failOn.getD config.rules.failOn) r with
      | error message =>
        simp only [check, hs, hr, hj, bind, Except.bind]
        exact .drawn (format_of_judge hj)
      | ok judged =>
        simp only [check, hs, hr, hj, bind, Except.bind]
        exact .judged hl (mapError_eq_ok hr) hj

/-! ## What the exit code says -/

namespace CheckOptions

/-- The output tells whether the check passed: by the flag of a document, or by the word in a text. -/
def Tells (o : CheckOptions) (color passed : Bool) (stdout : String) : Prop :=
  match o.format with
  | .json => ∃ document : Json, stdout = document.render (layoutOf o.compact) ++ "\n" ∧
      (document.get? "check").bind (·.get? "passed") = some (.bool passed)
  | .text => ∃ text : Styled, stdout = text.render color ++ "\n" ∧
      ∀ word, Report.verdictSpan word ∈ text ↔ passed = word
  | .dot => False

/-- Whichever renderer judges a check, its verdict is that on the report, and its output tells it. -/
theorem passed_of_judge {color : Bool} {threshold : Severity} {r : Report} {j : Report.Judged String}
    (h : judge o color threshold r = .ok j) :
    j.passed = r.passes threshold ∧ o.Tells color (r.passes threshold) (j.output ++ "\n") := by
  unfold judge at h
  unfold Tells
  cases hf : o.format with
  | text =>
    simp only [hf] at h
    cases h
    rw [Report.Judged.passed_map, Report.Judged.output_map]
    exact ⟨Report.passed_judgeText threshold, _, rfl, fun word => Report.verdictSpan_mem_checkText⟩
  | json =>
    simp only [hf] at h
    cases h
    rw [Report.Judged.passed_map, Report.Judged.output_map]
    exact ⟨Report.passed_judgeJson threshold, _, rfl, Report.passed_checkJson threshold⟩
  | dot =>
    simp only [hf] at h
    cases h

namespace Ends

variable {color : Bool} {out : Outcome}

theorem code_eq_two_iff (h : o.Ends d color out) :
    out.code = 2 ↔ o.Misconfigured d ∨ o.Unscannable d ∨ o.format = .dot := by
  cases h with
  | misconfigured hm => exact ⟨fun _ => .inl hm, fun _ => rfl⟩
  | unscannable hu => exact ⟨fun _ => .inr (.inl hu), fun _ => rfl⟩
  | drawn hf => exact ⟨fun _ => .inr (.inr hf), fun _ => rfl⟩
  | judged hl hr hj =>
    constructor
    · intro hcode
      dsimp only at hcode
      split at hcode <;> cases hcode
    · rintro (hm | hu | hf)
      · exact absurd hm hl.not_misconfigured
      · exact absurd hu (hr.not_unscannable hl)
      · simp [judge, hf] at hj

theorem code_eq_two_iff_of_ne_dot (h : o.Ends d color out) (hf : o.format ≠ .dot) :
    out.code = 2 ↔ o.Misconfigured d ∨ o.Unscannable d := by
  rw [h.code_eq_two_iff, or_iff_left hf]

/-- A check that does not fail has a report, and its code and its output are the verdict on it. -/
theorem judged_of_ne_two (h : o.Ends d color out) (hc : out.code ≠ 2) :
    ∃ config report, o.Loads d config ∧ o.Reports d config report ∧
      out.code = (if report.passes (o.threshold config) then 0 else 1) ∧
      o.Tells color (report.passes (o.threshold config)) out.stdout := by
  cases h with
  | misconfigured => exact absurd rfl hc
  | unscannable => exact absurd rfl hc
  | drawn => exact absurd rfl hc
  | @judged config report j hl hr hj =>
    obtain ⟨hpassed, htells⟩ := passed_of_judge hj
    exact ⟨config, report, hl, hr, by rw [hpassed], htells⟩

theorem code_of_verdict {code : Nat} {passed : Bool} (h : code = if passed then 0 else 1) :
    (code = 0 ↔ passed = true) ∧ (code = 1 ↔ passed = false) := by
  cases passed <;> simp [h]

/-- The same check with another output and another threshold fails alike or is judged by the same report. -/
theorem codes {color' : Bool} {out' : Outcome} {format : OutputFormat} {compact : Bool} {failOn : Option Severity}
    (h : o.Ends d color out) (h' : Ends d { o with format, compact, failOn } color' out') (hf : o.format ≠ .dot)
    (hf' : format ≠ .dot) :
    out.code = 2 ∧ out'.code = 2 ∨
      ∃ (config : Config) (report : Report), o.Loads d config ∧
        out.code = (if report.passes (o.threshold config) then 0 else 1) ∧
        out'.code = (if report.passes (failOn.getD config.rules.failOn) then 0 else 1) := by
  -- what makes one of them fail does not depend on what differs, and neither do settings and report
  have hsame : out'.code = 2 ↔ out.code = 2 :=
    (h'.code_eq_two_iff_of_ne_dot hf').trans (h.code_eq_two_iff_of_ne_dot hf).symm
  by_cases hc : out.code = 2
  · exact .inl ⟨hc, hsame.mpr hc⟩
  · have hc' : out'.code ≠ 2 := fun hc' => hc (hsame.mp hc')
    obtain ⟨config, report, hl, hr, hcode, -⟩ := h.judged_of_ne_two hc
    obtain ⟨config', report', hl', hr', hcode', -⟩ := h'.judged_of_ne_two hc'
    obtain rfl : config = config' := hl.unique hl'
    obtain rfl : report = report' := Except.ok.inj (hr.symm.trans hr')
    exact .inr ⟨config, report, hl, hcode, hcode'⟩

end Ends

end CheckOptions

/-- The exit code of a check: 2 exactly when it cannot be made, else 1 exactly when the report has a violation at
    least as grave as the threshold, else 0, and the output tells the same. The kind of output has no part in
    it, and with a graver threshold a check that passes still passes.

    The settings list the severities of rules in an order, which stands for the order in which a map is gone through.
    Where two keys name one rule the order tells which of them counts. Two runs need not share it then, and what is
    said of their codes is said for runs that do. -/
theorem check_exit_code (d : Disk) (color : Bool) {noColor : Bool} {args : List String}
    (h : request args = .run (.check o) noColor) :
    ((run d color args).2.code = 2 ↔ o.Misconfigured d ∨ o.Unscannable d ∨ o.format = .dot) ∧
    ((run d color args).2.code ≠ 2 → ∃ config report, o.Loads d config ∧ o.Reports d config report ∧
      ((run d color args).2.code = 1 ↔
        ∃ rule, ∃ v ∈ report.violations.get rule, v.severity.rank ≤ (o.threshold config).rank) ∧
      ((run d color args).2.code = 0 ↔
        ∀ rule, ∀ v ∈ report.violations.get rule, (o.threshold config).rank < v.severity.rank) ∧
      o.Tells (color && !noColor) ((run d color args).2.code = 0) (run d color args).2.stdout) ∧
    ∀ (color' noColor' : Bool) (args' : List String) (format : OutputFormat) (compact : Bool) (failOn : Option Severity),
      request args' = .run (.check { o with format, compact, failOn }) noColor' → o.format ≠ .dot → format ≠ .dot →
        (failOn = o.failOn → (run d color' args').2.code = (run d color args).2.code) ∧
        ((∀ config, o.Loads d config → (failOn.getD config.rules.failOn).rank ≤ (o.threshold config).rank) →
          (run d color args).2.code = 0 → (run d color' args').2.code = 0) := by
  have hends := run_check_ends d color h
  refine ⟨hends.code_eq_two_iff, fun hc => ?_, fun color' noColor' args' format compact failOn h' hf hf' => ?_⟩
  · obtain ⟨config, report, hl, hr, hcode, htells⟩ := hends.judged_of_ne_two hc
    obtain ⟨hzero, hone⟩ := Ends.code_of_verdict hcode
    have hpassed : report.passes (o.threshold config) = decide ((run d color args).2.code = 0) := by
      rw [Bool.eq_iff_iff, decide_eq_true_iff]
      exact hzero.symm
    exact ⟨config, report, hl, hr, hone.trans Report.not_passes_iff, hzero.trans Report.passes_iff, hpassed ▸ htells⟩
  · have hends' := run_check_ends d color' h'
    rcases hends.codes hends' hf hf' with ⟨hc, hc'⟩ | ⟨config, report, hl, hcode, hcode'⟩
    · exact ⟨fun _ => hc'.trans hc.symm, fun _ h0 => by simp [hc] at h0⟩
    · refine ⟨?_, fun hgraver h0 => ?_⟩
      · rintro rfl
        exact hcode'.trans hcode.symm
      · have hp := (Ends.code_of_verdict hcode).1.mp h0
        exact (Ends.code_of_verdict hcode').1.mpr (Report.passes_of_graver (hgraver config hl) hp)

/-! ### A project with one breach -/

def tangled : Disk :=
  (Disk.empty ["work"]).addFile ["work", "domain", "order", "index.ts"]
    (some "import \x7b User \x7d from '../user/User';")

def tangledReport : Report :=
  (Analysis.ofConfig .default).report
    ((Analysis.ofConfig .default).units (tangled.access ".") ["domain/order/index.ts"])

theorem severities_tangledReport (rule : Rule) :
    (tangledReport.violations.get rule).map (·.severity) = if rule = .aggregateBoundary then [.medium] else [] := by
  rw [tangledReport, Analysis.violations_report]
  cases rule <;> decide +kernel

theorem severity_of_mem_tangledReport {rule : Rule} {v : Violation} (h : v ∈ tangledReport.violations.get rule) :
    v.severity = .medium := by
  have hv := List.mem_map_of_mem (f := (·.severity)) h
  rw [severities_tangledReport] at hv
  split at hv
  · exact List.mem_singleton.mp hv
  · cases hv

theorem exists_mem_tangledReport : ∃ v, v ∈ tangledReport.violations.get .aggregateBoundary := by
  have hv : Severity.medium ∈ (tangledReport.violations.get .aggregateBoundary).map (·.severity) := by
    rw [severities_tangledReport]
    decide
  obtain ⟨v, hmem, -⟩ := List.mem_map.mp hv
  exact ⟨v, hmem⟩

theorem loads_tangled (hp : o.path = ".") (hc : o.config = none) : o.Loads tangled .default := by
  simp only [Loads, hp, hc]
  decide +kernel

theorem reports_tangled (hp : o.path = ".") : o.Reports tangled .default tangledReport := by
  rw [Reports, hp]
  exact (Analysis.ofConfig .default).run_of_scan_ok (by decide +kernel) "."

theorem eq_of_reports_tangled {config : Config} {report : Report} (hp : o.path = ".") (hc : o.config = none)
    (hl : o.Loads tangled config) (hr : o.Reports tangled config report) : config = .default ∧ report = tangledReport := by
  obtain rfl := hl.unique (loads_tangled hp hc)
  exact ⟨rfl, Except.ok.inj (hr.symm.trans (reports_tangled hp))⟩

theorem judgeable_tangled (hp : o.path = ".") (hc : o.config = none) (hf : o.format ≠ .dot) :
    ¬(o.Misconfigured tangled ∨ o.Unscannable tangled ∨ o.format = .dot) := by
  have hl := loads_tangled hp hc
  rintro (hm | hu | hdot)
  · exact hl.not_misconfigured hm
  · exact (reports_tangled hp).not_unscannable hl hu
  · exact hf hdot

/-- The project drawn, checked at the threshold of the breach as a text and as JSON, and checked at two graver
    thresholds, of which the first is that of the settings. -/
theorem check_exit_code_formats :
    request ["check", ".", "--format", "dot"] = .run (.check ⟨".", none, .dot, false, none⟩) false ∧
      (run tangled true ["check", ".", "--format", "dot"]).2.code = 2 ∧
      request ["check", ".", "--fail-on", "medium"] = .run (.check ⟨".", some .medium, .text, false, none⟩) false ∧
      (run tangled true ["check", ".", "--fail-on", "medium"]).2.code = 1 ∧
      request ["check", ".", "--fail-on", "medium", "--format", "json", "--compact"] =
        .run (.check ⟨".", some .medium, .json, true, none⟩) false ∧
      (run tangled true ["check", ".", "--fail-on", "medium", "--format", "json", "--compact"]).2.code = 1 ∧
      request ["check", "."] = .run (.check ⟨".", none, .text, false, none⟩) false ∧
      (run tangled true ["check", "."]).2.code = 0 ∧
      request ["check", ".", "--fail-on", "critical"] = .run (.check ⟨".", some .critical, .text, false, none⟩) false ∧
      (run tangled true ["check", ".", "--fail-on", "critical"]).2.code = 0 := by
  have hdot : request ["check", ".", "--format", "dot"] =
      .run (.check ⟨".", none, .dot, false, none⟩) false := by decide
  have hmedium : request ["check", ".", "--fail-on", "medium"] =
      .run (.check ⟨".", some .medium, .text, false, none⟩) false := by decide
  have hjson : request ["check", ".", "--fail-on", "medium", "--format", "json", "--compact"] =
      .run (.check ⟨".", some .medium, .json, true, none⟩) false := by decide
  have htext : request ["check", "."] = .run (.check ⟨".", none, .text, false, none⟩) false := by decide
  have hcritical : request ["check", ".", "--fail-on", "critical"] =
      .run (.check ⟨".", some .critical, .text, false, none⟩) false := by decide
  obtain ⟨htwo, hjudged, hsame⟩ := check_exit_code tangled true hmedium
  have hone : (run tangled true ["check", ".", "--fail-on", "medium"]).2.code = 1 := by
    obtain ⟨config, report, hl, hr, hone, -⟩ := hjudged (mt htwo.mp (judgeable_tangled rfl rfl (by decide)))
    obtain ⟨rfl, rfl⟩ := eq_of_reports_tangled rfl rfl hl hr
    obtain ⟨v, hv⟩ := exists_mem_tangledReport
    exact hone.mpr ⟨_, v, hv, by rw [severity_of_mem_tangledReport hv]; decide⟩
  obtain ⟨htwo', hjudged', hsame'⟩ := check_exit_code tangled true htext
  have hzero : (run tangled true ["check", "."]).2.code = 0 := by
    obtain ⟨config, report, hl, hr, -, hzero, -⟩ := hjudged' (mt htwo'.mp (judgeable_tangled rfl rfl (by decide)))
    obtain ⟨rfl, rfl⟩ := eq_of_reports_tangled rfl rfl hl hr
    exact hzero.mpr fun rule v hv => by rw [severity_of_mem_tangledReport hv]; decide
  refine ⟨hdot, (check_exit_code _ true hdot).1.mpr (.inr (.inr rfl)), hmedium, hone, hjson, ?_, htext, hzero,
    hcritical, ?_⟩
  · exact ((hsame true false _ .json true (some .medium) hjson (by decide) (by decide)).1 rfl).trans hone
  · have hgraver := (hsame' true false _ .text false (some .critical) hcritical (by decide) (by decide)).2
    exact hgraver (fun _ _ => Nat.zero_le _) hzero

end LayerLint.Cli
