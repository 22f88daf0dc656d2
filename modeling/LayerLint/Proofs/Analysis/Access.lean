/-
  LayerLint.Proofs.Analysis.Access: what becomes of files that cannot be dealt with.

  A file may be listed and yet be unreadable, its functions may be beyond the counter, and the secret
  scanner may fail on it. None of this makes a run fail, and none of it leaves a trace: the run is the one
  over the readable files alone, with a counter that says zero and a scanner that finds nothing where the
  others failed (`run_eq_run_forgiving`). Units, graph, violations and numbers are those of that run, so an
  unreadable file is no node, no target of an import and not counted. What does make a run fail is the
  scan, and nothing else.
-/

import LayerLint.Proofs.Analysis.Units

namespace LayerLint

/-! ## The same without failures -/

def FunctionCounter.orZero (count : FunctionCounter) : FunctionCounter := fun path content =>
  match count path content with
  | some n => some n
  | none => some 0

def SecretScanner.orNothing (scanner : SecretScanner) : SecretScanner := fun content path =>
  match scanner content path with
  | some findings => some findings
  | none => some []

def Check.forgiving : Check → Check
  | secret scanner => secret scanner.orNothing
  | check => check

def FileAccess.readable (access : FileAccess) : FileAccess :=
  { access with
    scan := fun includes excludes =>
      (access.scan includes excludes).map fun paths => paths.filter fun path => (access.read path).isSome }

/-- The analysis with a counter and scanners that never fail. -/
def Analysis.forgiving (a : Analysis) : Analysis :=
  { a with
    counter := a.counter.map (·.orZero)
    scanner := a.scanner.orNothing
    checks := a.checks.map fun checks => checks.map (·.forgiving) }

/-! ## The checks -/

namespace Check

theorem forgiving_rule (check : Check) : check.forgiving.rule = check.rule := by
  cases check <;> rfl

theorem Secret.ofUnit_orNothing (scanner : SecretScanner) (ctx : Context) :
    ofUnit scanner.orNothing ctx = ofUnit scanner ctx := by
  funext u
  simp only [ofUnit, SecretScanner.orNothing]
  cases scanner u.content u.path <;> rfl

theorem forgiving_run (check : Check) (ctx : Context) : check.forgiving.run ctx = check.run ctx := by
  cases check with
  | secret scanner => simp only [forgiving, run, Secret.run, Secret.ofUnit_orNothing]
  | _ => rfl

theorem forgiving_output (check : Check) (ctx : Context) : check.forgiving.output ctx = check.output ctx := by
  rw [output, output, forgiving_rule, forgiving_run]

theorem builtin_orNothing (c : Config) (scanner : SecretScanner) :
    builtin c scanner.orNothing = (builtin c scanner).map (·.forgiving) := by
  have hall : configured c scanner.orNothing = (configured c scanner).map (·.forgiving) := rfl
  rw [builtin, builtin, hall, List.filter_map]
  refine congrArg (List.map _) (List.filter_congr fun check _ => ?_)
  rw [Function.comp_apply, forgiving_rule]

end Check

/-! ## The run -/

namespace Analysis

variable (a : Analysis) (access : FileAccess)

theorem activeChecks_forgiving : a.forgiving.activeChecks = a.activeChecks.map (·.forgiving) := by
  unfold activeChecks
  cases hc : a.checks with
  | none => simpa [forgiving, hc] using Check.builtin_orNothing a.config a.scanner
  | some checks => simp [forgiving, hc]

theorem report_forgiving (units : List SourceUnit) : a.forgiving.report units = a.report units := by
  have hout : a.forgiving.outputs units = a.outputs units := by
    unfold outputs
    rw [activeChecks_forgiving, List.map_map]
    exact List.map_congr_left fun check _ => check.forgiving_output (a.context units)
  rw [report, report, hout]

theorem countFunctions_forgiving (path content : String) :
    a.forgiving.countFunctions path content = a.countFunctions path content := by
  unfold countFunctions
  cases hc : a.counter with
  | none => simp [forgiving, hc]
  | some count =>
    simp only [forgiving, hc, Option.map_some, Option.bind_some, FunctionCounter.orZero]
    cases count path content <;> rfl

theorem unit?_forgiving (path : String) : a.forgiving.unit? access.readable path = a.unit? access path := by
  unfold unit?
  simp only [countFunctions_forgiving]
  rfl

theorem units_forgiving (paths : List String) :
    a.forgiving.units access.readable (paths.filter fun path => (access.read path).isSome) = a.units access paths := by
  have hunit : a.forgiving.unit? access.readable = a.unit? access := funext (a.unit?_forgiving access)
  rw [← a.units_readable access paths, units, units, hunit]

/-- Files that cannot be read might as well not be listed, and calls that fail as well find nothing. A run gives a
    report whenever the scan lists files, and it fails exactly when the scan does, with what the scan says. -/
theorem run_eq_run_forgiving (root : String) (includes excludes : Option (List String)) :
    a.run access root includes excludes = a.forgiving.run access.readable root includes excludes ∧
      ((∃ report, a.run access root includes excludes = .ok report) ↔
        ∃ paths, access.scan (includes.getD a.config.project.includes) (excludes.getD a.config.project.excludes) =
          .ok paths) ∧
      ∀ failure, a.run access root includes excludes = .error failure ↔
        ∃ causes, access.scan (includes.getD a.config.project.includes) (excludes.getD a.config.project.excludes) =
          .error causes ∧ failure = ⟨root, causes⟩ := by
  cases hs : access.scan (includes.getD a.config.project.includes) (excludes.getD a.config.project.excludes) with
  | ok paths =>
    have hr : access.readable.scan (includes.getD a.config.project.includes)
        (excludes.getD a.config.project.excludes) = .ok (paths.filter fun path => (access.read path).isSome) := by
      simp only [FileAccess.readable, hs]
      rfl
    have hrun := a.run_of_scan_ok hs root
    refine ⟨?_, ⟨fun _ => ⟨paths, rfl⟩, fun _ => ⟨_, hrun⟩⟩, fun failure => ?_⟩
    · rw [hrun, run_of_scan_ok a.forgiving hr root, units_forgiving, report_forgiving]
    · simp [hrun]
  | error causes =>
    have hr : access.readable.scan (includes.getD a.config.project.includes)
        (excludes.getD a.config.project.excludes) = .error causes := by
      simp only [FileAccess.readable, hs]
      rfl
    have hrun := a.run_of_scan_error hs root
    refine ⟨?_, ?_, fun failure => ?_⟩
    · rw [hrun, run_of_scan_error a.forgiving hr root]
    · simp [hrun]
    · simp [hrun, eq_comm]

end Analysis

end LayerLint
