/-
  LayerLint.Proofs.Analysis.Locality: what one file can change in the findings about the others.

  Every rule but the one against cycles looks at one file at a time: what a check finds is what it finds
  in each unit, one unit after the other (`run_eq_flatMap`), it places all of that in the unit's own file
  (`file_of_mem_inFile`), and it looks neither at the graph nor at other units (`inFile_congr`). So a
  report is settled file by file. Two projects with the same readable files whose texts differ in one
  file only have the same violations everywhere else, in the same order (`run_elsewhere_eq`), although the
  text of that file may add or remove edges, cycles, functions and imports.
-/

import LayerLint.Proofs.Analysis.Rules
import LayerLint.Proofs.Analysis.Units
import LayerLint.Proofs.Check.Imports

namespace LayerLint

def Violation.elsewhere (file : String) (violations : List Violation) : List Violation :=
  violations.filter fun v => v.location.file ≠ file

/-! ## One file at a time -/

namespace Check

/-- What a check finds in one file. No cycle is in one file. -/
def inFile : Check → Context → SourceUnit → List Violation
  | direction allowed => Direction.ofUnit allowed
  | cycle => fun _ _ => []
  | aggregate settings => Aggregate.ofUnit settings
  | naming settings => fun ctx u => (Naming.ofUnit? settings ctx u).toList
  | package denied => Package.ofUnit denied
  | secret scanner => Secret.ofUnit scanner

variable {check : Check} {ctx ctx' : Context}

theorem run_eq_flatMap (h : check.rule ≠ .circularDependency) : check.run ctx = ctx.units.flatMap (check.inFile ctx) := by
  cases check with
  | cycle => exact absurd rfl h
  | naming settings => exact List.filterMap_eq_flatMap_toList _ _
  | _ => rfl

theorem inFile_congr (hc : ctx'.classifier = ctx.classifier) (hs : ctx'.severities = ctx.severities) (u : SourceUnit) :
    check.inFile ctx' u = check.inFile ctx u := by
  obtain ⟨units, graph, classifier, severities⟩ := ctx
  obtain ⟨units', graph', classifier', severities'⟩ := ctx'
  obtain rfl : classifier' = classifier := hc
  obtain rfl : severities' = severities := hs
  cases check with
  | direction allowed =>
    have himport : ∀ importing, Direction.ofImport? allowed ⟨units', graph', classifier', severities'⟩ u importing =
        Direction.ofImport? allowed ⟨units, graph, classifier', severities'⟩ u importing := by
      intro importing
      funext i
      simp only [Direction.ofImport?]
    simp only [inFile, Direction.ofUnit, himport]
  | _ => rfl

/-! ### Where a violation is -/

section

variable {u : SourceUnit} {i : Import} {v : Violation}

theorem Direction.file_of_flagged? {allowed : PerLayer (List Layer)} (h : flagged? allowed ctx u i = some v) :
    v.location.file = u.path := by
  obtain ⟨importing, -, h⟩ := Option.bind_eq_some_iff.mp h
  unfold ofImport? at h
  split at h
  · cases h
  · split at h
    · cases h
    · cases h; rfl

theorem Aggregate.file_of_flagged? {settings : Config.Aggregates} (h : flagged? settings ctx u i = some v) :
    v.location.file = u.path := by
  obtain ⟨importing, -, h⟩ := Option.bind_eq_some_iff.mp h
  unfold ofImport? at h
  split at h
  · cases h
  · obtain ⟨target, -, h⟩ := Option.bind_eq_some_iff.mp h
    obtain ⟨imported, -, h⟩ := Option.bind_eq_some_iff.mp h
    split at h
    · cases h
    · cases h; rfl

theorem Package.file_of_flagged? {denied : Config.Packages} (h : flagged? denied ctx u i = some v) :
    v.location.file = u.path := by
  obtain ⟨layer, -, h⟩ := Option.bind_eq_some_iff.mp h
  unfold ofImport? at h
  split at h
  · cases h
  · split at h
    · cases h; rfl
    · cases h

theorem Naming.file_of_ofUnit? {settings : Config.Naming} (h : ofUnit? settings ctx u = some v) :
    v.location.file = u.path := by
  unfold ofUnit? at h
  split at h
  · cases h
  · split at h
    · cases h
    · split at h
      · cases h; rfl
      · obtain ⟨suffix, -, rfl⟩ := Option.map_eq_some_iff.mp h
        rfl

theorem file_of_mem_inFile (h : v ∈ check.inFile ctx u) : v.location.file = u.path := by
  cases check with
  | direction allowed =>
    rw [inFile, Direction.ofUnit_eq] at h
    obtain ⟨i, -, hi⟩ := List.mem_filterMap.mp h
    exact Direction.file_of_flagged? hi
  | cycle => cases h
  | aggregate settings =>
    rw [inFile, Aggregate.ofUnit_eq] at h
    obtain ⟨i, -, hi⟩ := List.mem_filterMap.mp h
    exact Aggregate.file_of_flagged? hi
  | naming settings => exact Naming.file_of_ofUnit? (Option.mem_toList.mp h)
  | package denied =>
    rw [inFile, Package.ofUnit_eq] at h
    obtain ⟨i, -, hi⟩ := List.mem_filterMap.mp h
    exact Package.file_of_flagged? hi
  | secret scanner =>
    obtain ⟨finding, -, rfl⟩ := List.mem_map.mp h
    rfl

end

/-- Away from a file a check finds what it finds in the other files. -/
theorem elsewhere_run (h : check.rule ≠ .circularDependency) (file : String) :
    Violation.elsewhere file (check.run ctx) =
      (ctx.units.filter fun u => u.path ≠ file).flatMap (check.inFile ctx) := by
  rw [run_eq_flatMap h, Violation.elsewhere, List.filter_flatMap]
  induction ctx.units with
  | nil => rfl
  | cons u units ih =>
    have hall : ∀ v ∈ check.inFile ctx u, v.location.file = u.path := fun v hv => file_of_mem_inFile hv
    rw [List.flatMap_cons, ih]
    by_cases hu : u.path = file
    · have hnone : ((check.inFile ctx u).filter fun v => v.location.file ≠ file) = [] := by
        rw [List.filter_eq_nil_iff]
        intro v hv
        simp [hall v hv, hu]
      rw [hnone, List.filter_cons_of_neg (by simpa using hu), List.nil_append]
    · have hwhole : ((check.inFile ctx u).filter fun v => v.location.file ≠ file) = check.inFile ctx u := by
        rw [List.filter_eq_self]
        intro v hv
        simp [hall v hv, hu]
      rw [hwhole, List.filter_cons_of_pos (by simpa using hu), List.flatMap_cons]

end Check

/-! ## Two projects -/

namespace Analysis

variable (a : Analysis)

/-- The units of the other files settle the violations in the other files. -/
theorem elsewhere_report {units units' : List SourceUnit} {file : String}
    (hu : (units.filter fun u => u.path ≠ file) = units'.filter fun u => u.path ≠ file) {rule : Rule}
    (hr : rule ≠ .circularDependency) :
    Violation.elsewhere file ((a.report units).violations.get rule) =
      Violation.elsewhere file ((a.report units').violations.get rule) := by
  rw [violations_report, violations_report, Violation.elsewhere, Violation.elsewhere, List.filter_flatMap,
    List.filter_flatMap]
  refine List.flatMap_congr fun check hc => ?_
  obtain rfl : check.rule = rule := by simpa using (List.mem_filter.mp hc).2
  have hctx : check.inFile (a.context units) = check.inFile (a.context units') :=
    funext (Check.inFile_congr rfl rfl)
  calc Violation.elsewhere file (check.run (a.context units))
      = (units.filter fun u => u.path ≠ file).flatMap (check.inFile (a.context units)) := Check.elsewhere_run hr file
    _ = (units'.filter fun u => u.path ≠ file).flatMap (check.inFile (a.context units')) := by rw [hu, hctx]
    _ = Violation.elsewhere file (check.run (a.context units')) := (Check.elsewhere_run hr file).symm

/-- Two projects with the same readable files, in which all files but one have the same text, have the same other
    units. -/
theorem units_elsewhere {access access' : FileAccess} {paths paths' : List String} {file : String}
    (hlist : (paths.filter fun path => (access.read path).isSome) =
      paths'.filter fun path => (access'.read path).isSome)
    (hread : ∀ path ∈ paths, (access.read path).isSome → path ≠ file → access'.read path = access.read path) :
    ((a.units access paths).filter fun u => u.path ≠ file) =
      (a.units access' paths').filter fun u => u.path ≠ file := by
  have hother : ∀ path ∈ (paths.filter fun path => (access.read path).isSome).filter fun path => path ≠ file,
      access'.read path = access.read path := by
    intro path hm
    obtain ⟨hm, hne⟩ := List.mem_filter.mp hm
    obtain ⟨hm, hsome⟩ := List.mem_filter.mp hm
    exact hread path hm hsome (by simpa using hne)
  have hfilter := a.units_filter access (fun path => path ≠ file)
  have hfilter' := a.units_filter access' (fun path => path ≠ file)
  rw [← a.units_readable access paths, ← a.units_readable access' paths', ← hlist, hfilter, hfilter', a.units_congr hother]

/-- In two projects with the same readable files, of which one has another text, every rule but the one against
    cycles finds the same in the other files, in the same order. -/
theorem run_elsewhere_eq {access access' : FileAccess} {includes excludes : Option (List String)}
    {paths paths' : List String} (root file : String)
    (hs : access.scan (includes.getD a.config.project.includes) (excludes.getD a.config.project.excludes) =
      .ok paths)
    (hs' : access'.scan (includes.getD a.config.project.includes) (excludes.getD a.config.project.excludes) =
      .ok paths')
    (hlist : (paths.filter fun path => (access.read path).isSome) =
      paths'.filter fun path => (access'.read path).isSome)
    (hread : ∀ path ∈ paths, (access.read path).isSome → path ≠ file → access'.read path = access.read path) :
    ∃ report report', a.run access root includes excludes = .ok report ∧
      a.run access' root includes excludes = .ok report' ∧
      ∀ rule, rule ≠ .circularDependency →
        Violation.elsewhere file (report.violations.get rule) =
          Violation.elsewhere file (report'.violations.get rule) :=
  ⟨_, _, a.run_of_scan_ok hs root, a.run_of_scan_ok hs' root, fun _ hr =>
    a.elsewhere_report (a.units_elsewhere hlist hread) hr⟩

def managed (text : String) : FileAccess where
  scan _ _ := .ok ["src/domain/OrderManager.ts", "src/domain/Order.ts"]
  read path := if path = "src/domain/Order.ts" then some text else some "import './Order';"

/-- The other file may close a cycle, and the first still has the same violations. -/
theorem run_elsewhere_eq_managed :
    ∃ report report', (ofConfig .default).run (managed "") "project" none none = .ok report ∧
      (ofConfig .default).run (managed "import './OrderManager';") "project" none none = .ok report' ∧
      ∀ rule, rule ≠ .circularDependency →
        Violation.elsewhere "src/domain/Order.ts" (report.violations.get rule) =
          Violation.elsewhere "src/domain/Order.ts" (report'.violations.get rule) := by
  refine (ofConfig .default).run_elsewhere_eq "project" "src/domain/Order.ts" rfl rfl (by decide) ?_
  intro path _ _ hne
  simp [managed, hne]

end Analysis

end LayerLint
