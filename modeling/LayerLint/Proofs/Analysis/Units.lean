/-
  LayerLint.Proofs.Analysis.Units: the units of a run, whatever the order of the scan.

  The units of a run are in the order of their paths, and a path that is listed twice gives the same unit
  twice. So there is only one list of units in that order with given members (`eq_units_of_perm`), and
  what is done to the listed paths shows in the units as it is:
  - listing the same paths in another order changes nothing (`units_eq_of_perm`), and so nothing in the
    report: nodes, edges, cycles and violations come in the same order (`run_eq_of_scan_perm`);
  - leaving out some of the paths leaves out their units (`units_filter`);
  - files that cannot be read, and what is in files that are not listed, have no part in it
    (`units_readable`, `units_congr`).
-/

import LayerLint.Analysis
import Mathlib.Data.List.Basic

namespace LayerLint

namespace Analysis

variable (a : Analysis) (access : FileAccess)

/-! ## One unit for each path -/

theorem path_of_unit? {path : String} {u : SourceUnit} (h : a.unit? access path = some u) : u.path = path := by
  obtain ⟨content, -, rfl⟩ := Option.map_eq_some_iff.mp h
  rfl

theorem unit?_of_mem {paths : List String} {u : SourceUnit} (h : u ∈ paths.filterMap (a.unit? access)) :
    a.unit? access u.path = some u := by
  obtain ⟨path, -, hu⟩ := List.mem_filterMap.mp h
  rwa [a.path_of_unit? access hu]

/-! ## One order -/

theorem units_perm (paths : List String) :
    (a.units access paths).Perm (paths.filterMap (a.unit? access)) :=
  List.mergeSort_perm _ _

theorem units_pairwise (paths : List String) :
    (a.units access paths).Pairwise fun u v => u.path ≤ v.path := by
  have htrans : ∀ u v w : SourceUnit, decide (u.path ≤ v.path) = true → decide (v.path ≤ w.path) = true →
      decide (u.path ≤ w.path) = true := by
    intro u v w huv hvw
    exact decide_eq_true (String.le_trans (of_decide_eq_true huv) (of_decide_eq_true hvw))
  have htotal : ∀ u v : SourceUnit, (decide (u.path ≤ v.path) || decide (v.path ≤ u.path)) = true := by
    intro u v
    simpa using String.le_total u.path v.path
  exact (List.pairwise_mergeSort htrans htotal _).imp of_decide_eq_true

/-- Units in the order of their paths are the units of a run as soon as they are the same in some order. -/
theorem eq_units_of_perm {paths : List String} {us : List SourceUnit}
    (hs : us.Pairwise fun u v => u.path ≤ v.path) (hp : us.Perm (paths.filterMap (a.unit? access))) :
    us = a.units access paths := by
  refine List.Perm.eq_of_pairwise (fun u v hu hv huv hvu => ?_) hs (a.units_pairwise access paths)
    (hp.trans (a.units_perm access paths).symm)
  -- the order cannot tell two units of one path apart, and there is nothing to tell apart
  have hpath : u.path = v.path := String.le_antisymm huv hvu
  have hu' := a.unit?_of_mem access (hp.mem_iff.mp hu)
  have hv' := a.unit?_of_mem access ((a.units_perm access paths).mem_iff.mp hv)
  rw [hpath, hv'] at hu'
  exact (Option.some.inj hu').symm

/-! ## What the listed paths decide -/

theorem units_eq_of_perm {paths paths' : List String} (hp : paths'.Perm paths) :
    a.units access paths' = a.units access paths :=
  a.eq_units_of_perm access (a.units_pairwise access paths')
    ((a.units_perm access paths').trans (hp.filterMap _))

theorem units_congr {access access' : FileAccess} {paths : List String}
    (h : ∀ path ∈ paths, access'.read path = access.read path) : a.units access' paths = a.units access paths := by
  have hu : paths.filterMap (a.unit? access') = paths.filterMap (a.unit? access) := by
    refine List.filterMap_congr fun path hm => ?_
    rw [unit?, unit?, h path hm]
  rw [units, units, hu]

/-- The units whose paths are left in are those of the paths that are left in. -/
theorem units_filter (p : String → Bool) (paths : List String) :
    ((a.units access paths).filter fun u => p u.path) = a.units access (paths.filter p) := by
  refine a.eq_units_of_perm access ((a.units_pairwise access paths).filter _) ?_
  have hf : ((paths.filterMap (a.unit? access)).filter fun u => p u.path) =
      (paths.filter p).filterMap (a.unit? access) := by
    rw [List.filter_filterMap, List.filterMap_filter]
    refine List.filterMap_congr fun path _ => ?_
    cases hu : a.unit? access path with
    | none => simp
    | some u => simp [Option.filter, a.path_of_unit? access hu]
  rw [← hf]
  exact (a.units_perm access paths).filter _

/-- A file that cannot be read makes no unit, so it does not matter that it is listed. -/
theorem units_readable (paths : List String) :
    a.units access (paths.filter fun path => (access.read path).isSome) = a.units access paths := by
  have hu : (paths.filter fun path => (access.read path).isSome).filterMap (a.unit? access) =
      paths.filterMap (a.unit? access) := by
    rw [List.filterMap_filter]
    refine List.filterMap_congr fun path _ => ?_
    cases hr : access.read path with
    | none => simp [unit?, hr]
    | some content => simp
  rw [units, units, hu]

/-- The paths of the units are the listed paths that can be read. -/
theorem map_path_units_perm (paths : List String) :
    ((a.units access paths).map (·.path)).Perm (paths.filter fun path => (access.read path).isSome) := by
  have hm : (paths.filterMap (a.unit? access)).map (·.path) =
      paths.filter fun path => (access.read path).isSome := by
    rw [List.map_filterMap, ← List.filterMap_eq_filter]
    refine List.filterMap_congr fun path _ => ?_
    cases hr : access.read path with
    | none => simp [unit?, hr, Option.guard]
    | some content => simp [unit?, hr, Option.guard, SourceUnit.ofContent]
  rw [← hm]
  exact (a.units_perm access paths).map _

/-! ## The report -/

/-- Scans that list the same paths, each as often as the other, give the same report: the same units, nodes,
    edges and violations in the same order, and the same numbers. -/
theorem run_eq_of_scan_perm {access access' : FileAccess} {includes excludes : Option (List String)}
    {paths paths' : List String} (root : String)
    (hs : access.scan (includes.getD a.config.project.includes) (excludes.getD a.config.project.excludes) =
      .ok paths)
    (hs' : access'.scan (includes.getD a.config.project.includes) (excludes.getD a.config.project.excludes) =
      .ok paths')
    (hp : paths'.Perm paths) (hread : ∀ path ∈ paths, access'.read path = access.read path) :
    ∃ report, a.run access root includes excludes = .ok report ∧ a.run access' root includes excludes = .ok report := by
  refine ⟨_, a.run_of_scan_ok hs root, ?_⟩
  have hunits : a.units access' paths' = a.units access paths := by
    rw [a.units_eq_of_perm access' hp, a.units_congr hread]
  rw [a.run_of_scan_ok hs' root, hunits]

def couple (paths : List String) : FileAccess where
  scan _ _ := .ok paths
  read path := if path = "a.ts" then some "import './b';" else if path = "b.ts" then some "import './a';" else none

/-- The cycle of the two files starts at the same file, whichever of them is listed first or twice. -/
theorem run_eq_of_scan_perm_couple :
    ["b.ts", "a.ts", "b.ts"].Perm ["a.ts", "b.ts", "b.ts"] ∧
      ∃ report, (ofConfig .default).run (couple ["a.ts", "b.ts", "b.ts"]) "project" none none = .ok report ∧
        (ofConfig .default).run (couple ["b.ts", "a.ts", "b.ts"]) "project" none none = .ok report := by
  have hp : ["b.ts", "a.ts", "b.ts"].Perm ["a.ts", "b.ts", "b.ts"] := by decide
  exact ⟨hp, (ofConfig .default).run_eq_of_scan_perm "project" rfl rfl hp fun _ _ => rfl⟩

end Analysis

end LayerLint
