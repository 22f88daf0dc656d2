/-
  LayerLint.Proofs.Report.Metrics: the numbers of a project and of its graph fit together.

  The two sets of numbers are counted apart, one in the units and the other in the graph that was built from them.
  Every unit is counted once, in its layer or among the unclassified ones (`sum_filesIn`). Every edge is counted at the
  node where it starts and at the one where it ends (`Inv.sum_dependencies`, `Inv.sum_dependents`), and was asked for by
  an import (`edgeCount_le_imports`), though imports may mean no file, or one that was imported before. The greatest
  number of dependencies is that of some node, if there is any (`Inv.maxOutDegree_spec`). `metrics_conserved` puts the
  numbers side by side.
-/

import LayerLint.Proofs.Graph.Views
import LayerLint.Proofs.Tally
import LayerLint.Report.Dot
import Mathlib.Algebra.Order.BigOperators.Group.List
import Mathlib.Algebra.Order.Ring.Nat
import Mathlib.Data.Finset.Card

namespace LayerLint

/-! ## Counting files -/

namespace ProjectMetrics

theorem sum_filesIn {layers : List (Option Layer)} (hd : layers.Nodup) (hall : ∀ l, l ∈ layers)
    (units : List SourceUnit) : (layers.map (filesIn units)).sum = units.length :=
  Tally.sum_countP_label hd units fun u _ => hall u.layer

end ProjectMetrics

theorem Report.countOrder_nodup : countOrder.Nodup := by decide

theorem Report.mem_countOrder (l : Option Layer) : l ∈ countOrder := by
  rcases l with _ | l
  · decide
  · cases l <;> decide

namespace Graph

variable {g : Graph}

/-! ## Counting edges at the nodes -/

theorem length_edges (g : Graph) : g.edges.length = g.metrics.edgeCount := List.length_map _

theorem Inv.sum_dependencies (h : Inv g) :
    (g.nodes.map fun n => (g.dependencies n.path).length).sum = g.metrics.edgeCount := by
  have hlisted := h.listing_perm.length_eq
  rw [listing, List.length_flatMap, length_edges] at hlisted
  simpa only [List.length_map] using hlisted

theorem Inv.sum_dependents (h : Inv g) :
    (g.nodes.map fun n => (g.dependents n.path).length).sum = g.metrics.edgeCount := by
  have hmirror := h.mirror.sum_dependencies
  rw [← length_edges, edges_mirror, List.length_map, length_edges] at hmirror
  simp only [dependencies_mirror] at hmirror
  exact hmirror

/-! ## The greatest number of dependencies -/

theorem Inv.length_dependencies (h : Inv g) (path : String) :
    (g.dependencies path).length = g.edges.countP fun e => e.1 == path := by
  rw [h.dependencies_eq, List.length_map, List.countP_eq_length_filter]
  rfl

theorem Inv.max?_dependencies (h : Inv g) :
    (0 :: g.nodes.map fun n => (g.dependencies n.path).length).max? = some g.maxOutDegree := by
  rw [h.maxOutDegree_eq, List.map_map, List.max?_cons']
  simp only [h.length_dependencies, Function.comp_def]

/-- No node imports more, and if there are nodes then one of them imports as many. -/
theorem Inv.maxOutDegree_spec (h : Inv g) :
    (∀ n ∈ g.nodes, (g.dependencies n.path).length ≤ g.maxOutDegree) ∧
      (g.nodes ≠ [] → ∃ n ∈ g.nodes, (g.dependencies n.path).length = g.maxOutDegree) := by
  obtain ⟨hmem, hle⟩ := List.max?_eq_some_iff.mp h.max?_dependencies
  have hbound : ∀ n ∈ g.nodes, (g.dependencies n.path).length ≤ g.maxOutDegree := by
    intro n hn
    exact hle _ (List.mem_cons_of_mem _ (List.mem_map_of_mem hn))
  refine ⟨hbound, fun hne => ?_⟩
  rcases List.mem_cons.mp hmem with hzero | hmem
  · obtain ⟨n, hn⟩ := List.exists_mem_of_ne_nil _ hne
    have := hbound n hn
    exact ⟨n, hn, by omega⟩
  · exact List.mem_map.mp hmem

theorem Inv.edgeCount_le_mul (h : Inv g) : g.metrics.edgeCount ≤ g.metrics.fileCount * g.metrics.maxOutDegree := by
  have hle := List.sum_le_card_nsmul (g.nodes.map fun n => (g.dependencies n.path).length) g.maxOutDegree
  rw [h.sum_dependencies, List.length_map, Nat.nsmul_eq_mul] at hle
  apply hle
  intro k hk
  obtain ⟨n, hn, rfl⟩ := List.mem_map.mp hk
  exact h.maxOutDegree_spec.1 n hn

/-! ## The graph and its units -/

variable (units : List SourceUnit)

theorem fileCount_build : (build units).metrics.fileCount = (units.map (·.path)).toFinset.card := by
  have hpaths : ((build units).nodes.map (·.path)).toFinset = (units.map (·.path)).toFinset := by
    ext path
    rw [List.mem_toFinset, List.mem_toFinset, paths_build, List.mem_eraseDups]
  rw [← hpaths, List.toFinset_card_of_nodup (inv_build units).paths_nodup, List.length_map]
  rfl

/-- Each edge was asked for by an import. -/
theorem edgeCount_le_imports : (build units).metrics.edgeCount ≤ (ProjectMetrics.ofUnits units).totalImports := by
  calc (build units).metrics.edgeCount = (wanted units).eraseDups.length := by rw [← length_edges, edges_build]
    _ ≤ (wanted units).length := (eraseDups_sublist _).length_le
    _ = (units.map fun u => (wantedBy (units.map (·.path)) u).length).sum := List.length_flatMap
    _ ≤ (units.map (·.imports.length)).sum := by
      apply List.sum_le_sum
      intro u _
      exact List.length_filterMap_le _ _
    _ = (ProjectMetrics.ofUnits units).totalImports := List.sum_eq_foldr

end Graph

/-! ## The numbers side by side -/

structure MetricsFit (units : List SourceUnit) (m : ProjectMetrics) (g : Graph) : Prop where
  files : (m.fileCounts.map (·.2)).sum = m.totalFiles
  unclassified : m.unclassifiedFiles ≤ m.totalFiles
  paths : g.metrics.fileCount = (units.map (·.path)).toFinset.card
  dependencies : (g.nodes.map fun n => (g.dependencies n.path).length).sum = g.metrics.edgeCount
  dependents : (g.nodes.map fun n => (g.dependents n.path).length).sum = g.metrics.edgeCount
  imports : g.metrics.edgeCount ≤ m.totalImports
  product : g.metrics.edgeCount ≤ g.metrics.fileCount * g.metrics.maxOutDegree
  greatest : ∀ n ∈ g.nodes, (g.dependencies n.path).length ≤ g.metrics.maxOutDegree
  attained : g.nodes ≠ [] → ∃ n ∈ g.nodes, (g.dependencies n.path).length = g.metrics.maxOutDegree

/-- Whatever the units are, their numbers fit those of the graph that is built from them. -/
theorem metrics_conserved (units : List SourceUnit) : MetricsFit units (.ofUnits units) (.build units) where
  files := ProjectMetrics.sum_filesIn Report.countOrder_nodup Report.mem_countOrder units
  unclassified := List.countP_le_length
  paths := Graph.fileCount_build units
  dependencies := (Graph.inv_build units).sum_dependencies
  dependents := (Graph.inv_build units).sum_dependents
  imports := Graph.edgeCount_le_imports units
  product := (Graph.inv_build units).edgeCount_le_mul
  greatest := (Graph.inv_build units).maxOutDegree_spec.1
  attained := (Graph.inv_build units).maxOutDegree_spec.2

/-- Three units with two paths, whose five imports ask for two edges. -/
example : (ProjectMetrics.ofUnits Graph.twins).totalFiles = 3 ∧ (Graph.build Graph.twins).metrics.fileCount = 2 ∧
    (ProjectMetrics.ofUnits Graph.twins).totalImports = 5 ∧ (Graph.build Graph.twins).metrics.edgeCount = 2 := by
  decide

end LayerLint
