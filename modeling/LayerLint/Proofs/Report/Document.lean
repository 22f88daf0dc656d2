/-
  LayerLint.Proofs.Report.Document: whole reports as JSON documents.

  The document of a report and that of a check are regular, so their texts mean exactly these documents in either layout
  (`document_faithful`). Nothing of a report is lost on the way but the texts of its files: two reports have one
  document exactly if they agree in all that a document shows (`SameDocument`).
-/

import LayerLint.Proofs.Report.Parts
import LayerLint.Report.Basic
import Mathlib.Data.List.Basic

namespace LayerLint

open Json

/-! ## Regular documents -/

theorem Graph.regular_toJson (g : Graph) : Regular g.toJson :=
  regular_map fun n _ => .obj (by simp) (by simp [Layer.regular_optionJson])

theorem ProjectMetrics.regular_toJson (m : ProjectMetrics) : Regular m.toJson := by
  have hcounts : Regular (.obj (m.fileCounts.map fun e => (e.1, .nat e.2))) :=
    .obj (by simp [fileCounts]) (by simp [fileCounts])
  exact .obj (by simp) (by simp [hcounts])

theorem GraphMetrics.regular_toJson (m : GraphMetrics) : Regular m.toJson :=
  .obj (by simp) (by simp [Regular.real m.avgOutDegree.lowest_shortest])

namespace Report

variable (r : Report)

def documentKeys : List String := ["units", "graph", "violations", "metrics", "graph_metrics"]

theorem regular_entries : ∀ e ∈ r.entries, Regular e.2 := by
  have hunits : Regular (.arr (r.units.map SourceUnit.toJson)) := regular_map fun u _ => u.regular_toJson
  have hviolations : Regular (.obj (Rule.all.map fun rule =>
      (rule.name, .arr ((r.violations.get rule).map Violation.toJson)))) := by
    have hnames : (Rule.all.map Rule.name).Nodup := by decide
    refine .obj hnames fun e he => ?_
    obtain ⟨rule, -, rfl⟩ := List.mem_map.mp he
    exact regular_map fun v _ => v.regular_toJson
  simp [entries, hunits, hviolations, Graph.regular_toJson, ProjectMetrics.regular_toJson, GraphMetrics.regular_toJson]

theorem regular_toJson : Regular r.toJson := by
  have hkeys : documentKeys.Nodup := by decide
  exact .obj hkeys r.regular_entries

theorem regular_checkJson (threshold : Severity) : Regular (r.checkJson threshold) := by
  have hkeys : (documentKeys ++ ["check"]).Nodup := by decide
  refine .obj hkeys fun e he => ?_
  rcases List.mem_append.mp he with he | he
  · exact r.regular_entries e he
  · rw [List.mem_singleton.mp he]
    exact .obj (by simp) (by simp)

end Report

/-! ## What a document shows -/

theorem name_inj_of_read {α : Type} {name : α → String} {read : String → Option α} (h : ∀ a, read (name a) = some a)
    {a b : α} : name a = name b ↔ a = b := by
  refine ⟨fun hname => ?_, fun hab => hab ▸ rfl⟩
  have hread := congrArg read hname
  rwa [h, h, Option.some.injEq] at hread

theorem Layer.name_inj {a b : Layer} : a.name = b.name ↔ a = b := name_inj_of_read ofName?_name

theorem Severity.name_inj {a b : Severity} : a.name = b.name ↔ a = b := name_inj_of_read ofName?_name

theorem Rule.name_inj {a b : Rule} : a.name = b.name ↔ a = b := name_inj_of_read ofName?_name

theorem Json.nat_inj {a b : Nat} : nat a = nat b ↔ a = b := by
  rw [nat, nat, int.injEq, Int.ofNat_inj]

theorem Json.strings_inj {a b : List String} : strings a = strings b ↔ a = b := by
  rw [strings, strings, arr.injEq, List.map_inj_right fun _ _ => str.inj]

theorem Layer.optionJson_inj {a b : Option Layer} : optionJson a = optionJson b ↔ a = b := by
  cases a <;> cases b <;> simp [optionJson, toJson, name_inj]

theorem Import.toJson_inj {a b : Import} : a.toJson = b.toJson ↔ a = b := by
  obtain ⟨specifier, line⟩ := a
  obtain ⟨specifier', line'⟩ := b
  simp [toJson, nat_inj]

theorem SourceUnit.toJson_inj {a b : SourceUnit} : a.toJson = b.toJson ↔ a.withoutText = b.withoutText := by
  have himports : a.imports.map Import.toJson = b.imports.map Import.toJson ↔ a.imports = b.imports :=
    List.map_inj_right fun _ _ => Import.toJson_inj.mp
  simp [toJson, withoutText, nat_inj, strings_inj, Layer.optionJson_inj, himports]

theorem SourceUnit.map_toJson_inj {as bs : List SourceUnit} :
    as.map toJson = bs.map toJson ↔ as.map withoutText = bs.map withoutText := by
  induction as generalizing bs with
  | nil => cases bs <;> simp
  | cons a as ih => cases bs <;> simp [toJson_inj, ih]

theorem Location.toJson_inj {a b : Location} : a.toJson = b.toJson ↔ a = b := by
  obtain ⟨file, line⟩ := a
  obtain ⟨file', line'⟩ := b
  cases line <;> cases line' <;> simp [toJson, nat_inj]

theorem Finding.toJson_inj {a b : Finding} : a.toJson = b.toJson ↔ a = b := by
  cases a <;> cases b <;> simp [toJson, nat_inj, strings_inj, Layer.name_inj]

theorem Violation.toJson_inj {a b : Violation} : a.toJson = b.toJson ↔ a = b := by
  obtain ⟨rule, finding, severity, location, message, suggestion⟩ := a
  obtain ⟨rule', finding', severity', location', message', suggestion'⟩ := b
  cases suggestion <;> cases suggestion' <;>
    simp [toJson, Rule.name_inj, Finding.toJson_inj, Severity.name_inj, Location.toJson_inj]

def Graph.adjacency (g : Graph) : List (Graph.Node × List String) :=
  g.nodes.map fun n => (n, g.dependencies n.path)

theorem Graph.toJson_inj {a b : Graph} : a.toJson = b.toJson ↔ a.adjacency = b.adjacency := by
  let write (e : Graph.Node × List String) : Json :=
    .obj [("path", .str e.1.path), ("layer", Layer.optionJson e.1.layer), ("dependencies", .strings e.2)]
  have hwrite (g : Graph) : g.toJson = .arr (g.adjacency.map write) := by
    simp [toJson, adjacency, write]
  rw [hwrite, hwrite, arr.injEq]
  refine List.map_inj_right fun x y h => ?_
  obtain ⟨⟨path, layer⟩, paths⟩ := x
  obtain ⟨⟨path', layer'⟩, paths'⟩ := y
  simpa [write, Layer.optionJson_inj, strings_inj, and_assoc] using h

theorem ProjectMetrics.toJson_inj {a b : ProjectMetrics} : a.toJson = b.toJson ↔ a = b := by
  refine ⟨fun h => ?_, fun h => h ▸ rfl⟩
  obtain ⟨files, functions, imports, ⟨domain, application, infrastructure, shared⟩, unclassified⟩ := a
  obtain ⟨files', functions', imports', ⟨domain', application', infrastructure', shared'⟩, unclassified'⟩ := b
  simp_all [toJson, fileCounts, nat_inj]

/-- What two reports with one document have in common: all but the texts of the files and what of a graph shows in no
    list of dependencies. -/
structure Report.SameDocument (r r' : Report) : Prop where
  units : r.units.map SourceUnit.withoutText = r'.units.map SourceUnit.withoutText
  graph : r.graph.adjacency = r'.graph.adjacency
  violations : r.violations = r'.violations
  metrics : r.metrics = r'.metrics
  fileCount : r.graphMetrics.fileCount = r'.graphMetrics.fileCount
  edgeCount : r.graphMetrics.edgeCount = r'.graphMetrics.edgeCount
  average : r.graphMetrics.avgOutDegree.shortest = r'.graphMetrics.avgOutDegree.shortest
  maxOutDegree : r.graphMetrics.maxOutDegree = r'.graphMetrics.maxOutDegree

theorem Report.violations_inj {t t' : PerRule (List Violation)} :
    (Rule.all.map fun rule => (rule.name, Json.arr ((t.get rule).map Violation.toJson))) =
      (Rule.all.map fun rule => (rule.name, Json.arr ((t'.get rule).map Violation.toJson))) ↔ t = t' := by
  refine ⟨fun h => ?_, fun h => h ▸ rfl⟩
  refine PerRule.ext_get fun rule => ?_
  have hrule : rule ∈ Rule.all := rule.mem_all
  have hjson := arr.inj (Prod.mk.inj (List.map_inj_left.mp h rule hrule)).2
  exact (List.map_inj_right fun _ _ => Violation.toJson_inj.mp).mp hjson

theorem Report.toJson_inj {r r' : Report} : r.toJson = r'.toJson ↔ r.SameDocument r' := by
  have hdocument : r.toJson = r'.toJson ↔
      r.units.map SourceUnit.toJson = r'.units.map SourceUnit.toJson ∧ r.graph.toJson = r'.graph.toJson ∧
      (Rule.all.map fun rule => (rule.name, Json.arr ((r.violations.get rule).map Violation.toJson))) =
        (Rule.all.map fun rule => (rule.name, Json.arr ((r'.violations.get rule).map Violation.toJson))) ∧
      r.metrics.toJson = r'.metrics.toJson ∧ r.graphMetrics.toJson = r'.graphMetrics.toJson := by
    simp only [toJson, entries, obj.injEq, List.cons.injEq, Prod.mk.injEq, arr.injEq, true_and, and_true]
  have hmetrics : r.graphMetrics.toJson = r'.graphMetrics.toJson ↔
      r.graphMetrics.fileCount = r'.graphMetrics.fileCount ∧ r.graphMetrics.edgeCount = r'.graphMetrics.edgeCount ∧
      r.graphMetrics.avgOutDegree.shortest = r'.graphMetrics.avgOutDegree.shortest ∧
      r.graphMetrics.maxOutDegree = r'.graphMetrics.maxOutDegree := by
    simp [GraphMetrics.toJson, nat_inj]
  rw [hdocument, hmetrics, SourceUnit.map_toJson_inj, Graph.toJson_inj, violations_inj, ProjectMetrics.toJson_inj]
  refine ⟨fun ⟨hunits, hgraph, hviolations, hcounts, hfiles, hedges, haverage, hmax⟩ => ?_, fun h => ?_⟩
  · exact ⟨hunits, hgraph, hviolations, hcounts, hfiles, hedges, haverage, hmax⟩
  · exact ⟨h.units, h.graph, h.violations, h.metrics, h.fileCount, h.edgeCount, h.average, h.maxOutDegree⟩

/-- The texts of a report and of a check, in either layout, are JSON texts of its document and read back as it; written
    compactly they hold no control character. The document of a check is that of the report with the outcome at its end,
    and reports that differ in anything a document shows have different documents. -/
theorem Report.document_faithful (r : Report) :
    Faithful r.toJson ∧
    (∀ threshold, Faithful (r.checkJson threshold) ∧
      ∃ entries, r.toJson = .obj entries ∧
        r.checkJson threshold = .obj (entries ++ [("check", .obj [("passed", .bool (r.passes threshold)),
          ("fail_on", .str threshold.name), ("failing_violation_count", .nat (r.countAtLeast threshold))])])) ∧
    ∀ r' : Report, r.toJson = r'.toJson ↔ r.SameDocument r' :=
  ⟨r.regular_toJson.faithful,
    fun threshold => ⟨(r.regular_checkJson threshold).faithful, r.entries, rfl, rfl⟩,
    fun _ => toJson_inj⟩

end LayerLint
