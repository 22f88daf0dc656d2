/-
  LayerLint.Proofs.Report.Flagged: the edges that a drawing flags.

  A drawing takes the edges of a violation from its text again: the links of a cycle from the list of its files,
  and the edge of an import by looking up its specifier. Both are edges of the graph, since reported cycles are
  cycles of it (`link_mem_edges`) and a look-up in the finished graph finds what the import was resolved to when the
  graph was built (`breach_mem_edges`). So an edge is red exactly if it is reported, and nothing
  that is reported is missing in the drawing (`fileGraph_flags_reported`).
-/

import LayerLint.Proofs.Analysis.Rules
import LayerLint.Proofs.Graph.Cycles
import LayerLint.Proofs.Report.Drawing
import LayerLint.Proofs.Report.Verdict
import Mathlib.Data.List.Rotate
import Mathlib.Data.Set.Card

namespace LayerLint

/-! ## Links of a cycle -/

/-- From each place of a cycle an edge leads to the next one, which for the last place is the first. -/
theorem IsCycle.edge_next {α : Type} {edge : α → α → Prop} {cycle : List α} (h : IsCycle edge cycle) {i : Nat} {x y : α}
    (hx : cycle[i]? = some x) (hy : cycle[(i + 1) % cycle.length]? = some y) : edge x y := by
  obtain ⟨hi, rfl⟩ := List.getElem?_eq_some_iff.mp hx
  by_cases hnext : i + 1 < cycle.length
  · rw [Nat.mod_eq_of_lt hnext, List.getElem?_eq_getElem hnext] at hy
    cases hy
    exact List.isChain_iff_getElem.mp h.chain i hnext
  · obtain ⟨first, last, hf, hl, he⟩ := h.closed
    have hend : i + 1 = cycle.length := by omega
    have hlast : cycle[i] = last := by
      rw [List.getLast?_eq_getElem?, ← hend, Nat.add_sub_cancel, List.getElem?_eq_getElem hi] at hl
      exact Option.some.inj hl
    rw [hend, Nat.mod_self, ← List.head?_eq_getElem?, hf] at hy
    cases hy
    rw [hlast]
    exact he

namespace Report

theorem mem_cycleLinks {cycle : List String} {e : String × String} :
    e ∈ cycleLinks cycle ↔ ∃ i, cycle[i]? = some e.1 ∧ cycle[(i + 1) % cycle.length]? = some e.2 := by
  have hrotate : cycle.drop 1 ++ cycle.take 1 = cycle.rotate 1 := by
    cases cycle with
    | nil => rfl
    | cons first rest => simp
  rw [cycleLinks, hrotate, List.mem_iff_getElem?]
  refine exists_congr fun i => ?_
  rw [List.getElem?_zip_eq_some]
  by_cases hi : i < cycle.length
  · rw [List.getElem?_rotate hi]
  · have hnone : cycle[i]? = none := List.getElem?_eq_none (by omega)
    simp [hnone]

/-! ## Reported edges -/

/-- A pair of files that a report tells of: a link of one of its cycles, the closing one included, or an import
    against the layers that means one of the files. -/
inductive Reported (r : Report) : String × String → Prop where
  | link {v : Violation} {cycle : List String} {i : Nat} {e : String × String} :
      v ∈ r.violations.get .circularDependency → v.finding = .circularDependency cycle →
      cycle[i]? = some e.1 → cycle[(i + 1) % cycle.length]? = some e.2 → Reported r e
  | breach {v : Violation} {importing imported : Layer} {specifier target : String} :
      v ∈ r.violations.get .layerDirection → v.finding = .layerDirection importing imported specifier →
      Graph.resolveAmong? (r.units.map (·.path)) v.location.file specifier = some target →
      Reported r (v.location.file, target)

variable {r : Report}

/-- What is flagged is what is reported, if violations stand under their own rules and the graph knows the units. -/
theorem mem_violatingEdges (hlabels : ∀ rule, ∀ v ∈ r.violations.get rule, v.finding.rule = rule)
    (hknows : r.graph.Knows (r.units.map (·.path))) {e : String × String} :
    e ∈ r.violatingEdges ↔ r.Reported e := by
  rw [violatingEdges, List.mem_flatMap]
  constructor
  · rintro ⟨v, hv, he⟩
    obtain ⟨rule, hv⟩ := mem_all.mp hv
    have hrule := hlabels rule v hv
    unfold edgesOf at he
    cases hf : v.finding with
    | circularDependency cycle =>
      rw [hf] at he hrule
      subst hrule
      obtain ⟨i, hi, hnext⟩ := mem_cycleLinks.mp he
      exact .link hv hf hi hnext
    | layerDirection importing imported specifier =>
      rw [hf] at he hrule
      subst hrule
      obtain ⟨target, ht, rfl⟩ := Option.map_eq_some_iff.mp (Option.mem_toList.mp he)
      rw [hknows.resolve?_eq] at ht
      exact .breach hv hf ht
    | _ => rw [hf] at he; cases he
  · intro he
    cases he with
    | @link v cycle i e hv hf hi hnext =>
      refine ⟨v, mem_all.mpr ⟨_, hv⟩, ?_⟩
      rw [edgesOf, hf]
      exact mem_cycleLinks.mpr ⟨i, hi, hnext⟩
    | @breach v importing imported specifier target hv hf ht =>
      refine ⟨v, mem_all.mpr ⟨_, hv⟩, ?_⟩
      unfold edgesOf
      simp only [hf, hknows.resolve?_eq, ht]
      exact List.mem_singleton_self _

end Report

namespace Graph

theorem knows_build (units : List SourceUnit) : (build units).Knows (units.map (·.path)) := by
  rw [build_eq_foldl]
  exact (knows_ofFiles units).foldl_join _

theorem mem_edges_build {units : List SourceUnit} {u : SourceUnit} {i : Import} {target : String} (hu : u ∈ units)
    (hi : i ∈ u.imports) (ht : resolveAmong? (units.map (·.path)) u.path i.specifier = some target) :
    (u.path, target) ∈ (build units).edges := by
  rw [edges_build, List.mem_eraseDups, wanted, List.mem_flatMap]
  exact ⟨u, hu, mem_wantedBy.mpr ⟨rfl, i, hi, ht⟩⟩

end Graph

namespace Check

variable {ctx : Context} {v : Violation}

/-- A breach is one of an import, in the file of the import. -/
theorem Direction.import_of_mem_run {allowed : PerLayer (List Layer)} {importing imported : Layer} {specifier : String}
    (h : v ∈ Direction.run allowed ctx) (hf : v.finding = .layerDirection importing imported specifier) :
    ∃ u ∈ ctx.units, ∃ i ∈ u.imports, v.location.file = u.path ∧ i.specifier = specifier := by
  rw [run, ofUnit_eq] at h
  obtain ⟨u, hu, hv⟩ := List.mem_flatMap.mp h
  obtain ⟨i, hi, hv⟩ := List.mem_filterMap.mp hv
  obtain ⟨own, -, hv⟩ := Option.bind_eq_some_iff.mp hv
  refine ⟨u, hu, i, hi, ?_⟩
  unfold ofImport? at hv
  cases hc : ctx.classifier.classify i.specifier with
  | none =>
    rw [hc] at hv
    cases hv
  | some other =>
    simp only [hc] at hv
    by_cases hp : Config.permits allowed own other = true
    · rw [if_pos hp] at hv
      cases hv
    · rw [if_neg hp] at hv
      cases hv
      cases hf
      exact ⟨rfl, rfl⟩

theorem Cycle.mem_cycles_of_mem_run {cycle : List String} (h : v ∈ Cycle.run ctx)
    (hf : v.finding = .circularDependency cycle) : cycle ∈ ctx.graph.cycles := by
  obtain ⟨c, hc, hv⟩ := List.mem_filterMap.mp h
  cases c with
  | nil => cases hv
  | cons first rest =>
    cases hv
    cases hf
    exact hc

end Check

namespace Analysis

/-- A run that succeeds reports on some units. -/
theorem exists_report_of_run {a : Analysis} {access : FileAccess} {root : String}
    {includes excludes : Option (List String)} {r : Report} (h : a.run access root includes excludes = .ok r) :
    ∃ units, r = a.report units := by
  cases hs : access.scan (includes.getD a.config.project.includes) (excludes.getD a.config.project.excludes) with
  | ok paths =>
    rw [a.run_of_scan_ok hs] at h
    exact ⟨_, (Except.ok.inj h).symm⟩
  | error causes =>
    rw [a.run_of_scan_error hs] at h
    cases h

variable (a : Analysis) (units : List SourceUnit)

/-- What stands under a rule of a report comes from a check of that rule. -/
theorem mem_violations_report {rule : Rule} {v : Violation} :
    v ∈ (a.report units).violations.get rule ↔
      ∃ check ∈ a.activeChecks, check.rule = rule ∧ v ∈ check.run (a.context units) := by
  simp only [violations_report, List.mem_flatMap, List.mem_filter, decide_eq_true_eq, and_assoc]

theorem finding_rule_report (rule : Rule) (v : Violation) (hv : v ∈ (a.report units).violations.get rule) :
    v.finding.rule = rule := by
  obtain ⟨check, -, rfl, hrun⟩ := (a.mem_violations_report units).mp hv
  exact (Check.labels_of_mem_run hrun).2.1

/-- The links of a reported cycle are edges. -/
theorem link_mem_edges {v : Violation} {cycle : List String} {i : Nat} {e : String × String}
    (hv : v ∈ (a.report units).violations.get .circularDependency) (hf : v.finding = .circularDependency cycle)
    (hi : cycle[i]? = some e.1) (hnext : cycle[(i + 1) % cycle.length]? = some e.2) :
    e ∈ (Graph.build units).edges := by
  obtain ⟨check, -, hrule, hrun⟩ := (a.mem_violations_report units).mp hv
  cases check with
  | cycle =>
    have hc : cycle ∈ (Graph.build units).cycles := Check.Cycle.mem_cycles_of_mem_run hrun hf
    exact ((Graph.inv_build units).isCycle hc).1.edge_next hi hnext
  | _ => cases hrule

/-- An import against the layers that means a file is an edge. -/
theorem breach_mem_edges {v : Violation} {importing imported : Layer} {specifier target : String}
    (hv : v ∈ (a.report units).violations.get .layerDirection)
    (hf : v.finding = .layerDirection importing imported specifier)
    (ht : Graph.resolveAmong? (units.map (·.path)) v.location.file specifier = some target) :
    (v.location.file, target) ∈ (Graph.build units).edges := by
  obtain ⟨check, -, hrule, hrun⟩ := (a.mem_violations_report units).mp hv
  cases check with
  | direction allowed =>
    obtain ⟨u, hu, i, hi, hfile, rfl⟩ := Check.Direction.import_of_mem_run hrun hf
    rw [hfile] at ht ⊢
    exact Graph.mem_edges_build hu hi ht
  | _ => cases hrule

theorem reported_mem_edges {e : String × String} (h : (a.report units).Reported e) : e ∈ (Graph.build units).edges := by
  cases h with
  | link hv hf hi hnext => exact a.link_mem_edges units hv hf hi hnext
  | breach hv hf ht => exact a.breach_mem_edges units hv hf ht

end Analysis

namespace Report

variable {r : Report}

/-! ## Red edges -/

def Arrow.ends (x : Arrow) : String × String := (x.source, x.target)

theorem map_ends_drawing (r : Report) : r.drawing.arrows.map Arrow.ends = r.graph.edges := by
  rw [drawing, List.map_map]
  exact List.map_id _

theorem red_iff {x : Arrow} (hx : x ∈ r.drawing.arrows) : x.red = true ↔ x.ends ∈ r.violatingEdges := by
  obtain ⟨e, -, rfl⟩ := List.mem_map.mp hx
  exact List.contains_iff_mem

theorem countP_red_eq (r : Report) :
    r.drawing.arrows.countP (·.red) = r.graph.edges.countP r.violatingEdges.contains := by
  rw [drawing, List.countP_map]
  rfl

/-- Flagged pairs that are edges are drawn in red, each once. -/
theorem countP_red (hn : r.graph.edges.Nodup) (hsub : ∀ e ∈ r.violatingEdges, e ∈ r.graph.edges) :
    r.drawing.arrows.countP (·.red) = r.violatingEdges.toFinset.card := by
  have hset : (r.graph.edges.filter r.violatingEdges.contains).toFinset = r.violatingEdges.toFinset := by
    ext e
    rw [List.mem_toFinset, List.mem_toFinset, List.mem_filter, List.contains_iff_mem]
    exact ⟨fun h => h.2, fun h => ⟨hsub e h, h⟩⟩
  rw [countP_red_eq, List.countP_eq_length_filter, ← hset, List.toFinset_card_of_nodup (hn.filter _)]

/-- The flagged pairs of a report, without the sorting of its violations. -/
theorem violatingEdges_report (a : Analysis) (units : List SourceUnit) :
    (a.report units).violatingEdges =
      Rule.all.flatMap fun rule =>
        ((a.activeChecks.filter fun check => check.rule = rule).flatMap (·.run (a.context units))).flatMap
          (edgesOf (.build units)) := by
  rw [violatingEdges, all, funext (a.violations_report units), List.flatMap_assoc]
  rfl

/-- The drawing of any report of a run has one statement for each edge, in the order in which the imports asked for
    them, and an edge is red exactly if the report tells of it. Whatever it tells of is an edge, so there are as many
    red ones as there are pairs reported. -/
theorem fileGraph_flags_reported (a : Analysis) {access : FileAccess} {root : String}
    {includes excludes : Option (List String)} (h : a.run access root includes excludes = .ok r) :
    (∀ e ∈ r.violatingEdges, e ∈ r.graph.edges) ∧ r.fileGraph = r.drawing.text ∧
      r.drawing.arrows.map Arrow.ends = r.graph.edges ∧ r.graph.edges = (Graph.wanted r.units).eraseDups ∧
      r.graph.edges.Nodup ∧ (∀ x ∈ r.drawing.arrows, x.red = true ↔ r.Reported x.ends) ∧
      r.drawing.arrows.countP (·.red) = {e | r.Reported e}.ncard := by
  obtain ⟨units, rfl⟩ := Analysis.exists_report_of_run h
  have hmem : ∀ e, e ∈ (a.report units).violatingEdges ↔ (a.report units).Reported e := fun e =>
    mem_violatingEdges (a.finding_rule_report units) (Graph.knows_build units)
  have hsub : ∀ e ∈ (a.report units).violatingEdges, e ∈ (a.report units).graph.edges := fun e he =>
    a.reported_mem_edges units ((hmem e).mp he)
  have hnodup : (a.report units).graph.edges.Nodup := (Graph.inv_build units).edges_nodup
  refine ⟨hsub, fileGraph_eq_text _, map_ends_drawing _, Graph.edges_build units, hnodup, ?_, ?_⟩
  · intro x hx
    rw [red_iff hx, hmem]
  · have hset : {e | (a.report units).Reported e} = (a.report units).violatingEdges.toFinset := by
      ext e
      rw [List.coe_toFinset]
      exact (hmem e).symm
    rw [countP_red hnodup hsub, hset, Set.ncard_coe_finset]

/-- Two files that import each other, one of them against the layers, and a third that imports the first. -/
def knot : FileAccess where
  scan _ _ := .ok ["domain/a.ts", "shared/b.ts", "z.ts"]
  read path :=
    [("domain/a.ts", "import'../shared/b'"), ("shared/b.ts", "import'../domain/a'"),
      ("z.ts", "import'./domain/a'")].lookup path

def knotUnits : List SourceUnit :=
  [⟨"domain/a.ts", "import'../shared/b'", [⟨"../shared/b", 1⟩], [], some .domain, 0⟩,
    ⟨"shared/b.ts", "import'../domain/a'", [⟨"../domain/a", 1⟩], [], some .shared, 0⟩,
    ⟨"z.ts", "import'./domain/a'", [⟨"./domain/a", 1⟩], [], none, 0⟩]

def graphChecks : Analysis := ⟨.default, none, .builtin, some [.direction Config.Layers.defaultAllowed, .cycle]⟩

theorem run_knot : graphChecks.run knot "." none none = .ok (graphChecks.report knotUnits) := by
  have hread : ["domain/a.ts", "shared/b.ts", "z.ts"].filterMap (graphChecks.unit? knot) = knotUnits := by
    decide +kernel
  have hunits : graphChecks.units knot ["domain/a.ts", "shared/b.ts", "z.ts"] = knotUnits := by
    rw [Analysis.units, hread]
    exact List.mergeSort_of_pairwise (by decide)
  rw [graphChecks.run_of_scan_ok rfl, hunits]

theorem violatingEdges_knot : (graphChecks.report knotUnits).violatingEdges =
    [("shared/b.ts", "domain/a.ts"), ("domain/a.ts", "shared/b.ts"), ("shared/b.ts", "domain/a.ts")] := by
  rw [violatingEdges_report]
  decide +kernel

/-- One edge of the three is reported twice and another once, so two are red. -/
theorem fileGraph_flags_reported_knot :
    ∃ r, graphChecks.run knot "." none none = .ok r ∧
      r.violatingEdges =
        [("shared/b.ts", "domain/a.ts"), ("domain/a.ts", "shared/b.ts"), ("shared/b.ts", "domain/a.ts")] ∧
      r.graph.edges =
        [("domain/a.ts", "shared/b.ts"), ("shared/b.ts", "domain/a.ts"), ("z.ts", "domain/a.ts")] ∧
      (∀ x ∈ r.drawing.arrows, x.red = true ↔ r.Reported x.ends) ∧ r.drawing.arrows.countP (·.red) = 2 ∧
      {e | r.Reported e}.ncard = 2 := by
  have hedges : (graphChecks.report knotUnits).graph.edges =
      [("domain/a.ts", "shared/b.ts"), ("shared/b.ts", "domain/a.ts"), ("z.ts", "domain/a.ts")] := by
    decide +kernel
  obtain ⟨hsub, -, -, -, hnodup, hred, hcount⟩ := fileGraph_flags_reported graphChecks run_knot
  have htwo : (graphChecks.report knotUnits).drawing.arrows.countP (·.red) = 2 := by
    rw [countP_red hnodup hsub, violatingEdges_knot]
    decide
  exact ⟨_, run_knot, violatingEdges_knot, hedges, hred, htwo, hcount.symm.trans htwo⟩

end Report

end LayerLint
