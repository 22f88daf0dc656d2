/-
  LayerLint.Proofs.Report.Flow: what the drawing of the layers counts.

  The drawing has a line for each layer with its number of files, and one for each pair of layers with the number of
  imports between them and how many of these are flagged (`layerFlow_eq_text`). The layers of the first lines come from
  the units and those of the others from the nodes of the graph. An edge goes from one layer to one other, so the
  imports of all lines are the edges of the graph (`sum_imports`) and the flagged ones the red edges of the file graph
  (`sum_flagged`). A node has the layer of a unit, so each end of a line has a line of its own
  (`exists_unit_of_registered`). `layerFlow_conserves` says so of the report of any run.
-/

import LayerLint.Proofs.Report.Flagged
import LayerLint.Proofs.Report.Metrics

namespace LayerLint

namespace Report

/-! ## The lines -/

structure LayerBox where
  layer : Option Layer
  files : Nat
  deriving DecidableEq, Repr

structure Stream where
  source : Option Layer
  target : Option Layer
  imports : Nat
  flagged : Nat
  deriving DecidableEq, Repr

structure FlowDrawing where
  boxes : List LayerBox
  streams : List Stream
  deriving DecidableEq, Repr

def LayerBox.text (b : LayerBox) : String :=
  s!"  {flowName b.layer} [label=\"{flowName b.layer} ({b.files})\", fillcolor=\"{flowColor b.layer}\"];\n"

def Stream.text (x : Stream) : String :=
  s!"  {flowName x.source} -> {flowName x.target} [" ++
    if x.flagged = 0 then s!"label=\"{x.imports} imports\"];\n"
    else s!"color=red, style=dashed, label=\"{x.imports} imports ({x.flagged} flagged)\"];\n"

def FlowDrawing.text (d : FlowDrawing) : String :=
  "digraph layer_flow \x7b\n  rankdir=LR;\n  node [shape=box, style=filled];\n\n" ++
    String.join (d.boxes.map LayerBox.text) ++ "\n" ++ String.join (d.streams.map Stream.text) ++ "\x7d\n"

def flowPairs : List (Option Layer × Option Layer) := flowOrder.flatMap fun a => flowOrder.map fun b => (a, b)

def boxOf (r : Report) (l : Option Layer) : LayerBox := ⟨l, filesOf r.metrics l⟩

def streamOf (r : Report) (p : Option Layer × Option Layer) : Stream :=
  let es := flow r.graph r.graph.edges p.1 p.2
  ⟨p.1, p.2, es.length, (es.filter r.violatingEdges.contains).length⟩

/-- What is drawn of a report: the layers that have files, and the pairs of layers with imports between them. -/
def flowDrawing (r : Report) : FlowDrawing where
  boxes := (countOrder.map r.boxOf).filter fun b => b.files ≠ 0
  streams := (flowPairs.map r.streamOf).filter fun x => x.imports ≠ 0

/-- Lines that are empty can be left out. -/
theorem join_map_eq {α : Type} {p : α → Bool} {line text : α → String} (l : List α)
    (h : ∀ a ∈ l, line a = if p a = true then text a else "") :
    String.join (l.map line) = String.join ((l.filter p).map text) := by
  induction l with
  | nil => rfl
  | cons a l ih =>
    have hrest := ih fun b hb => h b (List.mem_cons_of_mem a hb)
    rw [List.map_cons, String.join_cons, h a List.mem_cons_self, hrest]
    by_cases hp : p a = true
    · rw [if_pos hp, List.filter_cons_of_pos hp, List.map_cons, String.join_cons]
    · rw [if_neg hp, List.filter_cons_of_neg hp, String.empty_append]

theorem layerLine_eq (r : Report) (l : Option Layer) :
    layerLine r.metrics l = if (r.boxOf l).files ≠ 0 then (r.boxOf l).text else "" := by
  unfold layerLine boxOf LayerBox.text
  cases filesOf r.metrics l with
  | zero => rfl
  | succ n => rfl

theorem flowLine_eq (r : Report) (p : Option Layer × Option Layer) :
    flowLine r.graph r.graph.edges r.violatingEdges p.1 p.2 =
      if (r.streamOf p).imports ≠ 0 then (r.streamOf p).text else "" := by
  unfold flowLine streamOf Stream.text
  cases flow r.graph r.graph.edges p.1 p.2 with
  | nil => rfl
  | cons e es =>
    dsimp only
    rw [if_pos (by simp)]
    split
    · rename_i hnone
      exact congrArg _ (if_pos hnone).symm
    · rename_i hsome
      exact congrArg _ (if_neg hsome).symm

theorem layerFlow_eq_text (r : Report) : r.layerFlow = r.flowDrawing.text := by
  have hboxes : String.join (countOrder.map (layerLine r.metrics)) =
      String.join (r.flowDrawing.boxes.map LayerBox.text) := by
    show _ = String.join (((countOrder.map r.boxOf).filter fun b => b.files ≠ 0).map LayerBox.text)
    rw [List.filter_map, List.map_map]
    refine join_map_eq countOrder fun l _ => ?_
    simpa using r.layerLine_eq l
  have hstreams : String.join (flowOrder.flatMap fun a => flowOrder.map fun b =>
      flowLine r.graph r.graph.edges r.violatingEdges a b) = String.join (r.flowDrawing.streams.map Stream.text) := by
    have hpairs : (flowOrder.flatMap fun a => flowOrder.map fun b =>
        flowLine r.graph r.graph.edges r.violatingEdges a b) =
        flowPairs.map fun p => flowLine r.graph r.graph.edges r.violatingEdges p.1 p.2 := by
      simp only [flowPairs, List.map_flatMap, List.map_map]
      rfl
    show _ = String.join (((flowPairs.map r.streamOf).filter fun x => x.imports ≠ 0).map Stream.text)
    rw [hpairs, List.filter_map, List.map_map]
    refine join_map_eq flowPairs fun p _ => ?_
    simpa using r.flowLine_eq p
  unfold layerFlow FlowDrawing.text
  simp only [hboxes, hstreams]

/-! ## Counting edges by their layers -/

def flowLabel (g : Graph) (e : String × String) : Option Layer × Option Layer := (layerOf g e.1, layerOf g e.2)

theorem flow_eq (g : Graph) (edges : List (String × String)) (p : Option Layer × Option Layer) :
    flow g edges p.1 p.2 = edges.filter fun e => flowLabel g e = p := by
  refine List.filter_congr fun e _ => ?_
  rw [← Bool.decide_and, decide_eq_decide, flowLabel, Prod.ext_iff]

theorem flowPairs_nodup : flowPairs.Nodup := by decide

theorem mem_flowPairs (p : Option Layer × Option Layer) : p ∈ flowPairs := by
  have horder : countOrder.Perm flowOrder := by decide
  have hall : ∀ l, l ∈ flowOrder := fun l => horder.mem_iff.mp (mem_countOrder l)
  exact List.mem_flatMap.mpr ⟨p.1, hall _, List.mem_map_of_mem (hall p.2)⟩

theorem flagged_le_imports (r : Report) (p : Option Layer × Option Layer) :
    (r.streamOf p).flagged ≤ (r.streamOf p).imports :=
  List.length_filter_le _ _

theorem sum_imports (r : Report) : (r.flowDrawing.streams.map (·.imports)).sum = r.graph.edges.length := by
  have hstream : ∀ p, (r.streamOf p).imports = r.graph.edges.countP fun e => flowLabel r.graph e = p := by
    intro p
    rw [List.countP_eq_length_filter, ← flow_eq]
    rfl
  rw [flowDrawing, Tally.sum_map_filter _ (by simp), List.map_map]
  simp only [Function.comp_def, hstream]
  exact Tally.sum_countP_label flowPairs_nodup _ fun e _ => mem_flowPairs _

theorem sum_flagged (r : Report) :
    (r.flowDrawing.streams.map (·.flagged)).sum = r.drawing.arrows.countP (·.red) := by
  have hstream : ∀ p, (r.streamOf p).flagged =
      r.graph.edges.countP fun e => r.violatingEdges.contains e && decide (flowLabel r.graph e = p) := by
    intro p
    rw [← List.countP_filter, List.countP_eq_length_filter, ← flow_eq]
    rfl
  have hnone : ∀ x ∈ flowPairs.map r.streamOf, decide (x.imports ≠ 0) = false → x.flagged = 0 := by
    intro x hx hzero
    obtain ⟨p, -, rfl⟩ := List.mem_map.mp hx
    have hle := r.flagged_le_imports p
    simp only [ne_eq, decide_not, Bool.not_eq_false', decide_eq_true_eq] at hzero
    omega
  rw [flowDrawing, Tally.sum_map_filter _ hnone, List.map_map, countP_red_eq]
  simp only [Function.comp_def, hstream]
  exact Tally.sum_countP_and_label flowPairs_nodup _ _ fun e _ => mem_flowPairs _

/-! ## Layers of units and of nodes -/

theorem filesOf_ofUnits (units : List SourceUnit) (l : Option Layer) :
    filesOf (.ofUnits units) l = ProjectMetrics.filesIn units l := by
  rcases l with _ | l
  · rfl
  · cases l <;> rfl

/-- A registered path is in the layer of a unit. -/
theorem exists_unit_of_registered {units : List SourceUnit} {path : String}
    (h : (Graph.build units).contains path = true) : ∃ u ∈ units, layerOf (.build units) path = u.layer := by
  rw [Graph.knows_build, List.contains_iff_mem, List.mem_map] at h
  obtain ⟨v, hv, hpath⟩ := h
  obtain ⟨u, hu⟩ : ∃ u, units.find? (·.path == path) = some u := by
    rw [← Option.isSome_iff_exists, List.find?_isSome]
    exact ⟨v, hv, by simpa using hpath⟩
  refine ⟨u, List.mem_of_find?_eq_some hu, ?_⟩
  rw [layerOf, Graph.node?_build, hu]
  rfl

section

variable {r : Report} {units : List SourceUnit} (hm : r.metrics = .ofUnits units)

include hm

theorem sum_files : (r.flowDrawing.boxes.map (·.files)).sum = r.metrics.totalFiles := by
  have hbox : ∀ l, (r.boxOf l).files = ProjectMetrics.filesIn units l := by
    intro l
    rw [boxOf, hm, filesOf_ofUnits]
  rw [flowDrawing, Tally.sum_map_filter _ (by simp), List.map_map, hm]
  simp only [Function.comp_def, hbox]
  exact ProjectMetrics.sum_filesIn countOrder_nodup mem_countOrder units

theorem mem_boxes_of_unit {u : SourceUnit} (hu : u ∈ units) :
    flowName u.layer ∈ r.flowDrawing.boxes.map fun b => flowName b.layer := by
  have hfiles : 0 < (r.boxOf u.layer).files := by
    rw [boxOf, hm, filesOf_ofUnits]
    exact List.countP_pos_iff.mpr ⟨u, hu, by simp⟩
  have hbox : r.boxOf u.layer ∈ r.flowDrawing.boxes := by
    refine List.mem_filter.mpr ⟨List.mem_map_of_mem (mem_countOrder _), ?_⟩
    simp only [ne_eq, decide_not, Bool.not_eq_true', decide_eq_false_iff_not]
    omega
  exact List.mem_map.mpr ⟨_, hbox, rfl⟩

/-- Where there is an import between two layers, both have files. -/
theorem ends_mem_boxes (hg : r.graph = .build units) {x : Stream} (hx : x ∈ r.flowDrawing.streams) :
    flowName x.source ∈ r.flowDrawing.boxes.map (fun b => flowName b.layer) ∧
      flowName x.target ∈ r.flowDrawing.boxes.map (fun b => flowName b.layer) := by
  obtain ⟨hx, himports⟩ := List.mem_filter.mp hx
  obtain ⟨p, -, rfl⟩ := List.mem_map.mp hx
  have hne : flow r.graph r.graph.edges p.1 p.2 ≠ [] := by
    intro hnil
    simp [streamOf, hnil] at himports
  obtain ⟨e, he⟩ := List.exists_mem_of_ne_nil _ hne
  rw [flow_eq] at he
  obtain ⟨hedge, hlabel⟩ := List.mem_filter.mp he
  obtain ⟨hsource, htarget⟩ := Prod.mk.inj ((of_decide_eq_true hlabel).trans (Prod.eta p).symm)
  rw [hg] at hedge hsource htarget
  obtain ⟨h₁, h₂⟩ := (Graph.inv_build units).consistent.edges_registered e hedge
  obtain ⟨u, hu, hul⟩ := exists_unit_of_registered h₁
  obtain ⟨v, hv, hvl⟩ := exists_unit_of_registered h₂
  show flowName p.1 ∈ _ ∧ flowName p.2 ∈ _
  rw [← hsource, ← htarget, hul, hvl]
  exact ⟨mem_boxes_of_unit hm hu, mem_boxes_of_unit hm hv⟩

end

theorem streams_once (r : Report) :
    (r.flowDrawing.streams.map fun x => (flowName x.source, flowName x.target)).Nodup := by
  have hall : ((flowPairs.map r.streamOf).map fun x => (flowName x.source, flowName x.target)).Nodup := by
    rw [List.map_map]
    show (flowPairs.map fun p => (flowName p.1, flowName p.2)).Nodup
    decide
  exact hall.sublist (List.filter_sublist.map _)

/-! ## The drawing of a run -/

structure FlowFits (r : Report) (d : FlowDrawing) : Prop where
  imports : (d.streams.map (·.imports)).sum = r.graphMetrics.edgeCount
  flagged : (d.streams.map (·.flagged)).sum = r.drawing.arrows.countP (·.red)
  flagged_le : ∀ x ∈ d.streams, x.flagged ≤ x.imports
  once : (d.streams.map fun x => (flowName x.source, flowName x.target)).Nodup
  boxed : ∀ x ∈ d.streams, flowName x.source ∈ d.boxes.map (fun b => flowName b.layer) ∧
    flowName x.target ∈ d.boxes.map (fun b => flowName b.layer)
  files : (d.boxes.map (·.files)).sum = r.metrics.totalFiles

/-- The drawing of the layers counts every edge of the graph once and every red edge of the file graph once, has one
    line for a pair of layers and a line for each layer that it names, and counts every file once. -/
theorem layerFlow_conserves (a : Analysis) {access : FileAccess} {root : String}
    {includes excludes : Option (List String)} {r : Report} (h : a.run access root includes excludes = .ok r) :
    r.layerFlow = r.flowDrawing.text ∧ r.fileGraph = r.drawing.text ∧ FlowFits r r.flowDrawing := by
  obtain ⟨units, rfl⟩ := Analysis.exists_report_of_run h
  refine ⟨layerFlow_eq_text _, fileGraph_eq_text _, ?_⟩
  exact {
    imports := (sum_imports _).trans (Graph.length_edges _)
    flagged := sum_flagged _
    flagged_le := by
      intro x hx
      obtain ⟨p, -, rfl⟩ := List.mem_map.mp (List.mem_of_mem_filter hx)
      exact flagged_le_imports _ p
    once := streams_once _
    boxed := fun x hx => ends_mem_boxes rfl rfl hx
    files := sum_files rfl }

/-- Three edges between three layers, of which two are flagged. -/
theorem layerFlow_conserves_knot :
    ∃ r, graphChecks.run knot "." none none = .ok r ∧
      r.flowDrawing.boxes = [⟨some .domain, 1⟩, ⟨none, 1⟩, ⟨some .shared, 1⟩] ∧
      r.flowDrawing.streams = [⟨some .domain, some .shared, 1, 1⟩, ⟨some .shared, some .domain, 1, 1⟩,
        ⟨none, some .domain, 1, 0⟩] ∧
      r.graphMetrics.edgeCount = 3 ∧ r.drawing.arrows.countP (·.red) = 2 ∧ r.metrics.totalFiles = 3 := by
  have hboxes : (graphChecks.report knotUnits).flowDrawing.boxes =
      [⟨some .domain, 1⟩, ⟨none, 1⟩, ⟨some .shared, 1⟩] := by decide +kernel
  have hstreams : (graphChecks.report knotUnits).flowDrawing.streams =
      [⟨some .domain, some .shared, 1, 1⟩, ⟨some .shared, some .domain, 1, 1⟩, ⟨none, some .domain, 1, 0⟩] := by
    have hstream : (graphChecks.report knotUnits).streamOf = fun p =>
        let es := flow (.build knotUnits) (Graph.build knotUnits).edges p.1 p.2
        ⟨p.1, p.2, es.length, (es.filter [("shared/b.ts", "domain/a.ts"), ("domain/a.ts", "shared/b.ts"),
          ("shared/b.ts", "domain/a.ts")].contains).length⟩ := by
      funext p
      rw [streamOf, violatingEdges_knot]
      rfl
    rw [flowDrawing, hstream]
    decide +kernel
  obtain ⟨-, -, hfits⟩ := layerFlow_conserves graphChecks run_knot
  refine ⟨_, run_knot, hboxes, hstreams, ?_, ?_, ?_⟩
  · rw [← hfits.imports, hstreams]
    rfl
  · rw [← hfits.flagged, hstreams]
    rfl
  · rw [← hfits.files, hboxes]
    rfl

end Report

end LayerLint
