/-
  LayerLint.Report.Dot: reports as graphs for drawing.

  `fileGraph` draws every file, grouped by layer, and every edge; `layerFlow` draws the layers with the
  number of edges between them. Edges that take part in a violation are red and dashed: the links of a
  reported cycle, and imports against the direction of the layers as far as they can be resolved.
-/

import LayerLint.Graph.Resolve
import LayerLint.Report.Basic

namespace LayerLint

namespace Report

/-- The links of a cycle, the one from its last file to its first included. -/
def cycleLinks (cycle : List String) : List (String × String) :=
  cycle.zip (cycle.drop 1 ++ cycle.take 1)

/-- The edges that a violation is about. -/
def edgesOf (g : Graph) (v : Violation) : List (String × String) :=
  match v.finding with
  | .circularDependency cycle => cycleLinks cycle
  | .layerDirection _ _ specifier =>
    ((g.resolve? v.location.file specifier).map fun t => (v.location.file, t)).toList
  | _ => []

def violatingEdges (r : Report) : List (String × String) := r.all.flatMap (edgesOf r.graph)

/-- A path as the name of a node: letters, digits and low lines, not starting with a digit. -/
def nodeId (path : String) : String :=
  let cs := path.toList.map fun c => if Text.isAlphanumeric c || c == '_' then c else '_'
  match cs with
  | c :: _ => String.ofList (if Text.isAsciiDigit c then 'n' :: '_' :: cs else cs)
  | [] => ""

def layerColor : Layer → String
  | .domain => "#e8f5e9"
  | .application => "#e3f2fd"
  | .infrastructure => "#fff3e0"
  | .shared => "#f3e5f5"

def flowName : Option Layer → String
  | some l => l.name
  | none => "unclassified"

def flowColor : Option Layer → String
  | some l => layerColor l
  | none => "#f5f5f5"

def nodeLine (n : Graph.Node) : String :=
  s!"    {nodeId n.path} [label=\"{Path.fileName n.path}\"];\n"

def cluster (layer : Option Layer) (nodes : List Graph.Node) : String :=
  match nodes.filter fun n => n.layer = layer with
  | [] => ""
  | members =>
    s!"  subgraph cluster_{flowName layer} \x7b\n    label=\"{flowName layer}\";\n" ++
    (match layer with
      | some l => s!"    style=filled;\n    color=\"{layerColor l}\";\n"
      | none => "    style=dashed;\n") ++
    "    node [fillcolor=white];\n" ++ String.join (members.map nodeLine) ++ "  \x7d\n\n"

def edgeLine (flagged : List (String × String)) (e : String × String) : String :=
  let line := s!"  {nodeId e.1} -> {nodeId e.2}"
  if flagged.contains e then line ++ " [color=red, style=dashed];\n" else line ++ ";\n"

def fileGraph (r : Report) : String :=
  let flagged := r.violatingEdges
  "digraph strata \x7b\n  rankdir=TB;\n  node [shape=box, style=filled];\n\n" ++
  String.join ((Layer.all.map some ++ [none]).map fun l => cluster l r.graph.nodes) ++
  String.join (r.graph.edges.map (edgeLine flagged)) ++ "\x7d\n"

/-! ## Layers -/

def flowOrder : List (Option Layer) :=
  [some .application, some .domain, some .infrastructure, some .shared, none]

def layerOf (g : Graph) (path : String) : Option Layer := (g.node? path).bind (·.layer)

def flow (g : Graph) (edges : List (String × String)) (a b : Option Layer) :
    List (String × String) :=
  edges.filter fun e => layerOf g e.1 = a && layerOf g e.2 = b

/-- The edges between two layers as one arrow, or nothing if there are none. -/
def flowLine (g : Graph) (edges flagged : List (String × String)) (a b : Option Layer) : String :=
  match flow g edges a b with
  | [] => ""
  | es =>
    let arrow := s!"  {flowName a} -> {flowName b} ["
    match (es.filter flagged.contains).length with
    | 0 => arrow ++ s!"label=\"{es.length} imports\"];\n"
    | n => arrow ++ s!"color=red, style=dashed, label=\"{es.length} imports ({n} flagged)\"];\n"

def countOrder : List (Option Layer) :=
  [some .application, some .domain, some .infrastructure, none, some .shared]

def filesOf (m : ProjectMetrics) : Option Layer → Nat
  | some l => m.filesByLayer.get l
  | none => m.unclassifiedFiles

def layerLine (m : ProjectMetrics) (l : Option Layer) : String :=
  match filesOf m l with
  | 0 => ""
  | n => s!"  {flowName l} [label=\"{flowName l} ({n})\", fillcolor=\"{flowColor l}\"];\n"

def layerFlow (r : Report) : String :=
  let flagged := r.violatingEdges
  let edges := r.graph.edges
  "digraph layer_flow \x7b\n  rankdir=LR;\n  node [shape=box, style=filled];\n\n" ++
  String.join (countOrder.map (layerLine r.metrics)) ++ "\n" ++
  String.join (flowOrder.flatMap fun a => flowOrder.map fun b =>
    flowLine r.graph edges flagged a b) ++ "\x7d\n"

end Report

end LayerLint
