/-
  LayerLint.Graph.Metrics: numbers about the shape of a graph.
-/

import LayerLint.Graph.Basic
import LayerLint.Number.Shortest

namespace LayerLint

structure GraphMetrics where
  fileCount : Nat
  edgeCount : Nat
  /-- Edges per file, zero for the empty graph. -/
  avgOutDegree : Binary64
  maxOutDegree : Nat
  deriving DecidableEq, Repr

namespace Graph

def outDegree (g : Graph) (i : Nat) : Nat := (g.targets i).length

def maxOutDegree (g : Graph) : Nat :=
  ((List.range g.nodes.length).map g.outDegree).foldl max 0

def metrics (g : Graph) : GraphMetrics where
  fileCount := g.nodes.length
  edgeCount := g.links.length
  avgOutDegree := .ofRatio g.links.length g.nodes.length
  maxOutDegree := g.maxOutDegree

end Graph

namespace GraphMetrics

def toJson (m : GraphMetrics) : Json :=
  .obj [("file_count", .nat m.fileCount), ("edge_count", .nat m.edgeCount),
    ("avg_out_degree", .real m.avgOutDegree.shortest), ("max_out_degree", .nat m.maxOutDegree)]

end GraphMetrics

end LayerLint
