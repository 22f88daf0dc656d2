/-
  LayerLint.Graph.Basic: the dependency graph of a project.

  A node is a file; an edge goes from a file to a file it imports. Nodes are numbered in the order
  they were registered and edges kept in the order they were added. Both lists only grow at the end: a
  path is registered once and keeps the layer it came with, and an edge is stored once. A path is
  found through the index, which is kept beside the nodes.
-/

import LayerLint.Source.Unit

namespace LayerLint

namespace Graph

structure Node where
  path : String
  layer : Option Layer
  deriving DecidableEq, Repr

end Graph

structure Graph where
  nodes : List Graph.Node
  /-- The numbers of the registered paths, the newest first. -/
  index : List (String × Nat)
  /-- Pairs of node numbers, the importing file first. -/
  links : List (Nat × Nat)
  deriving DecidableEq, Repr

namespace Graph

def empty : Graph := ⟨[], [], []⟩

def index? (g : Graph) (path : String) : Option Nat := g.index.lookup path

def contains (g : Graph) (path : String) : Bool := (g.index? path).isSome

def node? (g : Graph) (path : String) : Option Node := (g.index? path).bind (g.nodes[·]?)

/-- Registers a path unless it is there, and gives its number. -/
def register (g : Graph) (path : String) (layer : Option Layer) : Graph × Nat :=
  match g.index? path with
  | some i => (g, i)
  | none =>
    ({ g with
       nodes := g.nodes ++ [⟨path, layer⟩]
       index := (path, g.nodes.length) :: g.index }, g.nodes.length)

def registerUnit (g : Graph) (u : SourceUnit) : Graph × Nat := g.register u.path u.layer

/-- Adds an edge between two registered paths unless it is there, and tells whether it was added. -/
def connect (g : Graph) (source target : String) : Graph × Bool :=
  match g.index? source, g.index? target with
  | some a, some b =>
    if g.links.contains (a, b) then (g, false) else ({ g with links := g.links ++ [(a, b)] }, true)
  | _, _ => (g, false)

/-- The path of a node number. Every number of an edge has one. -/
def pathAt (g : Graph) (i : Nat) : String :=
  match g.nodes[i]? with
  | some n => n.path
  | none => ""

/-- The edges as pairs of paths, in the order they were added. -/
def edges (g : Graph) : List (String × String) :=
  g.links.map fun (a, b) => (g.pathAt a, g.pathAt b)

def targets (g : Graph) (i : Nat) : List Nat :=
  (g.links.filter fun l => l.1 == i).map (·.2)

def sources (g : Graph) (i : Nat) : List Nat :=
  (g.links.filter fun l => l.2 == i).map (·.1)

def dependencies (g : Graph) (path : String) : List String :=
  match g.index? path with
  | some i => (g.targets i).map g.pathAt
  | none => []

def dependents (g : Graph) (path : String) : List String :=
  match g.index? path with
  | some i => (g.sources i).map g.pathAt
  | none => []

def toJson (g : Graph) : Json :=
  .arr (g.nodes.map fun n =>
    .obj [("path", .str n.path), ("layer", Layer.optionJson n.layer),
      ("dependencies", .strings (g.dependencies n.path))])

end Graph

end LayerLint
