/-
  LayerLint.Graph.Cycles: the cycles that a depth-first walk meets.

  The walk takes its roots in the order of registration and the targets of a node in the order of the
  edges. When it meets a node that lies on the way to where it stands, the piece of the way from that
  node on is a cycle. A node is entered once, so in a tangle of cycles one is reported for each edge
  that leads back, and not every cycle there is.

  The walk is a machine with an explicit list of open nodes; `step` is one move of it.
-/

import LayerLint.Graph.Basic

namespace LayerLint

namespace Graph

/-- A node the walk has entered and not left, with the targets it has still to look at. -/
structure Frame where
  node : Nat
  pending : List Nat
  deriving DecidableEq, Repr

structure Walk where
  /-- The open nodes, innermost first. -/
  work : List Frame
  /-- The way to the innermost open node, innermost first. -/
  path : List Nat
  /-- The nodes on the way. -/
  onPath : List Nat
  visited : List Nat
  /-- The cycles met, in order, each from the node that was met again. -/
  cycles : List (List Nat)
  deriving DecidableEq, Repr

namespace Walk

def start : Walk := ⟨[], [], [], [], []⟩

def enter (g : Graph) (w : Walk) (n : Nat) : Walk :=
  { w with
    work := ⟨n, g.targets n⟩ :: w.work
    path := n :: w.path
    onPath := n :: w.onPath
    visited := n :: w.visited }

/-- The way from a node that lies on it to its end; all of it for a node that does not. -/
def cycleFrom (path : List Nat) (n : Nat) : List Nat :=
  path.reverse.drop ((path.reverse.findIdx? (· == n)).getD 0)

/-- One move: look at the next target of the innermost open node, or leave it. -/
def step (g : Graph) (w : Walk) : Walk :=
  match w.work with
  | [] => w
  | ⟨n, []⟩ :: below =>
    { w with work := below, path := w.path.tail, onPath := w.onPath.filter (· != n) }
  | ⟨n, t :: pending⟩ :: below =>
    let w := { w with work := ⟨n, pending⟩ :: below }
    if w.onPath.contains t then { w with cycles := w.cycles ++ [cycleFrom w.path t] }
    else if w.visited.contains t then w
    else w.enter g t

def run (g : Graph) : (fuel : Nat) → Walk → Walk
  | 0, w => w
  | fuel + 1, w => if w.work.isEmpty then w else run g fuel (w.step g)

/-- Enough moves for any root: each node is left once and each edge looked at once. -/
def enough (g : Graph) : Nat := g.nodes.length + g.links.length

def fromRoot (g : Graph) (w : Walk) (root : Nat) : Walk :=
  if w.visited.contains root then w else run g (enough g) (w.enter g root)

end Walk

def walk (g : Graph) : Walk := (List.range g.nodes.length).foldl (Walk.fromRoot g) .start

def cycles (g : Graph) : List (List String) := g.walk.cycles.map (·.map g.pathAt)

end Graph

end LayerLint
