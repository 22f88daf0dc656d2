/-
  LayerLint.TypeScript.Tree: syntax trees, and counting nodes with a cursor.

  A cursor stands on a node and remembers the way down to it: at each level the siblings on both
  sides. It moves to the first child, the next sibling or the parent, and a move fails exactly when
  there is no such node. `countKinds` counts the nodes of some kinds by a walk that uses only these
  moves: down while there are children, else on to the next sibling of the node or of the nearest
  ancestor that has one. The nodes left to visit are counted by `remaining`, which shrinks from node to
  node, so the walk ends.
-/

namespace LayerLint.TypeScript

inductive Kind where
  | program
  | functionDeclaration
  | generatorFunctionDeclaration
  | functionExpression
  | generatorFunction
  | arrowFunction
  | methodDefinition
  | functionSignature
  | methodSignature
  | classDeclaration
  | classExpression
  | classBody
  | fieldDefinition
  | staticBlock
  | interfaceDeclaration
  | typeAlias
  | enumDeclaration
  | moduleDeclaration
  | ambientDeclaration
  | importStatement
  | exportStatement
  | variableDeclaration
  | block
  | expressionStatement
  | ifStatement
  | loopStatement
  | switchStatement
  | tryStatement
  | jumpStatement
  | labeledStatement
  | emptyStatement
  | decorator
  | parameters
  | pattern
  | identifier
  | literal
  | template
  | array
  | object
  | pair
  | spread
  | operation
  | conditional
  | assignment
  | call
  | member
  | parenthesized
  | element
  | attribute
  | error
  deriving DecidableEq, Repr

inductive Tree (κ : Type) where
  | node (kind : κ) (children : List (Tree κ))

variable {κ : Type}

namespace Tree

def kind : Tree κ → κ
  | node k _ => k

def children : Tree κ → List (Tree κ)
  | node _ cs => cs

mutual

def size : Tree κ → Nat
  | node _ cs => sizes cs + 1

def sizes : List (Tree κ) → Nat
  | [] => 0
  | t :: ts => t.size + sizes ts

end

end Tree

/-- A level of the way down to a node: its parent's kind, and its siblings to the left, nearest first,
    and to the right. -/
structure Crumb (κ : Type) where
  kind : κ
  left : List (Tree κ)
  right : List (Tree κ)

structure Cursor (κ : Type) where
  focus : Tree κ
  /-- The way down to the focus, nearest level first. -/
  trail : List (Crumb κ)

namespace Cursor

def root (t : Tree κ) : Cursor κ := ⟨t, []⟩

def firstChild? (c : Cursor κ) : Option (Cursor κ) :=
  match c.focus with
  | .node _ [] => none
  | .node k (t :: ts) => some ⟨t, ⟨k, [], ts⟩ :: c.trail⟩

def nextSibling? (c : Cursor κ) : Option (Cursor κ) :=
  match c.trail with
  | ⟨k, left, t :: right⟩ :: up => some ⟨t, ⟨k, c.focus :: left, right⟩ :: up⟩
  | _ => none

def parent? (c : Cursor κ) : Option (Cursor κ) :=
  match c.trail with
  | ⟨k, left, right⟩ :: up => some ⟨.node k (left.reverse ++ c.focus :: right), up⟩
  | [] => none

variable {c d p : Cursor κ}

theorem firstChild?_eq_some (h : c.firstChild? = some d) :
    ∃ k t ts trail, c = ⟨.node k (t :: ts), trail⟩ ∧ d = ⟨t, ⟨k, [], ts⟩ :: trail⟩ := by
  obtain ⟨⟨k, _ | ⟨t, ts⟩⟩, trail⟩ := c
  · simp [firstChild?] at h
  · exact ⟨k, t, ts, trail, rfl, (Option.some.inj h).symm⟩

theorem firstChild?_eq_none (h : c.firstChild? = none) : ∃ k trail, c = ⟨.node k [], trail⟩ := by
  obtain ⟨⟨k, _ | ⟨t, ts⟩⟩, trail⟩ := c
  · exact ⟨k, trail, rfl⟩
  · simp [firstChild?] at h

theorem nextSibling?_eq_some (h : c.nextSibling? = some d) :
    ∃ focus k left t right up,
      c = ⟨focus, ⟨k, left, t :: right⟩ :: up⟩ ∧ d = ⟨t, ⟨k, focus :: left, right⟩ :: up⟩ := by
  obtain ⟨focus, _ | ⟨⟨k, left, _ | ⟨t, right⟩⟩, up⟩⟩ := c
  · simp [nextSibling?] at h
  · simp [nextSibling?] at h
  · exact ⟨focus, k, left, t, right, up, rfl, (Option.some.inj h).symm⟩

/-- The walk moves to the parent from a last child. -/
theorem parent?_eq_some (hs : c.nextSibling? = none) (h : c.parent? = some p) :
    ∃ focus k left up,
      c = ⟨focus, ⟨k, left, []⟩ :: up⟩ ∧ p = ⟨.node k (left.reverse ++ [focus]), up⟩ := by
  obtain ⟨focus, _ | ⟨⟨k, left, _ | ⟨t, right⟩⟩, up⟩⟩ := c
  · simp [parent?] at h
  · exact ⟨focus, k, left, up, rfl, (Option.some.inj h).symm⟩
  · simp [nextSibling?] at hs

/-- The next sibling of the focus, or of the nearest ancestor that has one. -/
def onward? (c : Cursor κ) : Option (Cursor κ) :=
  match _hs : c.nextSibling? with
  | some d => some d
  | none =>
    match _hp : c.parent? with
    | some p => onward? p
    | none => none
termination_by c.trail.length
decreasing_by
  obtain ⟨focus, k, left, up, rfl, rfl⟩ := parent?_eq_some _hs _hp
  exact Nat.lt_succ_self up.length

/-- The nodes to the right of the way down. -/
def pending : List (Crumb κ) → Nat
  | [] => 0
  | c :: up => Tree.sizes c.right + pending up

def remaining (c : Cursor κ) : Nat := c.focus.size + pending c.trail

theorem remaining_firstChild? (h : c.firstChild? = some d) : d.remaining + 1 = c.remaining := by
  obtain ⟨k, t, ts, trail, rfl, rfl⟩ := firstChild?_eq_some h
  simp only [remaining, pending, Tree.size, Tree.sizes]
  omega

theorem remaining_nextSibling? (h : c.nextSibling? = some d) : d.remaining = pending c.trail := by
  obtain ⟨focus, k, left, t, right, up, rfl, rfl⟩ := nextSibling?_eq_some h
  simp only [remaining, pending, Tree.sizes]
  omega

theorem pending_parent? (hs : c.nextSibling? = none) (h : c.parent? = some p) :
    pending p.trail = pending c.trail := by
  obtain ⟨focus, k, left, up, rfl, rfl⟩ := parent?_eq_some hs h
  simp only [pending, Tree.sizes, Nat.zero_add]

theorem remaining_onward? (h : c.onward? = some d) : d.remaining = pending c.trail := by
  fun_induction onward? c with
  | case1 c e hs => exact remaining_nextSibling? (hs.trans h)
  | case2 c hs p hp ih => rw [ih h, pending_parent? hs hp]
  | case3 => simp at h

theorem pending_lt_remaining (c : Cursor κ) : pending c.trail < c.remaining := by
  obtain ⟨⟨k, cs⟩, trail⟩ := c
  simp only [remaining, Tree.size]
  omega

/-- Counts the nodes of the wanted kinds from the focus on, on top of `count`. -/
def countFrom (wanted : κ → Bool) (c : Cursor κ) (count : Nat) : Nat :=
  let count := if wanted c.focus.kind then count + 1 else count
  match _hd : c.firstChild? with
  | some d => countFrom wanted d count
  | none =>
    match _ho : c.onward? with
    | some d => countFrom wanted d count
    | none => count
termination_by c.remaining
decreasing_by
  · rw [← remaining_firstChild? _hd]
    exact Nat.lt_succ_self _
  · rw [remaining_onward? _ho]
    exact pending_lt_remaining c

end Cursor

def Tree.countKinds (wanted : κ → Bool) (t : Tree κ) : Nat := Cursor.countFrom wanted (.root t) 0

def Kind.isFunction : Kind → Bool
  | functionDeclaration | generatorFunctionDeclaration | functionExpression | generatorFunction
  | arrowFunction | methodDefinition => true
  | _ => false

end LayerLint.TypeScript
