/-
  LayerLint.Proofs.Graph.Store: what the calls that fill a graph keep.

  A graph is filled by three calls: a path is registered, the file of a unit is registered, two paths
  are connected. `after` is the graph that a list of calls leaves, so a statement about every
  `after calls` is one about every graph there is; `build` leaves such a graph too (`build_eq_after`).

  A call has one of four effects (`Effect`), and all else is read off them:
  - `inv_after`: the index finds a path at a number exactly when the node of that number carries it,
    no link is stored twice, and both ends of a link are numbers of nodes.
  - `after_store_sound`: the same seen from outside, through the nodes, the edges and the look-up of a
    path; a later graph extends an earlier one, so that a path keeps its number and its layer; and a
    call leaves the graph as it was exactly when it answers a number in use, or that nothing was added.
-/

import LayerLint.Graph.Resolve
import Mathlib.Data.List.Nodup
import Mathlib.Data.List.Infix

namespace LayerLint

namespace Graph

/-! ## The calls -/

inductive Call where
  | register (path : String) (layer : Option Layer)
  | registerUnit (u : SourceUnit)
  | connect (source target : String)

inductive Answer where
  | number (i : Nat)
  | added (yes : Bool)

def call (g : Graph) : Call → Graph × Answer
  | .register path layer => ((g.register path layer).1, .number (g.register path layer).2)
  | .registerUnit u => ((g.registerUnit u).1, .number (g.registerUnit u).2)
  | .connect source target => ((g.connect source target).1, .added (g.connect source target).2)

def calling (g : Graph) (calls : List Call) : Graph := calls.foldl (fun g c => (g.call c).1) g

def after (calls : List Call) : Graph := empty.calling calls

/-- An answer that tells of nothing new: a number in use, or an edge that was not added. -/
def Answer.Old (g : Graph) : Answer → Prop
  | .number i => i < g.nodes.length
  | .added yes => yes = false

theorem calling_append (g : Graph) (calls later : List Call) :
    g.calling (calls ++ later) = (g.calling calls).calling later :=
  List.foldl_append

theorem after_append (calls later : List Call) : after (calls ++ later) = (after calls).calling later :=
  calling_append _ _ _

/-! ## What a call does -/

inductive Effect (g : Graph) : Graph × Answer → Prop
  | known {path : String} {i : Nat} : g.index? path = some i → Effect g (g, .number i)
  | registered (n : Node) : g.index? n.path = none →
      Effect g (⟨g.nodes ++ [n], (n.path, g.nodes.length) :: g.index, g.links⟩, .number g.nodes.length)
  | refused : Effect g (g, .added false)
  | connected {source target : String} {a b : Nat} : g.index? source = some a → g.index? target = some b →
      (a, b) ∉ g.links → Effect g (⟨g.nodes, g.index, g.links ++ [(a, b)]⟩, .added true)

theorem register_effect (g : Graph) (path : String) (layer : Option Layer) :
    Effect g ((g.register path layer).1, .number (g.register path layer).2) := by
  cases h : g.index? path with
  | some i => simpa [register, h] using Effect.known h
  | none => simpa [register, h] using Effect.registered ⟨path, layer⟩ h

theorem call_effect (g : Graph) (c : Call) : Effect g (g.call c) := by
  cases c with
  | register path layer => exact register_effect g path layer
  | registerUnit u => exact register_effect g u.path u.layer
  | connect source target =>
    simp only [call, connect]
    cases ha : g.index? source with
    | none => exact .refused
    | some a =>
      cases hb : g.index? target with
      | none => exact .refused
      | some b =>
        by_cases hm : (a, b) ∈ g.links
        · simpa [hm] using Effect.refused
        · simpa [hm] using Effect.connected ha hb hm

/-! ## Paths of numbers -/

theorem pathAt_of_getElem? {g : Graph} {i : Nat} {n : Node} (h : g.nodes[i]? = some n) : g.pathAt i = n.path := by
  simp [pathAt, h]

/-- A number keeps its path when nodes are added. -/
theorem pathAt_grown {g g' : Graph} (h : g.nodes <+: g'.nodes) {i : Nat} (hi : i < g.nodes.length) :
    g'.pathAt i = g.pathAt i := by
  obtain ⟨rest, hr⟩ := h
  unfold pathAt
  rw [← hr, List.getElem?_append_left hi]

/-! ## The invariant -/

/-- The index agrees with the nodes, and the links with both. -/
structure Inv (g : Graph) : Prop where
  index : ∀ path i, g.index? path = some i ↔ i < g.nodes.length ∧ g.pathAt i = path
  links_nodup : g.links.Nodup
  links_lt : ∀ l ∈ g.links, l.1 < g.nodes.length ∧ l.2 < g.nodes.length

theorem inv_empty : Inv empty :=
  ⟨by intro path i; simp [index?, empty], by simp [empty], by intro l h; cases h⟩

/-- A new path is found at the next number, and the others where they were. -/
theorem inv_registered {g : Graph} (h : Inv g) (n : Node) (hn : g.index? n.path = none) :
    Inv ⟨g.nodes ++ [n], (n.path, g.nodes.length) :: g.index, g.links⟩ := by
  let g' : Graph := ⟨g.nodes ++ [n], (n.path, g.nodes.length) :: g.index, g.links⟩
  have hlen : g'.nodes.length = g.nodes.length + 1 := by simp [g']
  have hold : ∀ {i}, i < g.nodes.length → g'.pathAt i = g.pathAt i := pathAt_grown (List.prefix_append _ _)
  have hnew : g'.pathAt g.nodes.length = n.path := pathAt_of_getElem? (by simp [g'])
  refine ⟨?_, h.links_nodup, fun l hl => ?_⟩
  · intro path i
    show g'.index? path = some i ↔ i < g'.nodes.length ∧ g'.pathAt i = path
    rw [hlen]
    by_cases e : path = n.path
    · subst e
      have hlook : g'.index? n.path = some g.nodes.length := List.lookup_cons_self
      rw [hlook, Option.some.injEq]
      constructor
      · rintro rfl
        exact ⟨Nat.lt_succ_self _, hnew⟩
      · rintro ⟨hi, hp⟩
        rcases Nat.lt_succ_iff_lt_or_eq.mp hi with hi | rfl
        · rw [hold hi] at hp
          rw [(h.index _ _).mpr ⟨hi, hp⟩] at hn
          cases hn
        · rfl
    · have hlook : g'.index? path = g.index? path := by
        simp only [g', index?, List.lookup_cons, beq_eq_false_iff_ne.mpr e]
      rw [hlook, h.index]
      constructor
      · rintro ⟨hi, hp⟩
        exact ⟨by omega, (hold hi).trans hp⟩
      · rintro ⟨hi, hp⟩
        rcases Nat.lt_succ_iff_lt_or_eq.mp hi with hi | rfl
        · exact ⟨hi, (hold hi).symm.trans hp⟩
        · exact absurd (hp.symm.trans hnew) e
  · have := h.links_lt l hl
    show l.1 < g'.nodes.length ∧ l.2 < g'.nodes.length
    omega

theorem inv_connected {g : Graph} (h : Inv g) {source target : String} {a b : Nat} (ha : g.index? source = some a)
    (hb : g.index? target = some b) (hm : (a, b) ∉ g.links) : Inv ⟨g.nodes, g.index, g.links ++ [(a, b)]⟩ := by
  refine ⟨h.index, ?_, fun l hl => ?_⟩
  · exact h.links_nodup.append (List.nodup_singleton _) (by simpa using hm)
  · rcases List.mem_append.mp hl with hl | hl
    · exact h.links_lt l hl
    · obtain rfl := List.mem_singleton.mp hl
      exact ⟨((h.index _ _).mp ha).1, ((h.index _ _).mp hb).1⟩

theorem inv_effect {g : Graph} (h : Inv g) {r : Graph × Answer} (he : Effect g r) : Inv r.1 := by
  cases he with
  | known _ => exact h
  | registered n hn => exact inv_registered h n hn
  | refused => exact h
  | connected ha hb hm => exact inv_connected h ha hb hm

theorem inv_calling {g : Graph} (h : Inv g) (calls : List Call) : Inv (g.calling calls) := by
  induction calls generalizing g with
  | nil => exact h
  | cons c calls ih => exact ih (inv_effect h (call_effect g c))

theorem inv_after (calls : List Call) : Inv (after calls) := inv_calling inv_empty calls

/-! ## Reading the invariant -/

theorem Inv.index?_pathAt {g : Graph} (h : Inv g) {i : Nat} (hi : i < g.nodes.length) :
    g.index? (g.pathAt i) = some i :=
  (h.index _ _).mpr ⟨hi, rfl⟩

theorem Inv.contains_pathAt {g : Graph} (h : Inv g) {i : Nat} (hi : i < g.nodes.length) :
    g.contains (g.pathAt i) = true := by
  simp [contains, h.index?_pathAt hi]

theorem Inv.pathAt_inj {g : Graph} (h : Inv g) {i j : Nat} (hi : i < g.nodes.length) (hj : j < g.nodes.length)
    (e : g.pathAt i = g.pathAt j) : i = j := by
  have hij := h.index?_pathAt hi
  rw [e, h.index?_pathAt hj] at hij
  exact (Option.some.inj hij).symm

theorem map_path_eq (g : Graph) : g.nodes.map (·.path) = (List.range g.nodes.length).map g.pathAt := by
  apply List.ext_getElem?
  intro i
  by_cases hi : i < g.nodes.length
  · simp [hi, pathAt_of_getElem? (List.getElem?_eq_getElem hi)]
  · simp [hi]

theorem Inv.paths_nodup {g : Graph} (h : Inv g) : (g.nodes.map (·.path)).Nodup := by
  rw [map_path_eq]
  refine List.Nodup.map_on ?_ List.nodup_range
  intro i hi j hj e
  exact h.pathAt_inj (List.mem_range.mp hi) (List.mem_range.mp hj) e

theorem mem_edges {g : Graph} {a b : String} :
    (a, b) ∈ g.edges ↔ ∃ i j, (i, j) ∈ g.links ∧ g.pathAt i = a ∧ g.pathAt j = b := by
  simp [edges]

theorem Inv.edges_nodup {g : Graph} (h : Inv g) : g.edges.Nodup := by
  refine List.Nodup.map_on ?_ h.links_nodup
  rintro ⟨a, b⟩ hl ⟨a', b'⟩ hl' e
  obtain ⟨ha, hb⟩ := h.links_lt _ hl
  obtain ⟨ha', hb'⟩ := h.links_lt _ hl'
  obtain ⟨ea, eb⟩ := Prod.mk.inj e
  exact Prod.ext (h.pathAt_inj ha ha' ea) (h.pathAt_inj hb hb' eb)

/-! ## Growth -/

theorem effect_grows {g : Graph} {r : Graph × Answer} (he : Effect g r) :
    g.nodes <+: r.1.nodes ∧ g.links <+: r.1.links := by
  cases he with
  | known _ => exact ⟨List.prefix_refl _, List.prefix_refl _⟩
  | registered n _ => exact ⟨List.prefix_append _ _, List.prefix_refl _⟩
  | refused => exact ⟨List.prefix_refl _, List.prefix_refl _⟩
  | connected _ _ _ => exact ⟨List.prefix_refl _, List.prefix_append _ _⟩

theorem calling_grows (g : Graph) (calls : List Call) :
    g.nodes <+: (g.calling calls).nodes ∧ g.links <+: (g.calling calls).links := by
  induction calls generalizing g with
  | nil => exact ⟨List.prefix_refl _, List.prefix_refl _⟩
  | cons c calls ih =>
    obtain ⟨hn, hl⟩ := effect_grows (call_effect g c)
    obtain ⟨hn', hl'⟩ := ih (g.call c).1
    exact ⟨hn.trans hn', hl.trans hl'⟩

/-- `g'` is `g` with more nodes and edges behind those it has, and nothing else changed. -/
structure Extends (g g' : Graph) : Prop where
  nodes : g.nodes <+: g'.nodes
  edges : g.edges <+: g'.edges
  index? : ∀ path i, g.index? path = some i → g'.index? path = some i
  node? : ∀ path n, g.node? path = some n → g'.node? path = some n

/-- The edges are pairs of paths, so that they stay needs that the numbers in links keep their paths. -/
theorem Inv.edges_grow {g g' : Graph} (h : Inv g) (hn : g.nodes <+: g'.nodes) (hl : g.links <+: g'.links) :
    g.edges <+: g'.edges := by
  have hsame : g.edges = g.links.map fun l => (g'.pathAt l.1, g'.pathAt l.2) := by
    refine List.map_congr_left fun l hm => ?_
    obtain ⟨ha, hb⟩ := h.links_lt l hm
    rw [pathAt_grown hn ha, pathAt_grown hn hb]
  rw [hsame]
  exact hl.map _

theorem Inv.extends {g g' : Graph} (h : Inv g) (h' : Inv g') (hn : g.nodes <+: g'.nodes)
    (hl : g.links <+: g'.links) : Extends g g' := by
  have hindex : ∀ path i, g.index? path = some i → g'.index? path = some i := by
    intro path i hi
    obtain ⟨hlt, hp⟩ := (h.index _ _).mp hi
    exact (h'.index _ _).mpr ⟨Nat.lt_of_lt_of_le hlt hn.length_le, (pathAt_grown hn hlt).trans hp⟩
  refine ⟨hn, h.edges_grow hn hl, hindex, ?_⟩
  intro path n hp
  obtain ⟨i, hi, hget⟩ := Option.bind_eq_some_iff.mp hp
  refine Option.bind_eq_some_iff.mpr ⟨i, hindex path i hi, ?_⟩
  obtain ⟨rest, hr⟩ := hn
  rw [← hr]
  exact List.getElem?_append_left ((h.index _ _).mp hi).1 ▸ hget

/-- A call changes the graph exactly when it answers something new. -/
theorem effect_unchanged {g : Graph} (h : Inv g) {r : Graph × Answer} (he : Effect g r) : r.1 = g ↔ r.2.Old g := by
  cases he with
  | known hi => simpa [Answer.Old] using ((h.index _ _).mp hi).1
  | registered n _ =>
    simp only [Answer.Old, Nat.lt_irrefl, iff_false]
    intro e
    have := congrArg (fun g => g.nodes.length) e
    simp at this
  | refused => simp [Answer.Old]
  | connected _ _ _ =>
    simp only [Answer.Old, Bool.true_eq_false, iff_false]
    intro e
    have := congrArg (fun g => g.links.length) e
    simp at this

/-! ## The graphs there are -/

structure Consistent (g : Graph) : Prop where
  paths_nodup : (g.nodes.map (·.path)).Nodup
  index?_iff : ∀ path i, g.index? path = some i ↔ ∃ n, g.nodes[i]? = some n ∧ n.path = path
  edges_nodup : g.edges.Nodup
  edges_registered : ∀ e ∈ g.edges, g.contains e.1 = true ∧ g.contains e.2 = true

theorem Inv.consistent {g : Graph} (h : Inv g) : Consistent g := by
  refine ⟨h.paths_nodup, ?_, h.edges_nodup, ?_⟩
  · intro path i
    rw [h.index]
    constructor
    · rintro ⟨hi, hp⟩
      exact ⟨g.nodes[i], List.getElem?_eq_getElem hi, (pathAt_of_getElem? (List.getElem?_eq_getElem hi)).symm.trans hp⟩
    · rintro ⟨n, hn, hp⟩
      exact ⟨(List.getElem?_eq_some_iff.mp hn).1, (pathAt_of_getElem? hn).trans hp⟩
  · rintro ⟨a, b⟩ he
    obtain ⟨i, j, hl, rfl, rfl⟩ := mem_edges.mp he
    obtain ⟨hi, hj⟩ := h.links_lt _ hl
    exact ⟨h.contains_pathAt hi, h.contains_pathAt hj⟩

/-- What is made of a graph by moves that are calls is made of it by calls. -/
theorem foldl_calling {α : Type} {move : Graph → α → Graph} (h : ∀ g a, ∃ calls, move g a = g.calling calls)
    (l : List α) (g : Graph) : ∃ calls, l.foldl move g = g.calling calls := by
  induction l generalizing g with
  | nil => exact ⟨[], rfl⟩
  | cons a l ih =>
    obtain ⟨first, hf⟩ := h g a
    obtain ⟨rest, hr⟩ := ih (move g a)
    refine ⟨first ++ rest, ?_⟩
    rw [List.foldl_cons, hr, hf, calling_append]

theorem addImport_calling (g : Graph) (file : String) (i : Import) : ∃ calls, g.addImport file i = g.calling calls := by
  unfold addImport
  split
  · rename_i target _
    exact ⟨[.connect file target], rfl⟩
  · exact ⟨[], rfl⟩

/-- The graph of a list of units is filled by calls. -/
theorem build_eq_after (units : List SourceUnit) : ∃ calls, build units = after calls := by
  have hfile : ∀ (g : Graph) (u : SourceUnit), ∃ calls, (g.registerUnit u).1 = g.calling calls :=
    fun _ u => ⟨[.registerUnit u], rfl⟩
  have himports : ∀ (g : Graph) (u : SourceUnit), ∃ calls, g.addImports u = g.calling calls :=
    fun g u => foldl_calling (fun g i => addImport_calling g u.path i) u.imports g
  obtain ⟨files, hf⟩ := foldl_calling hfile units empty
  obtain ⟨imports, hi⟩ := foldl_calling himports units (ofFiles units)
  refine ⟨files ++ imports, ?_⟩
  rw [after_append, after, ← hf]
  exact hi

/-- Whatever calls filled a graph, its nodes, index and edges fit together; more calls only extend it; and one
    more call leaves it as it was exactly when it answers a number in use, or that no edge was added. -/
theorem after_store_sound (calls later : List Call) (c : Call) :
    Consistent (after calls) ∧ Extends (after calls) (after (calls ++ later)) ∧
      (((after calls).call c).1 = after calls ↔ ((after calls).call c).2.Old (after calls)) := by
  have h := inv_after calls
  obtain ⟨hn, hl⟩ := calling_grows (after calls) later
  rw [← after_append] at hn hl
  exact ⟨h.consistent, h.extends (inv_after _) hn hl, effect_unchanged h (call_effect _ c)⟩

end Graph

end LayerLint
