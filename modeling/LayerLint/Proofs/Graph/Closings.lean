/-
  LayerLint.Proofs.Graph.Closings: no edge closes two of the reported cycles.

  A node is entered once and then each of its edges is looked at once, so an edge that closes a cycle is
  not met again. While the walk goes on, the edges that have closed a cycle and the edges of the open
  nodes that are still to be looked at are all different (`Once`). A move takes an edge from the second
  kind to the first, drops it, or brings in the edges of a node that was not visited, and none of those
  was there before (`once_move`).

  So the reported cycles have different closing edges (`Inv.closings_nodup`), and there are no more of
  them than edges (`cycles_close_once`).
-/

import LayerLint.Graph.Metrics
import LayerLint.Proofs.Graph.Order
import Mathlib.Data.List.Perm.Subperm

namespace LayerLint

theorem closings_concat {α : Type} (cycles : List (List α)) {c : List α} {last first : α} (hf : c.head? = some first)
    (hl : c.getLast? = some last) : closings (cycles ++ [c]) = closings cycles ++ [(last, first)] := by
  unfold closings
  rw [List.filterMap_append, List.filterMap_cons_some (closing?_eq_some.mpr ⟨hf, hl⟩), List.filterMap_nil]

/-- Lists with a start and an end have one closing pair each. -/
theorem map_closing? {α : Type} {cycles : List (List α)} (h : ∀ c ∈ cycles, c ≠ []) :
    cycles.map closing? = (closings cycles).map some := by
  induction cycles with
  | nil => rfl
  | cons c cycles ih =>
    have hne : c ≠ [] := h c List.mem_cons_self
    have hc : closing? c = some (c.getLast hne, c.head hne) :=
      closing?_eq_some.mpr ⟨List.head?_eq_some_head hne, List.getLast?_eq_some_getLast hne⟩
    have hcons : closings (c :: cycles) = (c.getLast hne, c.head hne) :: closings cycles :=
      List.filterMap_cons_some hc
    rw [List.map_cons, hcons, List.map_cons, hc, ih fun d hd => h d (List.mem_cons_of_mem _ hd)]

theorem closing?_map {α β : Type} (f : α → β) (c : List α) :
    closing? (c.map f) = (closing? c).map (Prod.map f f) := by
  cases hf : c.head? <;> cases hl : c.getLast? <;> simp [closing?, hf, hl]

theorem closings_map {α β : Type} (f : α → β) (cycles : List (List α)) :
    closings (cycles.map (·.map f)) = (closings cycles).map (Prod.map f f) := by
  unfold closings
  rw [List.filterMap_map, List.map_filterMap]
  exact List.filterMap_congr fun c _ => closing?_map f c

namespace Graph

namespace Walk

variable {g : Graph}

def ahead (work : List Frame) : List (Nat × Nat) := work.flatMap fun f => f.pending.map (f.node, ·)

theorem ahead_cons (f : Frame) (below : List Frame) :
    ahead (f :: below) = f.pending.map (f.node, ·) ++ ahead below :=
  List.flatMap_cons

/-- No edge is met twice: those that closed a cycle and those still to be looked at are different, and they start at
    nodes that were entered. -/
structure Once (w : Walk) : Prop where
  nodup : (closings w.cycles ++ ahead w.work).Nodup
  visited : ∀ e ∈ closings w.cycles ++ ahead w.work, e.1 ∈ w.visited

theorem once_start : Once .start :=
  ⟨List.nodup_nil, fun _ he => absurd he List.not_mem_nil⟩

/-- The edges that a node brings in are the links that start at it. -/
theorem map_targets (g : Graph) (n : Nat) : (g.targets n).map (n, ·) = g.links.filter (·.1 == n) := by
  unfold targets
  rw [List.map_map]
  conv => rhs; rw [← List.map_id (g.links.filter _)]
  apply List.map_congr_left
  intro l hl
  have hn : l.1 = n := by simpa using (List.mem_filter.mp hl).2
  exact Prod.ext hn.symm rfl

theorem Once.enter (hg : g.Inv) {w : Walk} (h : Once w) {n : Nat} (hv : n ∉ w.visited) : Once (w.enter g n) := by
  have hmine : ∀ e ∈ (g.targets n).map (n, ·), e.1 = n := by
    intro e he
    obtain ⟨t, -, rfl⟩ := List.mem_map.mp he
    rfl
  have hnodup : ((g.targets n).map (n, ·)).Nodup := by
    rw [map_targets]
    exact hg.links_nodup.filter _
  have hwork : ahead (w.enter g n).work = (g.targets n).map (n, ·) ++ ahead w.work := ahead_cons _ _
  -- the new edges stand in front of the old ones that are ahead, which is a matter of order only
  have hperm : (closings w.cycles ++ ahead (w.enter g n).work).Perm
      ((g.targets n).map (n, ·) ++ (closings w.cycles ++ ahead w.work)) := by
    rw [hwork, ← List.append_assoc, ← List.append_assoc]
    exact List.perm_append_comm.append_right _
  constructor
  · show (closings w.cycles ++ ahead (w.enter g n).work).Nodup
    rw [hperm.nodup_iff]
    apply hnodup.append h.nodup
    intro e he he'
    exact hv (hmine e he ▸ h.visited e he')
  · intro e he
    show e.1 ∈ n :: w.visited
    rcases List.mem_append.mp (hperm.mem_iff.mp he) with he | he
    · rw [hmine e he]
      exact List.mem_cons_self
    · exact List.mem_cons_of_mem _ (h.visited e he)

section Open

variable {w : Walk} {n t : Nat} {pending : List Nat} {below : List Frame}

/-- The edge that is looked at is dropped, unless it closes a cycle. -/
theorem Once.advance (h : Once w) (hw : w.work = ⟨n, t :: pending⟩ :: below) :
    Once { w with work := ⟨n, pending⟩ :: below } := by
  have hsub : (closings w.cycles ++ ahead (⟨n, pending⟩ :: below)).Sublist (closings w.cycles ++ ahead w.work) := by
    apply List.Sublist.append_left
    rw [hw, ahead_cons, ahead_cons]
    exact List.sublist_cons_self _ _
  exact ⟨h.nodup.sublist hsub, fun e he => h.visited e (hsub.subset he)⟩

theorem Once.leave (h : Once w) (hw : w.work = ⟨n, []⟩ :: below) :
    Once { w with work := below, path := w.path.tail, onPath := w.onPath.filter (· != n) } := by
  have hsame : ahead w.work = ahead below := by rw [hw, ahead_cons, List.map_nil, List.nil_append]
  constructor
  · exact hsame ▸ h.nodup
  · exact hsame ▸ h.visited

/-- The edge that is looked at is the one that closes the cycle. -/
theorem Once.report (hi : Inv g w) (h : Once w) (hw : w.work = ⟨n, t :: pending⟩ :: below) (ht : t ∈ w.onPath) :
    Once { w with work := ⟨n, pending⟩ :: below, cycles := w.cycles ++ [cycleFrom w.path t] } := by
  rw [hi.onPath] at ht
  obtain ⟨hfirst, hlast⟩ := cycleFrom_closes (hi.path_eq hw) ht
  have hsame : closings (w.cycles ++ [cycleFrom w.path t]) ++ ahead (⟨n, pending⟩ :: below) =
      closings w.cycles ++ ahead w.work := by
    rw [closings_concat _ hfirst hlast, hw, ahead_cons, ahead_cons, List.map_cons, List.append_assoc,
      List.singleton_append, List.cons_append]
  constructor
  · show (closings (w.cycles ++ [cycleFrom w.path t]) ++ ahead (⟨n, pending⟩ :: below)).Nodup
    exact hsame ▸ h.nodup
  · show ∀ e ∈ closings (w.cycles ++ [cycleFrom w.path t]) ++ ahead (⟨n, pending⟩ :: below), e.1 ∈ w.visited
    exact hsame ▸ h.visited

end Open

theorem once_move (hg : g.Inv) {w w' : Walk} (hi : Inv g w) (hm : Move g w w') (h : Once w) : Once w' := by
  cases hm with
  | leave hw => exact h.leave hw
  | report hw ht => exact h.report hi hw ht
  | skip hw _ _ => exact h.advance hw
  | enter hw _ hv => exact (h.advance hw).enter hg hv

theorem once_walk (hg : g.Inv) : Once g.walk :=
  (walk_induction (fun _ _ _ _ _ hv h => h.enter hg hv) (fun _ _ hi hm h => once_move hg hi hm h) hg once_start).2.2.1

end Walk

/-! ## Of the paths -/

theorem Inv.closings_edges {g : Graph} (h : Inv g) : closings g.cycles ⊆ g.edges := by
  rintro ⟨last, first⟩ he
  obtain ⟨c, hc, hf, hl⟩ := mem_closings.mp he
  obtain ⟨first', last', hf', hl', hedge⟩ := (h.isCycle hc).1.closed
  rw [hf] at hf'
  rw [hl] at hl'
  obtain rfl := Option.some.inj hf'
  obtain rfl := Option.some.inj hl'
  exact hedge

theorem Inv.closings_nodup {g : Graph} (h : Inv g) : (closings g.cycles).Nodup := by
  unfold cycles
  rw [closings_map]
  have hlt : ∀ e ∈ closings g.walk.cycles, e.1 < g.nodes.length ∧ e.2 < g.nodes.length := by
    rintro ⟨last, first⟩ he
    obtain ⟨c, hc, hf, hl⟩ := mem_closings.mp he
    have hc := ((Walk.inv_walk h).cycles c hc).2
    exact ⟨hc last (List.mem_of_getLast? hl), hc first (List.mem_of_head? hf)⟩
  apply List.Nodup.map_on _ (List.Nodup.of_append_left (Walk.once_walk h).nodup)
  intro e he e' he' heq
  obtain ⟨h1, h2⟩ := Prod.mk.inj heq
  exact Prod.ext (h.pathAt_inj (hlt e he).1 (hlt e' he').1 h1) (h.pathAt_inj (hlt e he).2 (hlt e' he').2 h2)

/-- Every reported cycle has an edge of the graph from its end to its start, and no two of them the same one. So none is
    reported twice, and there are no more than there are edges. -/
theorem cycles_close_once (calls : List Call) :
    (after calls).cycles.map closing? = (closings (after calls).cycles).map some ∧
      (closings (after calls).cycles).Nodup ∧ closings (after calls).cycles ⊆ (after calls).edges ∧
      (after calls).cycles.Nodup ∧ (after calls).cycles.length ≤ (after calls).metrics.edgeCount := by
  have h := inv_after calls
  have hmap := map_closing? fun c hc => (h.isCycle hc).1.ne_nil
  have hnodup := h.closings_nodup
  have hcycles : ((after calls).cycles.map closing?).Nodup := by
    rw [hmap]
    exact hnodup.map fun _ _ => Option.some.inj
  refine ⟨hmap, hnodup, h.closings_edges, hcycles.of_map _, ?_⟩
  calc (after calls).cycles.length
      = (closings (after calls).cycles).length := by simpa using congrArg List.length hmap
    _ ≤ (after calls).edges.length := (List.subperm_of_subset hnodup h.closings_edges).length_le
    _ = (after calls).metrics.edgeCount := List.length_map _

/-- In the tangle of two cycles the edge `b → a` closes the one that is reported, and would close the other. -/
example : closings (after tangle).cycles = [("b.ts", "a.ts")] ∧ (after tangle).metrics.edgeCount = 4 := by decide

end Graph

end LayerLint
