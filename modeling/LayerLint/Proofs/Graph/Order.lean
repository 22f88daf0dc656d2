/-
  LayerLint.Proofs.Graph.Order: the reported cycles meet every cycle there is.

  The walk reports some cycles only, one for each edge that leads back to an open node. That is enough:
  every other edge leads to a node that is left before the node it starts from. While the walk goes on,
  the nodes left so far stand in the order of leaving (`Left`), and of an open node the edges that were
  looked at lead to left nodes, to the node opened next, or back (`Looked`). At the end all nodes are
  left, so without the edges that close the reported cycles each edge leads to an earlier node, and
  there is no way round (`acyclic_without_closings`).

  `cycles_complete` adds that nothing is reported only of a graph without cycles, and that each strongly
  connected part with a cycle in it has a reported one.
-/

import LayerLint.Proofs.Graph.Cycles

namespace LayerLint

open Relation

def closing? {α : Type} (c : List α) : Option (α × α) :=
  c.getLast?.bind fun last => c.head?.map fun first => (last, first)

theorem closing?_eq_some {α : Type} {c : List α} {last first : α} :
    closing? c = some (last, first) ↔ c.head? = some first ∧ c.getLast? = some last := by
  cases h : c.head? <;> cases h' : c.getLast? <;> simp [closing?, h, h', and_comm]

def closings {α : Type} (cycles : List (List α)) : List (α × α) := cycles.filterMap closing?

theorem mem_closings {α : Type} {cycles : List (List α)} {last first : α} :
    (last, first) ∈ closings cycles ↔ ∃ c ∈ cycles, c.head? = some first ∧ c.getLast? = some last := by
  simp only [closings, List.mem_filterMap, closing?_eq_some]

/-! ## Ways along edges -/

section Ways

variable {α : Type} {edge : α → α → Prop}

theorem reach_of_chain {l : List α} (h : l.IsChain edge) {a b : α} (ha : l.head? = some a)
    (hb : l.getLast? = some b) : ReflTransGen edge a b := by
  cases l with
  | nil => cases ha
  | cons x l =>
    obtain rfl := Option.some.inj ha
    refine List.relationReflTransGen_of_exists_isChain_cons l h ?_
    rw [List.getLast?_eq_getLast_of_ne_nil (List.cons_ne_nil _ _)] at hb
    exact Option.some.inj hb

/-- The members of a cycle reach each other: on to the end, to the start, and on again. -/
theorem IsCycle.reach {c : List α} (h : IsCycle edge c) {a b : α} (ha : a ∈ c) (hb : b ∈ c) :
    ReflTransGen edge a b := by
  obtain ⟨first, last, hf, hl, he⟩ := h.closed
  have hend : ReflTransGen edge a last := by
    obtain ⟨l1, l2, rfl⟩ := List.append_of_mem ha
    refine reach_of_chain h.chain.right_of_append rfl ?_
    rw [← hl, List.getLast?_append_cons]
  have hstart : ReflTransGen edge first b := by
    obtain ⟨l1, l2, rfl⟩ := List.append_of_mem hb
    have hsplit : l1 ++ b :: l2 = (l1 ++ [b]) ++ l2 := by simp
    rw [hsplit] at h hf
    refine reach_of_chain h.chain.left_of_append ?_ (by simp)
    rw [← hf]
    cases l1 <;> simp
  exact (hend.tail he).trans hstart

theorem IsCycle.transGen {c : List α} (h : IsCycle edge c) : ∃ a, TransGen edge a a := by
  obtain ⟨first, last, hf, hl, he⟩ := h.closed
  exact ⟨first, TransGen.tail' (reach_of_chain h.chain hf hl) he⟩

/-- A way goes round the edges of a set, or over one of them. -/
theorem transGen_avoids_or_uses (used : α → α → Prop) {a b : α} (h : TransGen edge a b) :
    TransGen (fun x y => edge x y ∧ ¬ used x y) a b ∨
      ∃ x y, used x y ∧ ReflTransGen edge a x ∧ ReflTransGen edge y b := by
  induction h with
  | single he =>
    rename_i b
    by_cases hu : used a b
    · exact Or.inr ⟨a, b, hu, .refl, .refl⟩
    · exact Or.inl (.single ⟨he, hu⟩)
  | tail h he ih =>
    rename_i b c
    by_cases hu : used b c
    · exact Or.inr ⟨b, c, hu, h.to_reflTransGen, .refl⟩
    rcases ih with ih | ⟨x, y, hxy, hx, hy⟩
    · exact Or.inl (ih.tail ⟨he, hu⟩)
    · exact Or.inr ⟨x, y, hxy, hx, hy.tail he⟩

theorem lt_of_transGen {rank : α → Nat} (hrank : ∀ a b, edge a b → rank a < rank b) {a b : α}
    (h : TransGen edge a b) : rank a < rank b := by
  induction h with
  | single he => exact hrank _ _ he
  | tail _ he ih => exact ih.trans (hrank _ _ he)

end Ways

namespace Graph

namespace Walk

variable {g : Graph}

/-! ## The order of leaving -/

/-- Last left first: an edge of a left node closes a cycle or leads to a node left earlier. -/
def Ordered (g : Graph) (closed : List (Nat × Nat)) : List Nat → Prop
  | [] => True
  | n :: earlier => (∀ t, g.Link n t → (n, t) ∈ closed ∨ t ∈ earlier) ∧ Ordered g closed earlier

/-- An edge of an open node is still to be looked at, closes a cycle, leads to a left node, or leads to `inner`, the
    node that was opened through it. -/
def Looked (g : Graph) (closed : List (Nat × Nat)) (left : List Nat) : (inner : Option Nat) → List Frame → Prop
  | _, [] => True
  | inner, f :: below =>
    (∀ t, g.Link f.node t → t ∈ f.pending ∨ (f.node, t) ∈ closed ∨ t ∈ left ∨ inner = some t) ∧
      Looked g closed left (some f.node) below

structure Left (g : Graph) (w : Walk) (left : List Nat) : Prop where
  nodup : left.Nodup
  mem : ∀ n, n ∈ left ↔ n ∈ w.visited ∧ n ∉ w.path
  ordered : Ordered g (closings w.cycles) left
  looked : Looked g (closings w.cycles) left none w.work

theorem Ordered.mono {closed closed' : List (Nat × Nat)} (hc : closed ⊆ closed') {left : List Nat}
    (h : Ordered g closed left) : Ordered g closed' left := by
  induction left with
  | nil => trivial
  | cons n earlier ih => exact ⟨fun t ht => (h.1 t ht).imp (fun hm => hc hm) id, ih h.2⟩

/-- More closing edges and more left nodes settle more edges; `inner` may be left meanwhile. -/
theorem Looked.mono {closed closed' : List (Nat × Nat)} (hc : closed ⊆ closed') {left left' : List Nat}
    (hl : left ⊆ left') {inner inner' : Option Nat} (hi : ∀ t, inner = some t → t ∈ left' ∨ inner' = some t)
    {work : List Frame} (h : Looked g closed left inner work) : Looked g closed' left' inner' work := by
  induction work generalizing inner inner' with
  | nil => trivial
  | cons f below ih =>
    refine ⟨fun t ht => ?_, ih (fun _ e => Or.inr e) h.2⟩
    rcases h.1 t ht with hp | hm | hm | e
    · exact Or.inl hp
    · exact Or.inr (Or.inl (hc hm))
    · exact Or.inr (Or.inr (Or.inl (hl hm)))
    · exact Or.inr (Or.inr (hi t e))

theorem left_start : Left g .start [] :=
  ⟨List.nodup_nil, by simp [start], trivial, trivial⟩

/-- A node is entered with all its edges to be looked at. -/
theorem Left.enter {w : Walk} {left : List Nat} (h : Left g w left) {n : Nat} (hv : n ∉ w.visited)
    {work : List Frame} (hl : Looked g (closings w.cycles) left (some n) work) :
    Left g (Walk.enter g { w with work := work } n) left := by
  refine ⟨h.nodup, fun m => ?_, h.ordered, ⟨fun t ht => Or.inl (mem_targets.mpr ht), hl⟩⟩
  show m ∈ left ↔ m ∈ n :: w.visited ∧ m ∉ n :: w.path
  rw [h.mem, List.mem_cons, List.mem_cons, not_or]
  constructor
  · rintro ⟨hm, hp⟩
    exact ⟨Or.inr hm, ne_of_mem_of_not_mem hm hv, hp⟩
  · rintro ⟨hm, hne, hp⟩
    exact ⟨hm.resolve_left hne, hp⟩

theorem closings_subset_append (cycles : List (List Nat)) (c : List Nat) :
    closings cycles ⊆ closings (cycles ++ [c]) := by
  simp [closings]

section Open

variable {w : Walk} {left : List Nat} {n t : Nat} {pending : List Nat} {below : List Frame}

/-- The innermost node is left when none of its targets is pending; the node below it was waiting for it. -/
theorem Left.leave (hi : Inv g w) (h : Left g w left) (hw : w.work = ⟨n, []⟩ :: below) :
    Left g { w with work := below, path := w.path.tail, onPath := w.onPath.filter (· != n) } (n :: left) := by
  have hp := hi.path_eq hw
  have hnodup := hi.path_nodup
  rw [hp, List.nodup_cons] at hnodup
  have hn : n ∉ left := fun hm => ((h.mem n).mp hm).2 (hp ▸ List.mem_cons_self)
  have hnv : n ∈ w.visited := hi.path_visited n (hp ▸ List.mem_cons_self)
  have hlooked := h.looked
  rw [hw] at hlooked
  refine ⟨List.nodup_cons.mpr ⟨hn, h.nodup⟩, fun m => ?_, ⟨fun s hs => ?_, h.ordered⟩, ?_⟩
  · show m ∈ n :: left ↔ m ∈ w.visited ∧ m ∉ w.path.tail
    rw [List.mem_cons, h.mem, hp, List.tail_cons, List.mem_cons, not_or]
    constructor
    · rintro (rfl | ⟨hm, -, hb⟩)
      · exact ⟨hnv, hnodup.1⟩
      · exact ⟨hm, hb⟩
    · rintro ⟨hm, hb⟩
      by_cases e : m = n
      · exact Or.inl e
      · exact Or.inr ⟨hm, e, hb⟩
  · rcases hlooked.1 s hs with hp | hm | hm | e
    · cases hp
    · exact Or.inl hm
    · exact Or.inr hm
    · cases e
  · refine hlooked.2.mono (List.Subset.refl _) (List.subset_cons_self _ _) ?_
    rintro s ⟨⟩
    exact Or.inl List.mem_cons_self

/-- A target that was settled need not be pending. -/
theorem Looked.advance {closed : List (Nat × Nat)} {inner : Option Nat}
    (h : Looked g closed left none (⟨n, t :: pending⟩ :: below))
    (ht : (n, t) ∈ closed ∨ t ∈ left ∨ inner = some t) : Looked g closed left inner (⟨n, pending⟩ :: below) := by
  refine ⟨fun s hs => ?_, h.2⟩
  rcases h.1 s hs with hp | hm | hm | e
  · rcases List.mem_cons.mp hp with rfl | hp
    · exact Or.inr ht
    · exact Or.inl hp
  · exact Or.inr (Or.inl hm)
  · exact Or.inr (Or.inr (Or.inl hm))
  · cases e

theorem Left.report (hi : Inv g w) (h : Left g w left) (hw : w.work = ⟨n, t :: pending⟩ :: below)
    (ht : t ∈ w.onPath) :
    Left g { w with work := ⟨n, pending⟩ :: below, cycles := w.cycles ++ [cycleFrom w.path t] } left := by
  rw [hi.onPath] at ht
  obtain ⟨hfirst, hlast⟩ := cycleFrom_closes (hi.path_eq hw) ht
  have hsub := closings_subset_append w.cycles (cycleFrom w.path t)
  have hclosed : (n, t) ∈ closings (w.cycles ++ [cycleFrom w.path t]) :=
    mem_closings.mpr ⟨_, List.mem_append_right _ (List.mem_singleton.mpr rfl), hfirst, hlast⟩
  have hlooked := h.looked.mono hsub (List.Subset.refl _) fun _ e => Or.inr e
  rw [hw] at hlooked
  exact ⟨h.nodup, h.mem, h.ordered.mono hsub, hlooked.advance (Or.inl hclosed)⟩

end Open

theorem left_move {w w' : Walk} (hi : Inv g w) (hm : Move g w w') (h : ∃ left, Left g w left) :
    ∃ left, Left g w' left := by
  obtain ⟨left, h⟩ := h
  cases hm with
  | leave hw => exact ⟨_, h.leave hi hw⟩
  | report hw ht => exact ⟨left, h.report hi hw ht⟩
  | skip hw ht hv =>
    rw [hi.onPath] at ht
    exact ⟨left, h.nodup, h.mem, h.ordered, (hw ▸ h.looked).advance (Or.inr (Or.inl ((h.mem _).mpr ⟨hv, ht⟩)))⟩
  | enter hw _ hv => exact ⟨left, h.enter hv ((hw ▸ h.looked).advance (Or.inr (Or.inr rfl)))⟩

/-- At the end every node is left, and the edges that close no reported cycle lead to earlier ones. -/
theorem walk_left (hg : g.Inv) :
    ∃ left : List Nat, left.Nodup ∧ (∀ n < g.nodes.length, n ∈ left) ∧ Ordered g (closings g.walk.cycles) left := by
  obtain ⟨hi, hwork, ⟨left, h⟩, hall⟩ := walk_induction (g := g) (P := fun w => ∃ left, Left g w left)
    (fun w n _ hw _ hv ⟨left, h⟩ =>
      ⟨left, h.enter hv (show Looked g _ left (some n) w.work by rw [hw]; trivial)⟩)
    (fun _ _ => left_move) hg ⟨[], left_start⟩
  refine ⟨left, h.nodup, fun n hn => (h.mem n).mpr ⟨hall n hn, ?_⟩, h.ordered⟩
  rw [← hi.work, hwork]
  exact List.not_mem_nil

theorem Ordered.lt {closed : List (Nat × Nat)} {left : List Nat} (h : Ordered g closed left) (hnodup : left.Nodup)
    {a b : Nat} (ha : a ∈ left) (hab : g.Link a b) (hc : (a, b) ∉ closed) :
    b ∈ left ∧ left.idxOf a < left.idxOf b := by
  induction left with
  | nil => cases ha
  | cons n earlier ih =>
    obtain ⟨hn, hnodup⟩ := List.nodup_cons.mp hnodup
    by_cases e : a = n
    · subst e
      have hb : b ∈ earlier := (h.1 b hab).resolve_left hc
      refine ⟨List.mem_cons_of_mem _ hb, ?_⟩
      rw [List.idxOf_cons_self, List.idxOf_cons_ne _ (ne_of_mem_of_not_mem hb hn).symm]
      exact Nat.succ_pos _
    · obtain ⟨hb, hlt⟩ := ih h.2 hnodup ((List.mem_cons.mp ha).resolve_left e)
      refine ⟨List.mem_cons_of_mem _ hb, ?_⟩
      rw [List.idxOf_cons_ne _ (Ne.symm e), List.idxOf_cons_ne _ (ne_of_mem_of_not_mem hb hn).symm]
      exact Nat.succ_lt_succ hlt

end Walk

/-! ## Without the closing edges -/

/-- No way along the edges leads from a path back to it. -/
def Acyclic (g : Graph) : Prop := ∀ p, ¬ TransGen g.Edge p p

def without (g : Graph) (dropped : List (String × String)) : Graph :=
  { g with links := g.links.filter fun l => !dropped.contains (g.pathAt l.1, g.pathAt l.2) }

theorem edge_without {g : Graph} {dropped : List (String × String)} {a b : String} :
    (g.without dropped).Edge a b ↔ g.Edge a b ∧ (a, b) ∉ dropped := by
  have hpath : (g.without dropped).pathAt = g.pathAt := rfl
  unfold Edge
  rw [mem_edges, mem_edges, hpath]
  constructor
  · rintro ⟨i, j, hl, rfl, rfl⟩
    obtain ⟨hm, hd⟩ := List.mem_filter.mp hl
    exact ⟨⟨i, j, hm, rfl, rfl⟩, by simpa using hd⟩
  · rintro ⟨⟨i, j, hl, rfl, rfl⟩, hd⟩
    exact ⟨i, j, List.mem_filter.mpr ⟨hl, by simpa using hd⟩, rfl, rfl⟩

theorem closings_pathAt {g : Graph} {i j : Nat} (h : (i, j) ∈ closings g.walk.cycles) :
    (g.pathAt i, g.pathAt j) ∈ closings g.cycles := by
  obtain ⟨c, hc, hf, hl⟩ := mem_closings.mp h
  exact mem_closings.mpr ⟨c.map g.pathAt, mem_cycles.mpr ⟨c, hc, rfl⟩, by simp [hf], by simp [hl]⟩

theorem Inv.acyclic_without_closings {g : Graph} (h : Inv g) : Acyclic (g.without (closings g.cycles)) := by
  obtain ⟨left, hnodup, hall, hord⟩ := Walk.walk_left h
  -- a path is ranked by when its node was left, the last one lowest
  let rank : String → Nat := fun p => left.idxOf ((g.index? p).getD 0)
  have hrank : ∀ a b, (g.without (closings g.cycles)).Edge a b → rank a < rank b := by
    intro a b hab
    obtain ⟨hedge, hopen⟩ := edge_without.mp hab
    obtain ⟨i, j, hl, rfl, rfl⟩ := mem_edges.mp hedge
    obtain ⟨hi, hj⟩ := h.links_lt _ hl
    have hlt := (hord.lt hnodup (hall i hi) hl fun hc => hopen (closings_pathAt hc)).2
    simpa [rank, h.index?_pathAt hi, h.index?_pathAt hj] using hlt
  exact fun p hp => Nat.lt_irrefl _ (lt_of_transGen hrank hp)

/-- A way round uses an edge that closes a reported cycle, and then all of that cycle lies on ways round. -/
theorem Inv.reported_of_transGen {g : Graph} (h : Inv g) {p : String} (hp : TransGen g.Edge p p) :
    ∃ c ∈ g.cycles, c ≠ [] ∧ ∀ q ∈ c, ReflTransGen g.Edge p q ∧ ReflTransGen g.Edge q p := by
  rcases transGen_avoids_or_uses (fun a b => (a, b) ∈ closings g.cycles) hp with hp | ⟨last, first, hm, hto, hfrom⟩
  · exact absurd (TransGen.mono (fun _ _ hab => edge_without.mpr hab) p p hp) (h.acyclic_without_closings p)
  · obtain ⟨c, hc, hf, hl⟩ := mem_closings.mp hm
    have hcycle := (h.isCycle hc).1
    refine ⟨c, hc, hcycle.ne_nil, fun q hq => ⟨?_, ?_⟩⟩
    · exact hto.trans (hcycle.reach (List.mem_of_getLast? hl) hq)
    · exact (hcycle.reach hq (List.mem_of_head? hf)).trans hfrom

/-- Without the edges that close the reported cycles no cycle is left; so nothing is reported exactly when there is no
    cycle, and a path on a cycle has a reported one in its strongly connected part. -/
theorem cycles_complete (calls : List Call) :
    Acyclic ((after calls).without (closings (after calls).cycles)) ∧
      ((after calls).cycles = [] ↔ Acyclic (after calls)) ∧
      ∀ p, TransGen (after calls).Edge p p →
        ∃ c ∈ (after calls).cycles, c ≠ [] ∧
          ∀ q ∈ c, ReflTransGen (after calls).Edge p q ∧ ReflTransGen (after calls).Edge q p := by
  have h := inv_after calls
  refine ⟨h.acyclic_without_closings, ⟨fun hnone p hp => ?_, fun hacyclic => ?_⟩, fun _ => h.reported_of_transGen⟩
  · obtain ⟨c, hc, -⟩ := h.reported_of_transGen hp
    rw [hnone] at hc
    cases hc
  · refine List.eq_nil_iff_forall_not_mem.mpr fun c hc => ?_
    obtain ⟨a, ha⟩ := (h.isCycle hc).1.transGen
    exact hacyclic a ha

/-- `c` lies on the cycle that is not reported, and the other one stands for it. -/
theorem cycles_complete_tangle :
    TransGen (after tangle).Edge "c.ts" "c.ts" ∧ (∀ c ∈ (after tangle).cycles, "c.ts" ∉ c) ∧
      ∃ c ∈ (after tangle).cycles, c ≠ [] ∧
        ∀ q ∈ c, ReflTransGen (after tangle).Edge "c.ts" q ∧ ReflTransGen (after tangle).Edge q "c.ts" := by
  have hcb : (after tangle).Edge "c.ts" "b.ts" := by decide
  have hba : (after tangle).Edge "b.ts" "a.ts" := by decide
  have hac : (after tangle).Edge "a.ts" "c.ts" := by decide
  have hround : TransGen (after tangle).Edge "c.ts" "c.ts" := ((TransGen.single hcb).tail hba).tail hac
  exact ⟨hround, by decide, (cycles_complete tangle).2.2 _ hround⟩

end Graph

end LayerLint
