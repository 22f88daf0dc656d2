/-
  LayerLint.Proofs.Graph.Walk: the moves of the walk, what they keep, and why the walk ends.

  A walk with an open node makes one of four moves (`Move`): it leaves the innermost node, reports the
  cycle that its next target closes, skips a target it has left before, or enters a new one. What a
  whole walk keeps is what the moves and the entry at a root keep (`walk_induction`).

  - `Inv`: the open nodes are the way, a node is on the way as long as it is open, the way follows the
    edges, and every reported list is a cycle.
  - `remaining`: the moves still to be made. Each move takes one away (`remaining_move`), so a walk
    with room for them all ends with no node open (`run_work`).
-/

import LayerLint.Graph.Cycles
import LayerLint.Proofs.Graph.Store
import Mathlib.Data.List.Chain
import Mathlib.Logic.Relation

namespace LayerLint

/-- A list that follows the edges, comes back from its end to its start, and meets nothing twice. -/
structure IsCycle {α : Type} (edge : α → α → Prop) (c : List α) : Prop where
  nodup : c.Nodup
  chain : c.IsChain edge
  closed : ∃ first last, c.head? = some first ∧ c.getLast? = some last ∧ edge last first

namespace Graph

def Link (g : Graph) (a b : Nat) : Prop := (a, b) ∈ g.links

theorem mem_targets {g : Graph} {n t : Nat} : t ∈ g.targets n ↔ g.Link n t := by
  simp [targets, Link]

namespace Walk

/-! ## The moves -/

inductive Move (g : Graph) (w : Walk) : Walk → Prop
  | leave {n : Nat} {below : List Frame} : w.work = ⟨n, []⟩ :: below →
      Move g w { w with work := below, path := w.path.tail, onPath := w.onPath.filter (· != n) }
  | report {n t : Nat} {pending : List Nat} {below : List Frame} : w.work = ⟨n, t :: pending⟩ :: below →
      t ∈ w.onPath →
      Move g w { w with work := ⟨n, pending⟩ :: below, cycles := w.cycles ++ [cycleFrom w.path t] }
  | skip {n t : Nat} {pending : List Nat} {below : List Frame} : w.work = ⟨n, t :: pending⟩ :: below →
      t ∉ w.onPath → t ∈ w.visited → Move g w { w with work := ⟨n, pending⟩ :: below }
  | enter {n t : Nat} {pending : List Nat} {below : List Frame} : w.work = ⟨n, t :: pending⟩ :: below →
      t ∉ w.onPath → t ∉ w.visited → Move g w (enter g { w with work := ⟨n, pending⟩ :: below } t)

variable {g : Graph}

theorem move_step {w : Walk} (h : w.work ≠ []) : Move g w (w.step g) := by
  rcases hw : w.work with _ | ⟨⟨n, _ | ⟨t, pending⟩⟩, below⟩
  · exact absurd hw h
  · simpa [step, hw] using Move.leave hw
  · by_cases hp : t ∈ w.onPath
    · simpa [step, hw, hp] using Move.report hw hp
    by_cases hv : t ∈ w.visited
    · simpa [step, hw, hp, hv] using Move.skip hw hp hv
    · simpa [step, hw, hp, hv] using Move.enter hw hp hv

/-- A walk that is run to its end makes moves. -/
theorem run_moves (fuel : Nat) (w : Walk) : Relation.ReflTransGen (Move g) w (run g fuel w) := by
  induction fuel generalizing w with
  | zero => exact .refl
  | succ fuel ih =>
    simp only [run]
    split
    · exact .refl
    · rename_i h
      exact .head (move_step (by simpa using h)) (ih _)

/-! ## The piece of the way that is reported -/

theorem cycleFrom_split {path : List Nat} {n : Nat} (h : n ∈ path) :
    ∃ before rest, path.reverse = before ++ n :: rest ∧ n ∉ before ∧ cycleFrom path n = n :: rest := by
  obtain ⟨before, rest, hr, hn⟩ := List.eq_append_cons_of_mem (List.mem_reverse.mpr h)
  refine ⟨before, rest, hr, hn, ?_⟩
  have hfind : (before ++ n :: rest).findIdx? (· == n) = some before.length := by
    have hnone : before.findIdx? (· == n) = none := by
      rw [List.findIdx?_eq_none_iff]
      intro x hx
      exact beq_eq_false_iff_ne.mpr (ne_of_mem_of_not_mem hx hn)
    simp [List.findIdx?_append, hnone, List.findIdx?_cons]
  simp [cycleFrom, hr, hfind]

/-- The piece closes at the innermost node. -/
theorem cycleFrom_closes {m n : Nat} {path rest : List Nat} (hp : path = m :: rest) (h : n ∈ path) :
    (cycleFrom path n).head? = some n ∧ (cycleFrom path n).getLast? = some m := by
  obtain ⟨before, after, hr, -, hc⟩ := cycleFrom_split h
  refine ⟨by rw [hc, List.head?_cons], ?_⟩
  have hlast := congrArg List.getLast? hr
  rw [List.getLast?_append_cons, List.getLast?_reverse, hp, List.head?_cons] at hlast
  rw [hc, ← hlast]

theorem cycleFrom_suffix {path : List Nat} {n : Nat} (h : n ∈ path) : cycleFrom path n <:+ path.reverse := by
  obtain ⟨before, rest, hr, -, hc⟩ := cycleFrom_split h
  exact ⟨before, by rw [hr, hc]⟩

/-! ## The invariant -/

structure Inv (g : Graph) (w : Walk) : Prop where
  /-- The open nodes are the nodes on the way. -/
  work : w.work.map (·.node) = w.path
  onPath : w.onPath = w.path
  path_nodup : w.path.Nodup
  path_visited : ∀ n ∈ w.path, n ∈ w.visited
  visited_lt : ∀ n ∈ w.visited, n < g.nodes.length
  /-- Innermost first, so that an edge leads to the node before. -/
  chain : w.path.IsChain fun b a => g.Link a b
  pending : ∀ f ∈ w.work, ∀ t ∈ f.pending, g.Link f.node t
  cycles : ∀ c ∈ w.cycles, IsCycle g.Link c ∧ ∀ n ∈ c, n < g.nodes.length

theorem inv_start : Inv g .start :=
  ⟨rfl, rfl, List.nodup_nil, by simp [start], by simp [start], .nil, by simp [start], by simp [start]⟩

/-- A new node may be entered where an edge leads to it from the innermost node, or where none is open. -/
theorem Inv.enter {w : Walk} (h : Inv g w) {n : Nat} (hn : n < g.nodes.length) (hv : n ∉ w.visited)
    (hl : ∀ m ∈ w.path.head?, g.Link m n) : Inv g (w.enter g n) := by
  refine ⟨congrArg (n :: ·) h.work, congrArg (n :: ·) h.onPath, ?_, ?_, ?_, h.chain.cons hl, ?_, h.cycles⟩
  · exact List.nodup_cons.mpr ⟨fun hp => hv (h.path_visited n hp), h.path_nodup⟩
  · intro m hm
    rcases List.mem_cons.mp hm with rfl | hm
    · exact List.mem_cons_self
    · exact List.mem_cons_of_mem _ (h.path_visited m hm)
  · intro m hm
    rcases List.mem_cons.mp hm with rfl | hm
    · exact hn
    · exact h.visited_lt m hm
  · intro f hf t ht
    rcases List.mem_cons.mp hf with rfl | hf
    · exact mem_targets.mp ht
    · exact h.pending f hf t ht

/-- Clearing the flag of the end of a way that meets no node twice drops that end and no more. -/
theorem filter_ne_end {n : Nat} {way : List Nat} (h : n ∉ way) : (n :: way).filter (· != n) = way := by
  rw [List.filter_cons_of_neg (by simp), List.filter_eq_self]
  intro m hm
  exact bne_iff_ne.mpr (ne_of_mem_of_not_mem hm h)

section Open

variable {w : Walk} {n t : Nat} {pending : List Nat} {below : List Frame}

/-- The innermost open node is the end of the way. -/
theorem Inv.path_eq (h : Inv g w) {f : Frame} (hw : w.work = f :: below) :
    w.path = f.node :: below.map (·.node) := by
  rw [← h.work, hw, List.map_cons]

theorem Inv.link (h : Inv g w) (hw : w.work = ⟨n, t :: pending⟩ :: below) : g.Link n t :=
  h.pending ⟨n, t :: pending⟩ (hw ▸ List.mem_cons_self) t List.mem_cons_self

/-- Looking at a target changes nothing but what is still to be looked at. -/
theorem Inv.advance (h : Inv g w) (hw : w.work = ⟨n, t :: pending⟩ :: below) :
    Inv g { w with work := ⟨n, pending⟩ :: below } := by
  refine ⟨(h.path_eq hw).symm, h.onPath, h.path_nodup, h.path_visited, h.visited_lt, h.chain, ?_, h.cycles⟩
  intro f hf s hs
  rcases List.mem_cons.mp hf with rfl | hf
  · exact h.pending ⟨n, t :: pending⟩ (hw ▸ List.mem_cons_self) s (List.mem_cons_of_mem _ hs)
  · exact h.pending f (hw ▸ List.mem_cons_of_mem _ hf) s hs

theorem Inv.leave (h : Inv g w) (hw : w.work = ⟨n, []⟩ :: below) :
    Inv g { w with work := below, path := w.path.tail, onPath := w.onPath.filter (· != n) } := by
  have hp := h.path_eq hw
  have hnodup := h.path_nodup
  rw [hp, List.nodup_cons] at hnodup
  have htail : w.path.tail = below.map (·.node) := by rw [hp, List.tail_cons]
  have hfilter : w.onPath.filter (· != n) = w.path.tail := by
    rw [h.onPath, htail, hp]
    exact filter_ne_end hnodup.1
  refine ⟨htail.symm, hfilter, ?_, fun m hm => h.path_visited m (List.mem_of_mem_tail hm), h.visited_lt,
    h.chain.tail, fun f hf => h.pending f (hw ▸ List.mem_cons_of_mem _ hf), h.cycles⟩
  exact htail ▸ hnodup.2

theorem Inv.report (h : Inv g w) (hw : w.work = ⟨n, t :: pending⟩ :: below) (ht : t ∈ w.onPath) :
    Inv g { w with work := ⟨n, pending⟩ :: below, cycles := w.cycles ++ [cycleFrom w.path t] } := by
  have ha := h.advance hw
  refine ⟨ha.work, ha.onPath, ha.path_nodup, ha.path_visited, ha.visited_lt, ha.chain, ha.pending, ?_⟩
  intro c hc
  rcases List.mem_append.mp hc with hc | hc
  · exact h.cycles c hc
  obtain rfl := List.mem_singleton.mp hc
  rw [h.onPath] at ht
  have hsuffix := cycleFrom_suffix ht
  obtain ⟨hfirst, hlast⟩ := cycleFrom_closes (h.path_eq hw) ht
  refine ⟨⟨?_, ?_, t, n, hfirst, hlast, h.link hw⟩, fun m hm => ?_⟩
  · exact (List.nodup_reverse.mpr h.path_nodup).sublist hsuffix.sublist
  · exact (List.isChain_reverse.mpr h.chain).suffix hsuffix
  · exact h.visited_lt m (h.path_visited m (List.mem_reverse.mp (hsuffix.subset hm)))

end Open

theorem inv_move (hg : g.Inv) {w w' : Walk} (hm : Move g w w') (h : Inv g w) : Inv g w' := by
  cases hm with
  | leave hw => exact h.leave hw
  | report hw ht => exact h.report hw ht
  | skip hw _ _ => exact h.advance hw
  | @enter n t pending below hw _ hv =>
    refine (h.advance hw).enter (hg.links_lt _ (h.link hw)).2 hv ?_
    have hhead : w.path.head? = some n := by rw [h.path_eq hw, List.head?_cons]
    rw [hhead]
    rintro m ⟨⟩
    exact h.link hw

theorem inv_moves (hg : g.Inv) {w w' : Walk} (hm : Relation.ReflTransGen (Move g) w w') (h : Inv g w) :
    Inv g w' := by
  induction hm with
  | refl => exact h
  | tail _ hm ih => exact inv_move hg hm ih

/-! ## The moves still to be made -/

def unvisited {α : Type} (visited : List Nat) (node : α → Nat) (l : List α) : Nat :=
  l.countP fun x => !visited.contains (node x)

/-- Every open node is still to be left and every pending target to be looked at; the same holds of each node
    that is not visited and of its edges. -/
def remaining (g : Graph) (w : Walk) : Nat :=
  w.work.length + (w.work.flatMap (·.pending)).length + unvisited w.visited id (List.range g.nodes.length) +
    unvisited w.visited Prod.fst g.links

theorem unvisited_cons {α : Type} {visited : List Nat} {n : Nat} (hn : n ∉ visited) (node : α → Nat) (l : List α) :
    unvisited visited node l = unvisited (n :: visited) node l + l.countP (node · == n) := by
  induction l with
  | nil => rfl
  | cons x l ih =>
    simp only [unvisited, List.countP_cons] at ih ⊢
    rw [ih]
    by_cases e : node x = n
    · simp [e, hn]
      omega
    · simp [e]
      omega

/-- Entering a node opens exactly the moves that were counted for it. -/
theorem remaining_enter {w : Walk} {n : Nat} (hn : n < g.nodes.length) (hv : n ∉ w.visited) :
    (w.enter g n).remaining g = w.remaining g := by
  have hnode : (List.range g.nodes.length).countP (id · == n) = 1 :=
    List.count_eq_one_of_mem List.nodup_range (List.mem_range.mpr hn)
  have hlinks : (g.targets n).length = g.links.countP (·.1 == n) := by
    rw [targets, List.length_map, List.countP_eq_length_filter]
  have h1 := unvisited_cons hv id (List.range g.nodes.length)
  have h2 := unvisited_cons hv Prod.fst g.links
  simp only [remaining, Walk.enter, List.length_cons, List.flatMap_cons, List.length_append]
  omega

theorem remaining_advance {w : Walk} {n t : Nat} {pending : List Nat} {below : List Frame}
    (hw : w.work = ⟨n, t :: pending⟩ :: below) :
    remaining g { w with work := ⟨n, pending⟩ :: below } + 1 = w.remaining g := by
  simp only [remaining, hw, List.length_cons, List.flatMap_cons, List.length_append]
  omega

theorem remaining_move (hg : g.Inv) {w w' : Walk} (h : Inv g w) (hm : Move g w w') :
    w'.remaining g + 1 = w.remaining g := by
  cases hm with
  | leave hw =>
    simp only [remaining, hw, List.length_cons, List.flatMap_cons, List.nil_append]
    omega
  | report hw _ => exact remaining_advance hw
  | skip hw _ _ => exact remaining_advance hw
  | @enter n t pending below hw _ hv =>
    have ht : t < g.nodes.length := (hg.links_lt _ (h.link hw)).2
    rw [remaining_enter (w := { w with work := ⟨n, pending⟩ :: below }) ht hv]
    exact remaining_advance hw

/-- A walk with room for the moves that remain ends with no node open. -/
theorem run_work (hg : g.Inv) (fuel : Nat) {w : Walk} (h : Inv g w) (hf : w.remaining g ≤ fuel) :
    (run g fuel w).work = [] := by
  induction fuel generalizing w with
  | zero =>
    apply List.eq_nil_of_length_eq_zero
    simp only [run]
    unfold remaining at hf
    omega
  | succ fuel ih =>
    simp only [run]
    split
    · rename_i he
      simpa using he
    · rename_i he
      have hm : Move g w (w.step g) := move_step (by simpa using he)
      have hr := remaining_move hg h hm
      exact ih (inv_move hg hm h) (by omega)

theorem remaining_le_enough {w : Walk} (hw : w.work = []) : w.remaining g ≤ enough g := by
  have h1 : unvisited w.visited id (List.range g.nodes.length) ≤ g.nodes.length :=
    List.countP_le_length.trans_eq List.length_range
  have h2 : unvisited w.visited Prod.fst g.links ≤ g.links.length := List.countP_le_length
  simp only [remaining, hw, enough, List.length_nil, List.flatMap_nil]
  omega

/-! ## The whole walk -/

/-- A root is passed over if it was visited; else the walk enters it and moves until no node is open. -/
theorem fromRoot_spec (hg : g.Inv) {w : Walk} (h : Inv g w) (hw : w.work = []) {root : Nat}
    (hr : root < g.nodes.length) :
    (root ∈ w.visited ∧ fromRoot g w root = w) ∨
      (root ∉ w.visited ∧ Inv g (w.enter g root) ∧ (fromRoot g w root).work = [] ∧
        Relation.ReflTransGen (Move g) (w.enter g root) (fromRoot g w root)) := by
  by_cases hv : root ∈ w.visited
  · exact Or.inl ⟨hv, by simp [fromRoot, hv]⟩
  · right
    have hpath : w.path = [] := by rw [← h.work, hw, List.map_nil]
    have henter : Inv g (w.enter g root) := h.enter hr hv (by simp [hpath])
    have hrun : fromRoot g w root = run g (enough g) (w.enter g root) := by simp [fromRoot, hv]
    rw [hrun]
    refine ⟨hv, henter, run_work hg _ henter ?_, run_moves _ _⟩
    rw [remaining_enter hr hv]
    exact remaining_le_enough hw

theorem visited_move {w w' : Walk} (hm : Move g w w') : ∀ n ∈ w.visited, n ∈ w'.visited := by
  cases hm with
  | leave _ => exact fun _ h => h
  | report _ _ => exact fun _ h => h
  | skip _ _ _ => exact fun _ h => h
  | enter _ _ _ => exact fun _ h => List.mem_cons_of_mem _ h

theorem visited_moves {w w' : Walk} (hm : Relation.ReflTransGen (Move g) w w') : ∀ n ∈ w.visited, n ∈ w'.visited := by
  induction hm with
  | refl => exact fun _ h => h
  | tail _ hm ih => exact fun n h => visited_move hm n (ih n h)

section Induction

variable {P : Walk → Prop}

theorem moves_keep (hg : g.Inv) (hmove : ∀ w w', Inv g w → Move g w w' → P w → P w') {w w' : Walk} (h : Inv g w)
    (hm : Relation.ReflTransGen (Move g) w w') (hP : P w) : P w' := by
  induction hm with
  | refl => exact hP
  | tail hms hm ih => exact hmove _ _ (inv_moves hg hms h) hm ih

variable (henter : ∀ w n, Inv g w → w.work = [] → n < g.nodes.length → n ∉ w.visited → P w → P (w.enter g n))
  (hmove : ∀ w w', Inv g w → Move g w w' → P w → P w')

include henter hmove

theorem fromRoot_keeps (hg : g.Inv) {w : Walk} (h : Inv g w) (hw : w.work = []) (hP : P w) {root : Nat}
    (hr : root < g.nodes.length) :
    Inv g (fromRoot g w root) ∧ (fromRoot g w root).work = [] ∧ P (fromRoot g w root) ∧
      ∀ n, n = root ∨ n ∈ w.visited → n ∈ (fromRoot g w root).visited := by
  rcases fromRoot_spec hg h hw hr with ⟨hv, he⟩ | ⟨hv, hi, hend, hms⟩
  · rw [he]
    refine ⟨h, hw, hP, ?_⟩
    rintro n (rfl | hn)
    · exact hv
    · exact hn
  · refine ⟨inv_moves hg hms hi, hend, moves_keep hg hmove hi hms (henter w root h hw hr hv hP), ?_⟩
    exact fun n hn => visited_moves hms n (List.mem_cons.mpr hn)

theorem roots_induction (hg : g.Inv) (roots : List Nat) (hroots : ∀ n ∈ roots, n < g.nodes.length) {w : Walk}
    (h : Inv g w) (hw : w.work = []) (hP : P w) :
    Inv g (roots.foldl (fromRoot g) w) ∧ (roots.foldl (fromRoot g) w).work = [] ∧ P (roots.foldl (fromRoot g) w) ∧
      ∀ n, n ∈ roots ∨ n ∈ w.visited → n ∈ (roots.foldl (fromRoot g) w).visited := by
  induction roots generalizing w with
  | nil => exact ⟨h, hw, hP, by simp⟩
  | cons root roots ih =>
    obtain ⟨h1, h2, h3, h4⟩ := fromRoot_keeps henter hmove hg h hw hP (hroots root List.mem_cons_self)
    obtain ⟨i1, i2, i3, i4⟩ := ih (fun n hn => hroots n (List.mem_cons_of_mem _ hn)) h1 h2 h3
    refine ⟨i1, i2, i3, fun n hn => i4 n ?_⟩
    rcases hn with hn | hn
    · rcases List.mem_cons.mp hn with hn | hn
      · exact Or.inr (h4 n (Or.inl hn))
      · exact Or.inl hn
    · exact Or.inr (h4 n (Or.inr hn))

/-- What the entry at a root and the moves keep holds at the end, when no node is open and all are visited. -/
theorem walk_induction (hg : g.Inv) (hstart : P .start) :
    Inv g g.walk ∧ g.walk.work = [] ∧ P g.walk ∧ ∀ n < g.nodes.length, n ∈ g.walk.visited := by
  obtain ⟨h1, h2, h3, h4⟩ := roots_induction henter hmove hg (List.range g.nodes.length)
    (fun n hn => List.mem_range.mp hn) inv_start rfl hstart
  exact ⟨h1, h2, h3, fun n hn => h4 n (Or.inl (List.mem_range.mpr hn))⟩

end Induction

theorem inv_walk (hg : g.Inv) : Inv g g.walk :=
  (walk_induction (P := fun _ => True) (fun _ _ _ _ _ _ _ => trivial) (fun _ _ _ _ _ => trivial) hg trivial).1

end Walk

end Graph

end LayerLint
