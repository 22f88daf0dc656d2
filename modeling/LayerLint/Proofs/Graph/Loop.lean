/-
  LayerLint.Proofs.Graph.Loop: the loop of the walk, state by state.

  `loop g root` lists the states in which the loop for a root makes a move. Each of them is one move from the one
  before, and the last move leads to the state in which the loop ends (`isChain_moving`). Since the moves keep
  `Walk.Inv`, every state of every loop has it, the last one with no node open (`rootLoop`).

  What the loops do in all is read off their states. The nodes that are pushed are those that get visited, one after
  the other (`visited_before`). Of the edges a balance is kept (`count_step`): an edge that starts at a visited node is
  still ahead of the walk or was looked at. At the end all nodes are visited and nothing is ahead, so every node was
  pushed once and every edge looked at once (`walk_loops`).
-/

import LayerLint.Proofs.Graph.Closings
import LayerLint.Proofs.Sorting

namespace LayerLint

namespace Graph

namespace Walk

/-! ## States and what is done in them -/

/-- The states in which a walk makes a move, at most `fuel` of them. -/
def moving (g : Graph) : (fuel : Nat) → Walk → List Walk
  | 0, _ => []
  | fuel + 1, w => if w.work.isEmpty then [] else w :: moving g fuel (w.step g)

def before (g : Graph) (root : Nat) : Walk := (List.range root).foldl (fromRoot g) .start

def loop (g : Graph) (root : Nat) : List Walk :=
  if root ∈ (before g root).visited then [] else moving g (enough g) ((before g root).enter g root)

def entered (g : Graph) (root : Nat) : List Nat := if root ∈ (before g root).visited then [] else [root]

def pushes (g : Graph) (w : Walk) : List Nat :=
  ((w.step g).work.take ((w.step g).work.length - w.work.length)).map (·.node)

def examines (w : Walk) : List (Nat × Nat) :=
  match w.work with
  | ⟨n, t :: _⟩ :: _ => [(n, t)]
  | _ => []

def pushed (g : Graph) (k : Nat) : List Nat :=
  (List.range k).flatMap fun root => entered g root ++ (loop g root).flatMap (pushes g)

def examined (g : Graph) (k : Nat) : List (Nat × Nat) :=
  (List.range k).flatMap fun root => (loop g root).flatMap examines

variable {g : Graph}

theorem before_succ (g : Graph) (root : Nat) : before g (root + 1) = fromRoot g (before g root) root := by
  rw [before, List.range_succ, List.foldl_append]
  rfl

theorem pushed_succ (g : Graph) (k : Nat) :
    pushed g (k + 1) = pushed g k ++ (entered g k ++ (loop g k).flatMap (pushes g)) := by
  rw [pushed, List.range_succ, List.flatMap_append, List.flatMap_singleton]
  rfl

theorem examined_succ (g : Graph) (k : Nat) : examined g (k + 1) = examined g k ++ (loop g k).flatMap examines := by
  rw [examined, List.range_succ, List.flatMap_append, List.flatMap_singleton]
  rfl

/-- A loop is passed over, or it is the moves from the entry of its root. -/
theorem loop_cases (g : Graph) (root : Nat) :
    (root ∈ (before g root).visited ∧ before g (root + 1) = before g root ∧ loop g root = [] ∧ entered g root = []) ∨
      (root ∉ (before g root).visited ∧
        before g (root + 1) = run g (enough g) ((before g root).enter g root) ∧
        loop g root = moving g (enough g) ((before g root).enter g root) ∧ entered g root = [root]) := by
  by_cases h : root ∈ (before g root).visited
  · exact .inl ⟨h, by simp [before_succ, fromRoot, h], by simp [loop, h], by simp [entered, h]⟩
  · exact .inr ⟨h, by simp [before_succ, fromRoot, h], by simp [loop, h], by simp [entered, h]⟩

/-! ## One move after the other -/

/-- What holds where no move is made, and is kept when a move is put before others, holds of every run. -/
theorem moving_induction {P : Walk → List Walk → Walk → Prop} (hdone : ∀ w, P w [] w)
    (hmove : ∀ w states last, w.work ≠ [] → P (w.step g) states last → P w (w :: states) last) (fuel : Nat) (w : Walk) :
    P w (moving g fuel w) (run g fuel w) := by
  induction fuel generalizing w with
  | zero => exact hdone w
  | succ fuel ih =>
    by_cases hw : w.work = []
    · simpa [moving, run, hw] using hdone w
    · simpa [moving, run, hw] using hmove w _ _ hw (ih (w.step g))

theorem isChain_moving (fuel : Nat) (w : Walk) :
    (moving g fuel w ++ [run g fuel w]).head? = some w ∧
      (moving g fuel w ++ [run g fuel w]).IsChain fun a b => a.step g = b := by
  refine moving_induction (g := g)
    (P := fun w l last => (l ++ [last]).head? = some w ∧ (l ++ [last]).IsChain fun a b => a.step g = b) ?_ ?_ fuel w
  · exact fun w => ⟨rfl, .singleton w⟩
  · intro w states last _ ih
    refine ⟨rfl, List.isChain_cons.mpr ⟨fun b hb => ?_, ih.2⟩⟩
    exact Option.some.inj (ih.1.symm.trans hb)

theorem of_mem_moving (fuel : Nat) (w : Walk) :
    ∀ w' ∈ moving g fuel w, w'.work ≠ [] ∧ Relation.ReflTransGen (Move g) w w' := by
  refine moving_induction (g := g)
    (P := fun w l _ => ∀ w' ∈ l, w'.work ≠ [] ∧ Relation.ReflTransGen (Move g) w w') ?_ ?_ fuel w
  · exact fun w w' h => absurd h List.not_mem_nil
  · intro w states last hw ih w' h
    rcases List.mem_cons.mp h with rfl | h
    · exact ⟨hw, .refl⟩
    · exact ⟨(ih w' h).1, .head (move_step hw) (ih w' h).2⟩

theorem before_spec (hg : g.Inv) {root : Nat} (hr : root ≤ g.nodes.length) :
    Inv g (before g root) ∧ (before g root).work = [] := by
  have hroots : ∀ n ∈ List.range root, n < g.nodes.length := by
    intro n hn
    have := List.mem_range.mp hn
    omega
  obtain ⟨hinv, hwork, -⟩ := roots_induction (P := fun _ => True) (fun _ _ _ _ _ _ _ => trivial)
    (fun _ _ _ _ _ => trivial) hg _ hroots inv_start rfl trivial
  exact ⟨hinv, hwork⟩

/-! ## What holds in every state -/

/-- The nodes of `work` are the way, in order; a node is marked exactly if it is on the way; the way is visited and
    follows the edges from the root inwards; all numbers are numbers of nodes; and a marked node is found on the way. -/
structure Steady (g : Graph) (w : Walk) : Prop where
  work : w.work.map (·.node) = w.path
  onPath : ∀ n, n ∈ w.onPath ↔ n ∈ w.path
  visited : ∀ n ∈ w.path, n ∈ w.visited
  edges : w.path.reverse.IsChain g.Link
  inRange : ∀ n ∈ w.path ++ w.visited ++ w.work.flatMap (·.pending), n < g.nodes.length
  found : ∀ n ∈ w.onPath, (w.path.reverse.findIdx? (· == n)).isSome

theorem Inv.steady (hg : g.Inv) {w : Walk} (h : Inv g w) : Steady g w where
  work := h.work
  onPath n := by rw [h.onPath]
  visited := h.path_visited
  edges := List.isChain_reverse.mpr h.chain
  inRange n hn := by
    rcases List.mem_append.mp hn with hn | hn
    · rcases List.mem_append.mp hn with hn | hn
      · exact h.visited_lt n (h.path_visited n hn)
      · exact h.visited_lt n hn
    · obtain ⟨f, hf, hn⟩ := List.mem_flatMap.mp hn
      exact (hg.links_lt _ (h.pending f hf n hn)).2
  found n hn := by
    rw [h.onPath] at hn
    rw [List.findIdx?_isSome, List.any_eq_true]
    exact ⟨n, List.mem_reverse.mpr hn, beq_self_eq_true n⟩

def course (g : Graph) (root : Nat) : List Walk := loop g root ++ [before g (root + 1)]

/-- The loop starts with the root as the only open node, unless the root was visited. It goes on move by move as long
    as a node is open, and ends with none open and none marked. All its states are steady. -/
structure RootLoop (g : Graph) (root : Nat) : Prop where
  starts : (course g root).head? =
    some (if root ∈ (before g root).visited then before g root else (before g root).enter g root)
  moves : (course g root).IsChain fun a b => a.step g = b
  continues : ∀ w ∈ loop g root, w.work ≠ []
  ends : (before g (root + 1)).work = [] ∧ (before g (root + 1)).path = [] ∧ (before g (root + 1)).onPath = []
  steady : ∀ w ∈ course g root, Steady g w

theorem rootLoop (hg : g.Inv) {root : Nat} (hr : root < g.nodes.length) : RootLoop g root := by
  obtain ⟨hinv, hwork⟩ := before_spec hg (Nat.le_of_lt hr)
  obtain ⟨hinv', hwork'⟩ := before_spec hg hr
  have hpath' : (before g (root + 1)).path = [] := by rw [← hinv'.work, hwork', List.map_nil]
  have hends := And.intro hwork' (And.intro hpath' (hinv'.onPath.trans hpath'))
  rcases loop_cases g root with ⟨hv, hexit, hloop, -⟩ | ⟨hv, hexit, hloop, -⟩
  · have hcourse : course g root = [before g root] := by rw [course, hloop, hexit, List.nil_append]
    refine ⟨by rw [hcourse, if_pos hv]; rfl, hcourse ▸ .singleton _, by simp [hloop], hends, ?_⟩
    intro w hw
    rw [hcourse] at hw
    exact List.mem_singleton.mp hw ▸ hinv.steady hg
  · have henter : Inv g ((before g root).enter g root) := by
      have hpath : (before g root).path = [] := by rw [← hinv.work, hwork, List.map_nil]
      exact hinv.enter hr hv (by simp [hpath])
    have hcourse : course g root = moving g (enough g) ((before g root).enter g root) ++
        [run g (enough g) ((before g root).enter g root)] := by rw [course, hloop, hexit]
    obtain ⟨hhead, hchain⟩ := isChain_moving (g := g) (enough g) ((before g root).enter g root)
    refine ⟨by rw [hcourse, hhead, if_neg hv], hcourse ▸ hchain, ?_, hends, ?_⟩
    · intro w hw
      rw [hloop] at hw
      exact (of_mem_moving _ _ w hw).1
    · intro w hw
      rcases List.mem_append.mp hw with hw | hw
      · rw [hloop] at hw
        exact (inv_moves hg (of_mem_moving _ _ w hw).2 henter).steady hg
      · exact List.mem_singleton.mp hw ▸ hinv'.steady hg

/-! ## What is pushed -/

theorem visited_step (g : Graph) (w : Walk) : (w.step g).visited = (pushes g w).reverse ++ w.visited := by
  by_cases hw : w.work = []
  · simp [pushes, step, hw]
  · have hm : Move g w (w.step g) := move_step hw
    unfold pushes
    generalize w.step g = w' at hm
    cases hm with
    | leave hw => simp [hw]
    | report hw _ => simp [hw]
    | skip hw _ _ => simp [hw]
    | enter hw _ _ => simp [hw, Walk.enter]

theorem visited_run (fuel : Nat) (w : Walk) :
    (run g fuel w).visited = ((moving g fuel w).flatMap (pushes g)).reverse ++ w.visited := by
  refine moving_induction (g := g)
    (P := fun w l last => last.visited = (l.flatMap (pushes g)).reverse ++ w.visited) ?_ ?_ fuel w
  · exact fun w => rfl
  · intro w states last _ ih
    rw [ih, visited_step, List.flatMap_cons, List.reverse_append, List.append_assoc]

theorem visited_before (g : Graph) (k : Nat) : (before g k).visited = (pushed g k).reverse := by
  induction k with
  | zero => rfl
  | succ k ih =>
    rw [pushed_succ]
    rcases loop_cases g k with ⟨-, hexit, hloop, henter⟩ | ⟨-, hexit, hloop, henter⟩
    · rw [hexit, hloop, henter, ih]
      simp
    · rw [hexit, hloop, henter, visited_run]
      simp [Walk.enter, ih]

/-- The walk visits every node, and none of them twice. -/
theorem visited_walk (hg : g.Inv) : g.walk.visited.Nodup ∧ ∀ n, n ∈ g.walk.visited ↔ n < g.nodes.length := by
  have hmove : ∀ w w', Inv g w → Move g w w' → w.visited.Nodup → w'.visited.Nodup := by
    intro w w' _ hm h
    cases hm with
    | leave _ => exact h
    | report _ _ => exact h
    | skip _ _ _ => exact h
    | enter _ _ hv => exact List.nodup_cons.mpr ⟨hv, h⟩
  obtain ⟨hinv, -, hnodup, hall⟩ := walk_induction (P := fun w => w.visited.Nodup)
    (fun w n _ _ _ hv h => List.nodup_cons.mpr ⟨hv, h⟩) hmove hg List.nodup_nil
  exact ⟨hnodup, fun n => ⟨hinv.visited_lt n, hall n⟩⟩

theorem pushed_perm (hg : g.Inv) : (pushed g g.nodes.length).Perm (List.range g.nodes.length) := by
  have hpushed : (pushed g g.nodes.length).Perm g.walk.visited := by
    show (pushed g g.nodes.length).Perm (before g g.nodes.length).visited
    rw [visited_before]
    exact (List.reverse_perm _).symm
  obtain ⟨hnodup, hall⟩ := visited_walk hg
  refine hpushed.trans ((List.perm_ext_iff_of_nodup hnodup List.nodup_range).mpr fun n => ?_)
  rw [List.mem_range]
  exact hall n

/-! ## What is looked at -/

def startedAt (g : Graph) (visited : List Nat) : List (Nat × Nat) :=
  visited.flatMap fun n => g.links.filter fun l => l.1 = n

/-- The edges that entering a node puts ahead of the walk are those that start at it. -/
theorem count_enter (g : Graph) (w : Walk) (n : Nat) (e : Nat × Nat) :
    (ahead (w.enter g n).work).count e + (startedAt g w.visited).count e =
      (ahead w.work).count e + (startedAt g (w.enter g n).visited).count e := by
  have hmine : (g.targets n).map (n, ·) = g.links.filter fun l => l.1 = n := by
    rw [map_targets]
    rfl
  have hahead : ahead (w.enter g n).work = (g.links.filter fun l => l.1 = n) ++ ahead w.work := by
    rw [← hmine]
    exact ahead_cons _ _
  have hstarted : startedAt g (w.enter g n).visited = (g.links.filter fun l => l.1 = n) ++ startedAt g w.visited :=
    List.flatMap_cons
  rw [hahead, hstarted, List.count_append, List.count_append]
  omega

/-- An edge that starts at a visited node is ahead of the walk until it is looked at. -/
theorem count_step (g : Graph) (w : Walk) (e : Nat × Nat) :
    (examines w).count e + (ahead (w.step g).work).count e + (startedAt g w.visited).count e =
      (ahead w.work).count e + (startedAt g (w.step g).visited).count e := by
  by_cases hw : w.work = []
  · simp [examines, step, hw]
  · have hm : Move g w (w.step g) := move_step hw
    have hadvance : ∀ {n t : Nat} {pending : List Nat} {below : List Frame}, w.work = ⟨n, t :: pending⟩ :: below →
        (examines w).count e + (ahead (⟨n, pending⟩ :: below)).count e = (ahead w.work).count e := by
      intro n t pending below hw
      have hlook : examines w = [(n, t)] := by rw [examines, hw]
      have hahead : ahead w.work = [(n, t)] ++ ahead (⟨n, pending⟩ :: below) := by
        rw [hw, ahead_cons, ahead_cons]
        rfl
      rw [hlook, hahead, List.count_append]
    generalize w.step g = w' at hm
    cases hm with
    | leave hw =>
      simp [examines, hw, ahead_cons]
    | report hw _ => rw [hadvance hw]
    | skip hw _ _ => rw [hadvance hw]
    | @enter n t pending below hw _ _ =>
      have henter := count_enter g { w with work := ⟨n, pending⟩ :: below } t e
      have hlook := hadvance hw
      dsimp only at henter
      omega

theorem count_run (fuel : Nat) (w : Walk) (e : Nat × Nat) :
    ((moving g fuel w).flatMap examines).count e + (ahead (run g fuel w).work).count e +
        (startedAt g w.visited).count e =
      (ahead w.work).count e + (startedAt g (run g fuel w).visited).count e := by
  refine moving_induction (g := g)
    (P := fun w l last => (l.flatMap examines).count e + (ahead last.work).count e + (startedAt g w.visited).count e =
      (ahead w.work).count e + (startedAt g last.visited).count e) ?_ ?_ fuel w
  · intro w
    rw [List.flatMap_nil, List.count_nil, Nat.zero_add]
  · intro w states last _ ih
    have hstep := count_step g w e
    rw [List.flatMap_cons, List.count_append]
    omega

theorem count_before (g : Graph) (k : Nat) (e : Nat × Nat) :
    (examined g k).count e + (ahead (before g k).work).count e = (startedAt g (before g k).visited).count e := by
  induction k with
  | zero => rfl
  | succ k ih =>
    rw [examined_succ, List.count_append]
    rcases loop_cases g k with ⟨-, hexit, hloop, -⟩ | ⟨-, hexit, hloop, -⟩
    · rw [hexit, hloop, List.flatMap_nil, List.count_nil]
      exact ih
    · have henter := count_enter g (before g k) k e
      have hrun := count_run (g := g) (enough g) ((before g k).enter g k) e
      rw [hexit, hloop]
      omega

theorem examined_perm (hg : g.Inv) : (examined g g.nodes.length).Perm g.links := by
  have hexamined : (examined g g.nodes.length).Perm (startedAt g g.walk.visited) := by
    refine List.perm_iff_count.mpr fun e => ?_
    have hcount := count_before g g.nodes.length e
    rw [(before_spec hg (Nat.le_refl _)).2] at hcount
    exact hcount
  obtain ⟨hnodup, hall⟩ := visited_walk hg
  refine hexamined.trans (Sorting.flatMap_filter_perm hnodup g.links fun l hl => ?_)
  exact (hall l.1).mpr (hg.links_lt l hl).1

end Walk

/-- Every root's loop keeps to its invariant and ends, whatever the graph, and over all roots each node is pushed once
    and each edge looked at once. -/
theorem walk_loops (calls : List Call) :
    (∀ root < (after calls).nodes.length, Walk.RootLoop (after calls) root) ∧
      (Walk.pushed (after calls) (after calls).nodes.length).Perm (List.range (after calls).nodes.length) ∧
      (Walk.examined (after calls) (after calls).nodes.length).Perm (after calls).links := by
  have hg := inv_after calls
  exact ⟨fun root => Walk.rootLoop hg, Walk.pushed_perm hg, Walk.examined_perm hg⟩

def selfTangle : List Call := tangle ++ [.connect "c.ts" "c.ts"]

/-- All is done from the first root: three nodes are left and five edges looked at. -/
theorem walk_loops_selfTangle :
    (after selfTangle).nodes.length = 3 ∧ Walk.RootLoop (after selfTangle) 0 ∧
      (Walk.loop (after selfTangle) 0).length = 8 ∧ Walk.loop (after selfTangle) 1 = [] ∧
      Walk.pushed (after selfTangle) 3 = [0, 1, 2] ∧
      Walk.examined (after selfTangle) 3 = [(0, 1), (1, 0), (0, 2), (2, 1), (2, 2)] := by
  have hnodes : (after selfTangle).nodes.length = 3 := by decide
  obtain ⟨hloops, -, -⟩ := walk_loops selfTangle
  exact ⟨hnodes, hloops 0 (by decide), by decide, by decide, by decide, by decide⟩

end Graph

end LayerLint
