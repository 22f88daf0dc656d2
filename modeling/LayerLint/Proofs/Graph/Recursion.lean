/-
  LayerLint.Proofs.Graph.Recursion: the walk finds what the recursive search finds, in the same order.

  `search` is the walk as one would tell it: the roots in order, without those visited; a visit marks a
  path, puts it at the end of the way and looks at its dependencies in order, each of which closes a
  cycle if it lies on the way and is visited in turn if it was not yet. The way is an argument, so a
  path drops from it when its visit is over. `room` bounds the depth, and a way meets no path twice, so
  room for all nodes is enough; `cycles_eq_search` holds for any room beyond that.

  The walk keeps open nodes where the search has calls that have not returned. A visit is matched by a
  run of moves from the entry of a node to its leaving that restores all but the visited nodes and the
  cycles (`visit_moves`). The search on numbers is then the search on paths (`search_map`).
-/

import LayerLint.Proofs.Graph.Cycles
import Mathlib.Data.List.Perm.Subperm

namespace LayerLint

open Relation

structure Found (α : Type) where
  visited : List α
  cycles : List (List α)

namespace Found

variable {α β : Type} [DecidableEq α] [DecidableEq β]

def look (visit : Found α → α → Found α) (way : List α) (s : Found α) (t : α) : Found α :=
  if t ∈ way then { s with cycles := s.cycles ++ [way.dropWhile (· != t)] }
  else if t ∈ s.visited then s
  else visit s t

/-- Visits what is not visited yet, coming along the way. -/
def visit (next : α → List α) : (room : Nat) → (way : List α) → Found α → α → Found α
  | 0, _, s, _ => s
  | room + 1, way, s, n =>
    (next n).foldl (look (visit next room (way ++ [n])) (way ++ [n])) { s with visited := n :: s.visited }

def search (next : α → List α) (room : Nat) (roots : List α) : Found α :=
  roots.foldl (fun s root => if root ∈ s.visited then s else visit next room [] s root) ⟨[], []⟩

section Look

variable {visit : Found α → α → Found α} {way : List α} {s : Found α} {t : α}

theorem look_onWay (h : t ∈ way) :
    look visit way s t = { s with cycles := s.cycles ++ [way.dropWhile (· != t)] } := if_pos h

theorem look_visited (h : t ∉ way) (hv : t ∈ s.visited) : look visit way s t = s := by
  rw [look, if_neg h, if_pos hv]

theorem look_fresh (h : t ∉ way) (hv : t ∉ s.visited) : look visit way s t = visit s t := by
  rw [look, if_neg h, if_neg hv]

end Look

end Found

namespace Graph

namespace Walk

variable {g : Graph}

/-! ## One end -/

theorem Move.eq_step {w w' : Walk} (h : Move g w w') : w' = w.step g := by
  cases h with
  | leave hw => simp [step, hw]
  | report hw ht => simp [step, hw, ht]
  | skip hw ht hv => simp [step, hw, ht, hv]
  | enter hw ht hv => simp [step, hw, ht, hv]

theorem Move.work_ne_nil {w w' : Walk} (h : Move g w w') : w.work ≠ [] := by
  cases h <;> simp_all

/-- Moves lead to one walk only with no node open. -/
theorem moves_unique {w a b : Walk} (ha : ReflTransGen (Move g) w a) (hb : ReflTransGen (Move g) w b)
    (hae : a.work = []) (hbe : b.work = []) : a = b := by
  have hend : ∀ {x y : Walk}, ReflTransGen (Move g) x y → x.work = [] → x = y := by
    intro x y hxy hx
    rcases hxy.cases_head with e | ⟨z, hm, -⟩
    · exact e
    · exact absurd hx hm.work_ne_nil
  have hunique : Relator.RightUnique (Move g) := fun x y z hy hz => hy.eq_step.trans hz.eq_step.symm
  rcases ReflTransGen.total_of_right_unique hunique ha hb with h | h
  · exact hend h hae
  · exact (hend h hbe).symm

/-! ## A visit as a run of moves -/

def found (w : Walk) : Found Nat := ⟨w.visited, w.cycles⟩

def having (w : Walk) (s : Found Nat) : Walk := { w with visited := s.visited, cycles := s.cycles }

theorem cycleFrom_eq_dropWhile {path : List Nat} {n : Nat} (h : n ∈ path) :
    cycleFrom path n = path.reverse.dropWhile (· != n) := by
  obtain ⟨before, rest, hr, hn, hc⟩ := cycleFrom_split h
  have hall : ∀ m ∈ before, (m != n) = true := fun m hm => bne_iff_ne.mpr (ne_of_mem_of_not_mem hm hn)
  rw [hc, hr, List.dropWhile_append_of_pos hall]
  simp

/-- The way meets no node twice, so it is no longer than there are nodes. -/
theorem Inv.path_length_le {w : Walk} (h : Inv g w) : w.path.length ≤ g.nodes.length := by
  have hsub : w.path ⊆ List.range g.nodes.length :=
    fun n hn => List.mem_range.mpr (h.visited_lt n (h.path_visited n hn))
  have := (List.subperm_of_subset h.path_nodup hsub).length_le
  rwa [List.length_range] at this

/-- The innermost node looks at its pending targets, once visits from it are runs of moves. -/
theorem look_moves (hg : g.Inv) {room : Nat}
    (hvisit : ∀ {w : Walk} {t : Nat}, Inv g (w.enter g t) → g.nodes.length ≤ room + w.path.length →
      ReflTransGen (Move g) (w.enter g t) (w.having (Found.visit g.targets room w.path.reverse w.found t)))
    {n : Nat} {below : List Frame} (pending : List Nat) {w : Walk} (hw : w.work = ⟨n, pending⟩ :: below)
    (h : Inv g w) (hroom : g.nodes.length ≤ room + w.path.length) :
    ReflTransGen (Move g) w (having { w with work := ⟨n, []⟩ :: below }
      (pending.foldl (Found.look (Found.visit g.targets room w.path.reverse) w.path.reverse) w.found)) := by
  induction pending generalizing w with
  | nil =>
    obtain ⟨work, path, onPath, visited, cycles⟩ := w
    obtain rfl : work = ⟨n, []⟩ :: below := hw
    exact .refl
  | cons t pending ih =>
    rw [List.foldl_cons]
    by_cases ht : t ∈ w.path
    · have hm : Move g w _ := .report hw (h.onPath ▸ ht)
      rw [Found.look_onWay (List.mem_reverse.mpr ht), ← cycleFrom_eq_dropWhile ht]
      exact .head hm (ih rfl (inv_move hg hm h) hroom)
    have hp : t ∉ w.onPath := h.onPath ▸ ht
    have hway : t ∉ w.path.reverse := fun hr => ht (List.mem_reverse.mp hr)
    by_cases hv : t ∈ w.visited
    · have hm : Move g w _ := .skip hw hp hv
      rw [Found.look_visited hway (show t ∈ w.found.visited from hv)]
      exact .head hm (ih rfl (inv_move hg hm h) hroom)
    · have hm : Move g w _ := .enter hw hp hv
      have hi := inv_move hg hm h
      have hms := hvisit hi hroom
      rw [Found.look_fresh hway (show t ∉ w.found.visited from hv)]
      exact .head hm (hms.trans (ih rfl (inv_moves hg hms hi) hroom))

/-- From the entry of a node to its leaving the walk finds what the visit finds. -/
theorem visit_moves (hg : g.Inv) (room : Nat) {w : Walk} {n : Nat} (h : Inv g (w.enter g n))
    (hroom : g.nodes.length ≤ room + w.path.length) :
    ReflTransGen (Move g) (w.enter g n) (w.having (Found.visit g.targets room w.path.reverse w.found n)) := by
  induction room generalizing w n with
  | zero =>
    have hlen : w.path.length + 1 ≤ g.nodes.length := h.path_length_le
    omega
  | succ room ih =>
    have hlook := look_moves hg ih (g.targets n) rfl h (by simp only [Walk.enter, List.length_cons]; omega)
    have hway : (w.enter g n).path.reverse = w.path.reverse ++ [n] := List.reverse_cons
    have hvisit : Found.visit g.targets (room + 1) w.path.reverse w.found n =
        (g.targets n).foldl (Found.look (Found.visit g.targets room (w.path.reverse ++ [n])) (w.path.reverse ++ [n]))
          (w.enter g n).found := rfl
    rw [hway, ← hvisit] at hlook
    refine hlook.tail ?_
    have hp : w.onPath = w.path := (List.cons.inj h.onPath).2
    have hflag : (n :: w.onPath).filter (· != n) = w.onPath :=
      filter_ne_end (hp ▸ (List.nodup_cons.mp h.path_nodup).1)
    have hleave := Move.leave (g := g) (w := having { w.enter g n with work := ⟨n, []⟩ :: w.work }
      (Found.visit g.targets (room + 1) w.path.reverse w.found n)) rfl
    simpa only [having, Walk.enter, List.tail_cons, hflag] using hleave

theorem roots_found (hg : g.Inv) {room : Nat} (hroom : g.nodes.length ≤ room) (roots : List Nat)
    (hroots : ∀ n ∈ roots, n < g.nodes.length) {w : Walk} (h : Inv g w) (hw : w.work = []) :
    (roots.foldl (fromRoot g) w).found = roots.foldl
      (fun s root => if root ∈ s.visited then s else Found.visit g.targets room [] s root) w.found := by
  induction roots generalizing w with
  | nil => rfl
  | cons root roots ih =>
    have hrest : ∀ n ∈ roots, n < g.nodes.length := fun n hn => hroots n (List.mem_cons_of_mem _ hn)
    have hpath : w.path = [] := by rw [← h.work, hw, List.map_nil]
    rw [List.foldl_cons, List.foldl_cons]
    rcases fromRoot_spec hg h hw (hroots root List.mem_cons_self) with ⟨hv, he⟩ | ⟨hv, hi, hend, hms⟩
    · rw [he, if_pos (show root ∈ w.found.visited from hv)]
      exact ih hrest h hw
    · have hvisit := visit_moves hg room hi (by omega)
      rw [hpath, List.reverse_nil] at hvisit
      have he : fromRoot g w root = w.having (Found.visit g.targets room [] w.found root) :=
        moves_unique hms hvisit hend hw
      rw [if_neg (show root ∉ w.found.visited from hv), ih hrest (inv_moves hg hms hi) hend, he]
      rfl

theorem walk_found (hg : g.Inv) {room : Nat} (hroom : g.nodes.length ≤ room) :
    g.walk.found = Found.search g.targets room (List.range g.nodes.length) :=
  roots_found hg hroom _ (fun _ hn => List.mem_range.mp hn) inv_start rfl

end Walk

end Graph

/-! ## From numbers to paths -/

namespace Found

variable {α β : Type} [DecidableEq α] [DecidableEq β]

def map (f : α → β) (s : Found α) : Found β := ⟨s.visited.map f, s.cycles.map (·.map f)⟩

theorem search_eq_foldl_look (next : α → List α) (room : Nat) (roots : List α) :
    search next room roots = roots.foldl (look (visit next room []) []) ⟨[], []⟩ := by
  have hlook : look (visit next room []) [] =
      fun s root => if root ∈ s.visited then s else visit next room [] s root := by
    funext s root
    simp [look]
  rw [search, hlook]

section Map

/- `f` keeps apart what is known, and what follows something known is known. -/
variable {f : α → β} {known : α → Prop} (hinj : ∀ a b, known a → known b → f a = f b → a = b)
  {next : α → List α} {next' : β → List β} (hnext : ∀ a, known a → next' (f a) = (next a).map f)
  (hclosed : ∀ a, known a → ∀ b ∈ next a, known b)

/-- From known findings to a known node both visits do the same, and find known nodes. -/
def Agree (f : α → β) (known : α → Prop) (visit : Found α → α → Found α) (visit' : Found β → β → Found β) : Prop :=
  ∀ s t, (∀ a ∈ s.visited, known a) → known t →
    visit' (s.map f) (f t) = (visit s t).map f ∧ ∀ a ∈ (visit s t).visited, known a

section

include hinj

omit [DecidableEq α] [DecidableEq β] in
theorem mem_map_known {l : List α} (hl : ∀ a ∈ l, known a) {t : α} (ht : known t) : f t ∈ l.map f ↔ t ∈ l := by
  refine ⟨fun h => ?_, List.mem_map_of_mem⟩
  obtain ⟨a, ha, e⟩ := List.mem_map.mp h
  exact hinj a t (hl a ha) ht e ▸ ha

theorem dropWhile_map_known {way : List α} (hway : ∀ a ∈ way, known a) {t : α} (ht : known t) :
    (way.map f).dropWhile (· != f t) = (way.dropWhile (· != t)).map f := by
  induction way with
  | nil => rfl
  | cons a way ih =>
    obtain ⟨ha, hrest⟩ := List.forall_mem_cons.mp hway
    by_cases e : a = t
    · simp [e]
    · have hne : f a ≠ f t := fun he => e (hinj a t ha ht he)
      simpa [e, hne] using ih hrest

theorem look_agree {visit : Found α → α → Found α} {visit' : Found β → β → Found β} (h : Agree f known visit visit')
    {way : List α} (hway : ∀ a ∈ way, known a) : Agree f known (look visit way) (look visit' (way.map f)) := by
  intro s t hs ht
  have hvisited : f t ∈ (s.map f).visited ↔ t ∈ s.visited := mem_map_known hinj hs ht
  simp only [look, mem_map_known hinj hway ht, hvisited]
  split
  · exact ⟨by simp [map, dropWhile_map_known hinj hway ht], hs⟩
  · split
    · exact ⟨rfl, hs⟩
    · exact h s t hs ht

end

omit [DecidableEq α] [DecidableEq β] in
theorem foldl_agree {visit : Found α → α → Found α} {visit' : Found β → β → Found β} (h : Agree f known visit visit')
    (ts : List α) (hts : ∀ t ∈ ts, known t) {s : Found α} (hs : ∀ a ∈ s.visited, known a) :
    (ts.map f).foldl visit' (s.map f) = (ts.foldl visit s).map f ∧ ∀ a ∈ (ts.foldl visit s).visited, known a := by
  induction ts generalizing s with
  | nil => exact ⟨rfl, hs⟩
  | cons t ts ih =>
    obtain ⟨ht, hrest⟩ := List.forall_mem_cons.mp hts
    obtain ⟨he, hk⟩ := h s t hs ht
    rw [List.map_cons, List.foldl_cons, List.foldl_cons, he]
    exact ih hrest hk

include hinj hnext hclosed

theorem visit_agree (room : Nat) {way : List α} (hway : ∀ a ∈ way, known a) :
    Agree f known (visit next room way) (visit next' room (way.map f)) := by
  induction room generalizing way with
  | zero => exact fun s n hs _ => ⟨rfl, hs⟩
  | succ room ih =>
    intro s n hs hn
    have hway' : ∀ a ∈ way ++ [n], known a := by simpa [or_imp, forall_and] using ⟨hway, hn⟩
    have hmap : way.map f ++ [f n] = (way ++ [n]).map f := by simp
    have hmark : ∀ a ∈ n :: s.visited, known a := List.forall_mem_cons.mpr ⟨hn, hs⟩
    simp only [visit, hnext n hn, hmap]
    exact foldl_agree (look_agree hinj (ih hway') hway') (next n) (hclosed n hn) (s := ⟨n :: s.visited, s.cycles⟩) hmark

theorem search_map (room : Nat) (roots : List α) (hroots : ∀ n ∈ roots, known n) :
    search next' room (roots.map f) = (search next room roots).map f := by
  have hnil : ∀ a ∈ ([] : List α), known a := by simp
  rw [search_eq_foldl_look, search_eq_foldl_look]
  exact (foldl_agree (look_agree hinj (visit_agree hinj hnext hclosed room hnil) hnil) roots hroots
    (s := ⟨[], []⟩) hnil).1

end Map

end Found

namespace Graph

theorem Inv.dependencies_pathAt {g : Graph} (h : Inv g) {i : Nat} (hi : i < g.nodes.length) :
    g.dependencies (g.pathAt i) = (g.targets i).map g.pathAt := by
  simp [dependencies, h.index?_pathAt hi]

/-- The cycles of a graph are those that the recursive search along the dependencies finds, in the same order, with
    room for all nodes or more. -/
theorem cycles_eq_search (calls : List Call) (extra : Nat) :
    (after calls).cycles = (Found.search (after calls).dependencies ((after calls).nodes.length + extra)
      ((after calls).nodes.map (·.path))).cycles := by
  have h := inv_after calls
  generalize after calls = g at h
  have hinj : ∀ i j, i < g.nodes.length → j < g.nodes.length → g.pathAt i = g.pathAt j → i = j :=
    fun _ _ => h.pathAt_inj
  have hnext : ∀ i, i < g.nodes.length → g.dependencies (g.pathAt i) = (g.targets i).map g.pathAt :=
    fun _ => h.dependencies_pathAt
  have hclosed : ∀ i, i < g.nodes.length → ∀ j ∈ g.targets i, j < g.nodes.length :=
    fun i _ j hj => (h.links_lt (i, j) (mem_targets.mp hj)).2
  have hsearch := Found.search_map hinj hnext hclosed (g.nodes.length + extra) (List.range g.nodes.length)
    fun _ => List.mem_range.mp
  rw [map_path_eq, hsearch, ← Walk.walk_found h (Nat.le_add_right _ _)]
  rfl

end Graph

end LayerLint
