/-
  LayerLint.Proofs.Graph.Build: the graph of a list of units, told without the order of its making.

  `build` registers the units one by one and then looks up one import after another in a graph that
  grows. Nothing of that shows in the end:
  - A look-up sees only which paths are registered, and these are all there before the first one, so
    every import is resolved among the paths of all units (`Knows.resolve?_eq`, `build_eq_foldl`).
  - The nodes are the paths of the units, each at its first place and with the layer of the first unit
    that has it (`paths_build`, `node?_build`); the edges are the pairs that the imports ask for, each
    at its first place (`edges_build`).
  - So the order of the units decides nothing but the order of nodes and edges, and which layer a path
    gets that several units carry with different layers (`build_described`, `nodes_follow_order`).
-/

import LayerLint.Graph.Metrics
import LayerLint.Proofs.Graph.Store
import Mathlib.Data.List.Perm.Basic
import Mathlib.Order.Lattice

namespace LayerLint

namespace Graph

/-! ## What the units ask for -/

/-- The path among some that a specifier means in a file: the first candidate that is one of them. -/
def resolveAmong? (paths : List String) (file specifier : String) : Option String :=
  match target? file specifier with
  | some base => if base.isEmpty then none else (candidates base).find? paths.contains
  | none => none

def wantedBy (paths : List String) (u : SourceUnit) : List (String × String) :=
  u.imports.filterMap fun i => (resolveAmong? paths u.path i.specifier).map fun target => (u.path, target)

/-- The edges that the imports of some units ask for, unit by unit, each import resolved among the
    paths of all units. -/
def wanted (units : List SourceUnit) : List (String × String) :=
  units.flatMap (wantedBy (units.map (·.path)))

def Node.ofUnit (u : SourceUnit) : Node := ⟨u.path, u.layer⟩

theorem resolveAmong?_mem {paths : List String} {file specifier target : String}
    (h : resolveAmong? paths file specifier = some target) : target ∈ paths := by
  unfold resolveAmong? at h
  split at h
  · split at h
    · cases h
    · exact List.contains_iff_mem.mp (List.find?_some h)
  · cases h

/-- Only which paths there are counts, and not their order. -/
theorem resolveAmong?_congr {paths paths' : List String} (h : ∀ path, path ∈ paths' ↔ path ∈ paths) :
    resolveAmong? paths' = resolveAmong? paths := by
  have hc : paths'.contains = paths.contains := by
    funext path
    rw [Bool.eq_iff_iff, List.contains_iff_mem, List.contains_iff_mem, h]
  funext file specifier
  simp only [resolveAmong?, hc]

theorem mem_wantedBy {paths : List String} {u : SourceUnit} {e : String × String} :
    e ∈ wantedBy paths u ↔
      e.1 = u.path ∧ ∃ i ∈ u.imports, resolveAmong? paths u.path i.specifier = some e.2 := by
  simp only [wantedBy, List.mem_filterMap, Option.map_eq_some_iff]
  constructor
  · rintro ⟨i, hi, target, ht, rfl⟩
    exact ⟨rfl, i, hi, ht⟩
  · rintro ⟨he, i, hi, ht⟩
    exact ⟨i, hi, e.2, ht, Prod.ext he.symm rfl⟩

theorem mem_wanted_of_perm {units units' : List SourceUnit} (hp : units'.Perm units) (e : String × String) :
    e ∈ wanted units' ↔ e ∈ wanted units := by
  have hr : resolveAmong? (units'.map (·.path)) = resolveAmong? (units.map (·.path)) :=
    resolveAmong?_congr fun _ => (hp.map _).mem_iff
  simp only [wanted, List.mem_flatMap, mem_wantedBy, hr, hp.mem_iff]

/-! ## First places -/

/-- A list without its repetitions grows at its end, by what was not in it. -/
theorem eraseDups_snoc {α : Type} [BEq α] [LawfulBEq α] (l : List α) (a : α) :
    (l ++ [a]).eraseDups = if a ∈ l then l.eraseDups else l.eraseDups ++ [a] := by
  rw [List.eraseDups_append]
  by_cases h : a ∈ l
  · simp [List.removeAll, h]
  · simp [List.removeAll, h, List.eraseDups_cons]

theorem eraseDups_sublist {α : Type} [BEq α] [LawfulBEq α] (l : List α) : l.eraseDups.Sublist l := by
  induction l using List.reverseRecOn with
  | nil => exact List.Sublist.refl _
  | append_singleton l a ih =>
    rw [eraseDups_snoc]
    by_cases ha : a ∈ l
    · rw [if_pos ha]
      exact ih.trans (List.sublist_append_left l [a])
    · rw [if_neg ha]
      exact ih.append (List.Sublist.refl [a])

theorem eraseDups_of_nodup {α : Type} [BEq α] [LawfulBEq α] {l : List α} (h : l.Nodup) : l.eraseDups = l := by
  induction l using List.reverseRecOn with
  | nil => rfl
  | append_singleton l a ih =>
    obtain ⟨hl, -, hdisjoint⟩ := List.nodup_append.mp h
    have ha : a ∉ l := fun ha => hdisjoint a ha a (List.mem_singleton_self a) rfl
    rw [eraseDups_snoc, if_neg ha, ih hl]

/-! ## Registering the units -/

theorem ofFiles_snoc (units : List SourceUnit) (u : SourceUnit) :
    ofFiles (units ++ [u]) = ((ofFiles units).registerUnit u).1 := by
  simp [ofFiles, List.foldl_append]

theorem inv_ofFiles (units : List SourceUnit) : Inv (ofFiles units) := by
  induction units using List.reverseRecOn with
  | nil => exact inv_empty
  | append_singleton units u ih =>
    rw [ofFiles_snoc]
    exact inv_effect ih (call_effect _ (.registerUnit u))

theorem links_ofFiles (units : List SourceUnit) : (ofFiles units).links = [] := by
  induction units using List.reverseRecOn with
  | nil => rfl
  | append_singleton units u ih =>
    rw [ofFiles_snoc, registerUnit, register]
    split <;> exact ih

theorem Inv.contains_iff {g : Graph} (h : Inv g) (path : String) :
    g.contains path = true ↔ path ∈ g.nodes.map (·.path) := by
  rw [contains, Option.isSome_iff_exists, map_path_eq, List.mem_map]
  refine exists_congr fun i => ?_
  rw [h.index, List.mem_range]

theorem nodes_registerUnit (g : Graph) (u : SourceUnit) :
    (g.registerUnit u).1.nodes = if g.contains u.path then g.nodes else g.nodes ++ [.ofUnit u] := by
  cases hi : g.index? u.path with
  | some i => simp [registerUnit, register, contains, hi]
  | none => simp [registerUnit, register, contains, hi, Node.ofUnit]

theorem paths_ofFiles (units : List SourceUnit) :
    (ofFiles units).nodes.map (·.path) = (units.map (·.path)).eraseDups := by
  induction units using List.reverseRecOn with
  | nil => rfl
  | append_singleton units u ih =>
    have hmem : (ofFiles units).contains u.path = true ↔ u.path ∈ units.map (·.path) := by
      rw [(inv_ofFiles units).contains_iff, ih, List.mem_eraseDups]
    rw [ofFiles_snoc, nodes_registerUnit, List.map_append, List.map_singleton, eraseDups_snoc, ← ih]
    by_cases hc : (ofFiles units).contains u.path = true
    · rw [if_pos hc, if_pos (hmem.mp hc)]
    · rw [if_neg hc, if_neg (mt hmem.mpr hc), List.map_append]
      rfl

def Knows (g : Graph) (paths : List String) : Prop := ∀ path, g.contains path = paths.contains path

theorem knows_ofFiles (units : List SourceUnit) : (ofFiles units).Knows (units.map (·.path)) := by
  intro path
  rw [Bool.eq_iff_iff, (inv_ofFiles units).contains_iff, paths_ofFiles, List.mem_eraseDups, List.contains_iff_mem]

/-- A unit whose path is known leaves the node that the first unit with that path made. -/
theorem Inv.node?_registerUnit {g : Graph} (h : Inv g) (u : SourceUnit) (path : String) :
    (g.registerUnit u).1.node? path = (g.node? path).or (if u.path == path then some (.ofUnit u) else none) := by
  cases hi : g.index? u.path with
  | some i =>
    have hg : (g.registerUnit u).1 = g := by simp [registerUnit, register, hi]
    rw [hg]
    by_cases e : u.path = path
    · subst e
      have hlt := ((h.index _ _).mp hi).1
      simp [node?, hi, hlt]
    · simp [e]
  | none =>
    have hg : (g.registerUnit u).1 = ⟨g.nodes ++ [.ofUnit u], (u.path, g.nodes.length) :: g.index, g.links⟩ := by
      simp [registerUnit, register, hi, Node.ofUnit]
    rw [hg]
    by_cases e : u.path = path
    · subst e
      have hnone : g.node? u.path = none := by simp [node?, hi]
      rw [hnone, beq_self_eq_true, if_pos rfl, Option.none_or]
      simp [node?, index?, List.lookup_cons_self]
    · have hlook : List.lookup path ((u.path, g.nodes.length) :: g.index) = g.index.lookup path := by
        simp only [List.lookup_cons, beq_eq_false_iff_ne.mpr (Ne.symm e)]
      simp only [node?, index?, hlook, beq_eq_false_iff_ne.mpr e, Bool.false_eq_true, if_false, Option.or_none]
      cases hp : g.index.lookup path with
      | none => rfl
      | some i => exact List.getElem?_append_left ((h.index _ _).mp hp).1

theorem node?_ofFiles (units : List SourceUnit) (path : String) :
    (ofFiles units).node? path = (units.find? (·.path == path)).map .ofUnit := by
  induction units using List.reverseRecOn with
  | nil => rfl
  | append_singleton units u ih =>
    rw [ofFiles_snoc, (inv_ofFiles units).node?_registerUnit, ih, List.find?_append, Option.map_or]
    by_cases e : u.path = path
    · simp [e]
    · simp [e]

theorem Inv.mem_nodes {g : Graph} (h : Inv g) (n : Node) : n ∈ g.nodes ↔ g.node? n.path = some n := by
  rw [List.mem_iff_getElem?]
  constructor
  · rintro ⟨i, hi⟩
    have hlt := (List.getElem?_eq_some_iff.mp hi).1
    have hx := h.index?_pathAt hlt
    rw [pathAt_of_getElem? hi] at hx
    simp [node?, hx, hi]
  · intro hn
    obtain ⟨i, -, hi⟩ := Option.bind_eq_some_iff.mp hn
    exact ⟨i, hi⟩

/-! ## Connecting -/

def join (g : Graph) (e : String × String) : Graph := (g.connect e.1 e.2).1

theorem inv_join {g : Graph} (h : Inv g) (e : String × String) : Inv (g.join e) :=
  inv_effect h (call_effect g (.connect e.1 e.2))

/-- An edge changes no path and no node. -/
theorem join_nodes (g : Graph) (e : String × String) :
    (g.join e).nodes = g.nodes ∧ (g.join e).index = g.index := by
  unfold join connect
  split
  · split <;> exact ⟨rfl, rfl⟩
  · exact ⟨rfl, rfl⟩

theorem foldl_join_nodes (g : Graph) (es : List (String × String)) :
    (es.foldl join g).nodes = g.nodes ∧ (es.foldl join g).index = g.index := by
  induction es generalizing g with
  | nil => exact ⟨rfl, rfl⟩
  | cons e es ih =>
    obtain ⟨hn, hi⟩ := join_nodes g e
    obtain ⟨hn', hi'⟩ := ih (g.join e)
    exact ⟨hn'.trans hn, hi'.trans hi⟩

theorem contains_foldl_join (g : Graph) (es : List (String × String)) (path : String) :
    (es.foldl join g).contains path = g.contains path := by
  simp only [contains, index?, (foldl_join_nodes g es).2]

theorem Knows.foldl_join {g : Graph} {paths : List String} (h : g.Knows paths) (es : List (String × String)) :
    (es.foldl join g).Knows paths :=
  fun path => (contains_foldl_join g es path).trans (h path)

theorem Inv.mem_links_iff {g : Graph} (h : Inv g) {a b : String} {i j : Nat} (ha : g.index? a = some i)
    (hb : g.index? b = some j) : (i, j) ∈ g.links ↔ (a, b) ∈ g.edges := by
  obtain ⟨hi, rfl⟩ := (h.index _ _).mp ha
  obtain ⟨hj, rfl⟩ := (h.index _ _).mp hb
  rw [mem_edges]
  constructor
  · intro hl
    exact ⟨i, j, hl, rfl, rfl⟩
  · rintro ⟨i', j', hl, ei, ej⟩
    obtain ⟨hi', hj'⟩ := h.links_lt _ hl
    obtain rfl := h.pathAt_inj hi' hi ei
    obtain rfl := h.pathAt_inj hj' hj ej
    exact hl

theorem Inv.edges_join {g : Graph} (h : Inv g) {e : String × String} (ha : g.contains e.1 = true)
    (hb : g.contains e.2 = true) : (g.join e).edges = if e ∈ g.edges then g.edges else g.edges ++ [e] := by
  obtain ⟨i, hi⟩ := Option.isSome_iff_exists.mp ha
  obtain ⟨j, hj⟩ := Option.isSome_iff_exists.mp hb
  have hmem : (i, j) ∈ g.links ↔ e ∈ g.edges := h.mem_links_iff hi hj
  by_cases hl : (i, j) ∈ g.links
  · simp [join, connect, hi, hj, hl, hmem.mp hl]
  · have hnew : g.join e = ⟨g.nodes, g.index, g.links ++ [(i, j)]⟩ := by simp [join, connect, hi, hj, hl]
    have he : (g.pathAt i, g.pathAt j) = e :=
      Prod.ext ((h.index _ _).mp hi).2 ((h.index _ _).mp hj).2
    rw [if_neg (mt hmem.mpr hl), hnew, ← he]
    exact List.map_append

/-- Connecting the pairs of a list one by one leaves each of them once, at its first place. -/
theorem edges_foldl_join {g : Graph} (h : Inv g) (hl : g.links = []) (es : List (String × String))
    (hes : ∀ e ∈ es, g.contains e.1 = true ∧ g.contains e.2 = true) :
    Inv (es.foldl join g) ∧ (es.foldl join g).edges = es.eraseDups := by
  -- from the end of the list: its last pair meets the edges of all pairs before it
  induction es using List.reverseRecOn with
  | nil => exact ⟨h, by simp [edges, hl]⟩
  | append_singleton es e ih =>
    obtain ⟨hinv, hedges⟩ := ih fun e' he' => hes e' (List.mem_append_left _ he')
    obtain ⟨ha, hb⟩ := hes e (by simp)
    rw [← contains_foldl_join g es] at ha hb
    rw [List.foldl_append, List.foldl_cons, List.foldl_nil]
    refine ⟨inv_join hinv e, ?_⟩
    rw [hinv.edges_join ha hb, hedges, eraseDups_snoc]
    simp only [List.mem_eraseDups]

/-! ## The graph of the units -/

/-- A look-up asks only which paths are registered. -/
theorem Knows.resolve?_eq {g : Graph} {paths : List String} (h : g.Knows paths) (file specifier : String) :
    g.resolve? file specifier = resolveAmong? paths file specifier := by
  have hc : g.contains = paths.contains := funext h
  unfold resolve? resolveAmong?
  cases target? file specifier with
  | none => rfl
  | some base => exact congrArg (fun known => if base.isEmpty then none else (candidates base).find? known) hc

/-- The imports of a unit are resolved as if all were looked up before the first edge is added. -/
theorem Knows.addImports_eq {g : Graph} {paths : List String} (h : g.Knows paths) (u : SourceUnit) :
    g.addImports u = (wantedBy paths u).foldl join g := by
  unfold addImports wantedBy
  induction u.imports generalizing g with
  | nil => rfl
  | cons i imports ih =>
    rw [List.foldl_cons, addImport, h.resolve?_eq, List.filterMap_cons]
    cases resolveAmong? paths u.path i.specifier with
    | none => exact ih h
    | some target => exact ih (h.foldl_join [(u.path, target)])

theorem Knows.foldl_addImports_eq {g : Graph} {paths : List String} (h : g.Knows paths) (units : List SourceUnit) :
    units.foldl addImports g = (units.flatMap (wantedBy paths)).foldl join g := by
  induction units generalizing g with
  | nil => rfl
  | cons u units ih =>
    rw [List.foldl_cons, h.addImports_eq, List.flatMap_cons, List.foldl_append]
    exact ih (h.foldl_join _)

theorem build_eq_foldl (units : List SourceUnit) : build units = (wanted units).foldl join (ofFiles units) :=
  (knows_ofFiles units).foldl_addImports_eq units

theorem wanted_contained {units : List SourceUnit} {e : String × String} (h : e ∈ wanted units) :
    (ofFiles units).contains e.1 = true ∧ (ofFiles units).contains e.2 = true := by
  obtain ⟨u, hu, hw⟩ := List.mem_flatMap.mp h
  obtain ⟨he, i, -, hr⟩ := mem_wantedBy.mp hw
  rw [knows_ofFiles, knows_ofFiles, List.contains_iff_mem, List.contains_iff_mem, he]
  exact ⟨List.mem_map_of_mem hu, resolveAmong?_mem hr⟩

theorem inv_build (units : List SourceUnit) : Inv (build units) := by
  obtain ⟨calls, h⟩ := build_eq_after units
  rw [h]
  exact inv_after calls

theorem edges_build (units : List SourceUnit) : (build units).edges = (wanted units).eraseDups := by
  rw [build_eq_foldl]
  exact (edges_foldl_join (inv_ofFiles units) (links_ofFiles units) _ fun _ => wanted_contained).2

theorem paths_build (units : List SourceUnit) :
    (build units).nodes.map (·.path) = (units.map (·.path)).eraseDups := by
  rw [build_eq_foldl, (foldl_join_nodes _ _).1, paths_ofFiles]

theorem node?_build (units : List SourceUnit) (path : String) :
    (build units).node? path = (units.find? (·.path == path)).map .ofUnit := by
  obtain ⟨hn, hi⟩ := foldl_join_nodes (ofFiles units) (wanted units)
  rw [← node?_ofFiles, build_eq_foldl]
  simp only [node?, index?, hn, hi]

/-! ## Units in another order -/

def LayersAgree (units : List SourceUnit) : Prop :=
  ∀ u ∈ units, ∀ v ∈ units, u.path = v.path → u.layer = v.layer

instance (units : List SourceUnit) : Decidable (LayersAgree units) :=
  inferInstanceAs (Decidable (∀ u ∈ units, ∀ v ∈ units, u.path = v.path → u.layer = v.layer))

theorem LayersAgree.mem_nodes {units : List SourceUnit} (h : LayersAgree units) (n : Node) :
    n ∈ (build units).nodes ↔ ∃ u ∈ units, n = .ofUnit u := by
  rw [(inv_build units).mem_nodes, node?_build, Option.map_eq_some_iff]
  constructor
  · rintro ⟨u, hf, rfl⟩
    exact ⟨u, List.mem_of_find?_eq_some hf, rfl⟩
  · rintro ⟨u, hu, rfl⟩
    -- the node is made of the first unit with this path, which may be another one than `u`
    obtain ⟨v, hv⟩ : ∃ v, units.find? (·.path == u.path) = some v := by
      rw [← Option.isSome_iff_exists, List.find?_isSome]
      exact ⟨u, hu, by simp⟩
    have hp : v.path = u.path := by simpa using List.find?_some hv
    refine ⟨v, hv, ?_⟩
    rw [Node.ofUnit, Node.ofUnit, hp, h v (List.mem_of_find?_eq_some hv) u hu hp]

/-- The number of files that a node imports, counted in the edges. -/
theorem Inv.outDegree_eq {g : Graph} (h : Inv g) {i : Nat} (hi : i < g.nodes.length) :
    g.outDegree i = g.edges.countP fun e => e.1 == g.pathAt i := by
  rw [outDegree, targets, List.length_map, ← List.countP_eq_length_filter, edges, List.countP_map]
  refine List.countP_congr fun l hl => ?_
  have hl1 := (h.links_lt l hl).1
  simp only [beq_iff_eq, Function.comp_apply]
  constructor
  · rintro rfl
    rfl
  · exact h.pathAt_inj hl1 hi

theorem Inv.maxOutDegree_eq {g : Graph} (h : Inv g) :
    g.maxOutDegree =
      ((g.nodes.map (·.path)).map fun path => g.edges.countP fun e => e.1 == path).foldl max 0 := by
  rw [maxOutDegree, map_path_eq, List.map_map]
  congr 1
  refine List.map_congr_left fun i hi => ?_
  exact h.outDegree_eq (List.mem_range.mp hi)

/-- The same paths and the same edges, and so the same numbers. -/
structure SameShape (g g' : Graph) : Prop where
  paths : ∀ path, path ∈ g.nodes.map (·.path) ↔ path ∈ g'.nodes.map (·.path)
  edges : ∀ e, e ∈ g.edges ↔ e ∈ g'.edges
  metrics : g.metrics = g'.metrics

/-- The numbers of a graph are those of its set of paths and its set of edges. -/
theorem Inv.metrics_eq {g g' : Graph} (h : Inv g) (h' : Inv g')
    (hp : ∀ path, path ∈ g.nodes.map (·.path) ↔ path ∈ g'.nodes.map (·.path))
    (he : ∀ e, e ∈ g.edges ↔ e ∈ g'.edges) : g.metrics = g'.metrics := by
  have paths : (g.nodes.map (·.path)).Perm (g'.nodes.map (·.path)) :=
    (List.perm_ext_iff_of_nodup h.paths_nodup h'.paths_nodup).mpr hp
  have edges : g.edges.Perm g'.edges := (List.perm_ext_iff_of_nodup h.edges_nodup h'.edges_nodup).mpr he
  have hnodes : g.nodes.length = g'.nodes.length := by simpa using paths.length_eq
  have hlinks : g.links.length = g'.links.length := by simpa [Graph.edges] using edges.length_eq
  have hmax : g.maxOutDegree = g'.maxOutDegree := by
    rw [h.maxOutDegree_eq, h'.maxOutDegree_eq]
    have hcount : ∀ path, (g.edges.countP fun e => e.1 == path) = g'.edges.countP fun e => e.1 == path :=
      fun path => edges.countP_eq _
    simp only [hcount]
    exact (paths.map _).foldl_eq 0
  simp only [metrics, hnodes, hlinks, hmax]

theorem sameShape_of_perm {units units' : List SourceUnit} (hp : units'.Perm units) :
    SameShape (build units') (build units) := by
  have hpaths : ∀ path, path ∈ (build units').nodes.map (·.path) ↔ path ∈ (build units).nodes.map (·.path) := by
    intro path
    rw [paths_build, paths_build, List.mem_eraseDups, List.mem_eraseDups, (hp.map _).mem_iff]
  have hedges : ∀ e, e ∈ (build units').edges ↔ e ∈ (build units).edges := by
    intro e
    rw [edges_build, edges_build, List.mem_eraseDups, List.mem_eraseDups, mem_wanted_of_perm hp]
  exact ⟨hpaths, hedges, (inv_build units').metrics_eq (inv_build units) hpaths hedges⟩

/-- The edges are the pairs that the imports ask for, each at its first place, and a path has the layer
    of the first unit that carries it. Units in another order give the same paths, edges and numbers,
    and the same nodes if units with one path are in one layer. -/
theorem build_described (units : List SourceUnit) :
    (build units).edges = (wanted units).eraseDups ∧
      (∀ path, (build units).node? path = (units.find? (·.path == path)).map .ofUnit) ∧
      ∀ units', units'.Perm units →
        SameShape (build units') (build units) ∧
          (LayersAgree units → ∀ n, n ∈ (build units').nodes ↔ n ∈ (build units).nodes) := by
  refine ⟨edges_build units, node?_build units, fun units' hp => ⟨sameShape_of_perm hp, fun h n => ?_⟩⟩
  have h' : LayersAgree units' := fun u hu v hv => h u (hp.mem_iff.mp hu) v (hp.mem_iff.mp hv)
  rw [h'.mem_nodes, h.mem_nodes]
  simp only [hp.mem_iff]

def importing (path : String) (layer : Option Layer) (specifiers : List String) : SourceUnit :=
  ⟨path, "", specifiers.map fun s => ⟨s, 1⟩, [], layer, 0⟩

def twins : List SourceUnit :=
  [importing "a.ts" none ["./b", "./b.ts"], importing "b.ts" none ["./a"], importing "a.ts" none ["./c", "./b"]]

theorem build_described_twins :
    twins.reverse.Perm twins ∧ LayersAgree twins ∧ (build twins).edges = [("a.ts", "b.ts"), ("b.ts", "a.ts")] ∧
      SameShape (build twins.reverse) (build twins) ∧
      ∀ n, n ∈ (build twins.reverse).nodes ↔ n ∈ (build twins).nodes := by
  obtain ⟨hedges, -, hperm⟩ := build_described twins
  have hp : twins.reverse.Perm twins := twins.reverse_perm
  have hl : LayersAgree twins := by decide
  have hw : (wanted twins).eraseDups = [("a.ts", "b.ts"), ("b.ts", "a.ts")] := by decide
  exact ⟨hp, hl, hedges.trans hw, (hperm _ hp).1, (hperm _ hp).2 hl⟩

/-- One path in two layers: its node is in the layer that comes first. -/
theorem nodes_follow_order :
    [importing "a.ts" (some .shared) [], importing "a.ts" (some .domain) []].Perm
        [importing "a.ts" (some .domain) [], importing "a.ts" (some .shared) []] ∧
      ⟨"a.ts", some .domain⟩ ∈
        (build [importing "a.ts" (some .domain) [], importing "a.ts" (some .shared) []]).nodes ∧
      ⟨"a.ts", some .domain⟩ ∉
        (build [importing "a.ts" (some .shared) [], importing "a.ts" (some .domain) []]).nodes :=
  ⟨List.Perm.swap _ _ _, by decide, by decide⟩

end Graph

end LayerLint
