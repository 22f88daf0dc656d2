/-
  LayerLint.Proofs.Graph.Views: the edges of a graph, seen from its paths.

  What a path imports and what imports it are found among the links at its number. Whatever calls filled the graph,
  these are the edges that start at the path and those that end there, in the order of all edges, and it does not
  matter in which order the links at a node are kept, since they are sorted by their numbers (`targets_of_perm`). A
  graph and its mirror, in which all links are turned round, have the two views exchanged, so one of them is proved.

  A document lists what each node imports, node by node (`listed?_toJson`). Together these lists hold every edge once
  (`listing_perm`), and in the order of the edges if the graph was built from units with different paths
  (`listing_build`): then all edges of a unit were added before those of the next one. `after_views_agree` says all this
  of any graph.
-/

import LayerLint.Proofs.Graph.Build
import LayerLint.Proofs.Json.Records
import LayerLint.Proofs.Sorting

namespace LayerLint

namespace Graph

/-! ## Links at a node -/

def byNumber (ls : List ((Nat × Nat) × Nat)) : List ((Nat × Nat) × Nat) :=
  ls.mergeSort fun k l => decide (k.2 ≤ l.2)

theorem zipIdx_pairwise (links : List (Nat × Nat)) : links.zipIdx.Pairwise fun k l => k.2 < l.2 := by
  have hnumbers : (links.zipIdx.map Prod.snd).Pairwise (· < ·) := by
    rw [List.zipIdx_map_snd]
    exact List.pairwise_lt_range'
  exact List.pairwise_map.mp hnumbers

/-- Links that are picked and put in any order are, sorted by number, in the order they were added. -/
theorem byNumber_of_perm {links : List (Nat × Nat)} {p : Nat × Nat → Bool} {ls : List ((Nat × Nat) × Nat)}
    (h : ls.Perm (links.zipIdx.filter fun l => p l.1)) : (byNumber ls).map (·.1) = links.filter p := by
  have hsorted : byNumber ls = links.zipIdx.filter fun l => p l.1 := by
    have hperm := (List.mergeSort_perm ls fun k l => decide (k.2 ≤ l.2)).trans h
    refine hperm.eq_of_pairwise ?_ (Sorting.pairwise_mergeSort (·.2) ls)
      (((zipIdx_pairwise links).filter _).imp Nat.le_of_lt)
    intro k l hk hl hkl hlk
    have hk' := List.mem_zipIdx_iff_getElem?.mp (List.mem_filter.mp (hperm.mem_iff.mp hk)).1
    have hl' := List.mem_zipIdx_iff_getElem?.mp (List.mem_filter.mp hl).1
    have hn : k.2 = l.2 := Nat.le_antisymm hkl hlk
    rw [hn, hl', Option.some.injEq] at hk'
    exact Prod.ext hk'.symm hn
  calc (byNumber ls).map (·.1) = (links.zipIdx.map Prod.fst).filter p := by
        rw [hsorted, List.filter_map]
        rfl
    _ = links.filter p := by rw [List.zipIdx_map_fst]

variable {g : Graph}

theorem targets_of_perm {i : Nat} {ls : List ((Nat × Nat) × Nat)}
    (h : ls.Perm (g.links.zipIdx.filter fun l => l.1.1 == i)) : (byNumber ls).map (·.1.2) = g.targets i := by
  rw [targets, ← byNumber_of_perm h, List.map_map]
  rfl

theorem sources_of_perm {i : Nat} {ls : List ((Nat × Nat) × Nat)}
    (h : ls.Perm (g.links.zipIdx.filter fun l => l.1.2 == i)) : (byNumber ls).map (·.1.1) = g.sources i := by
  rw [sources, ← byNumber_of_perm h, List.map_map]
  rfl

/-! ## The mirror -/

/-- The graph with all links turned round. -/
def mirror (g : Graph) : Graph := { g with links := g.links.map Prod.swap }

theorem Inv.mirror (h : Inv g) : Inv g.mirror := by
  refine ⟨h.index, h.links_nodup.map Prod.swap_injective, ?_⟩
  intro l hl
  obtain ⟨k, hk, rfl⟩ := List.mem_map.mp hl
  exact (h.links_lt k hk).symm

theorem edges_mirror (g : Graph) : g.mirror.edges = g.edges.map Prod.swap := by
  rw [edges, edges, mirror, List.map_map, List.map_map]
  rfl

theorem dependencies_mirror (g : Graph) (path : String) : g.mirror.dependencies path = g.dependents path := by
  have htargets : ∀ i, g.mirror.targets i = g.sources i := by
    intro i
    rw [targets, sources, mirror, List.filter_map, List.map_map]
    rfl
  unfold dependencies dependents
  cases hi : g.index? path with
  | none => rw [show g.mirror.index? path = none from hi]
  | some i =>
    rw [show g.mirror.index? path = some i from hi]
    exact congrArg (List.map g.pathAt) (htargets i)

/-! ## What a path imports and what imports it -/

theorem Inv.dependencies_eq (h : Inv g) (path : String) :
    g.dependencies path = (g.edges.filter fun e => e.1 = path).map (·.2) := by
  unfold dependencies
  cases hi : g.index? path with
  | none =>
    have hnone : (g.edges.filter fun e => e.1 = path) = [] := by
      rw [List.filter_eq_nil_iff]
      intro e he hp
      have hc := (h.consistent.edges_registered e he).1
      rw [of_decide_eq_true hp, contains, hi] at hc
      cases hc
    rw [hnone, List.map_nil]
  | some i =>
    obtain ⟨hlt, hpath⟩ := (h.index _ _).mp hi
    -- a path stands for one number only, so comparing paths is comparing numbers
    have hsame : (g.links.filter fun l => l.1 == i) = g.links.filter fun l => g.pathAt l.1 = path := by
      refine List.filter_congr fun l hl => ?_
      rw [Bool.eq_iff_iff, beq_iff_eq, decide_eq_true_iff, ← hpath]
      exact ⟨congrArg g.pathAt, h.pathAt_inj (h.links_lt l hl).1 hlt⟩
    rw [edges, List.filter_map, List.map_map]
    show ((g.links.filter fun l => l.1 == i).map (·.2)).map g.pathAt = _
    rw [List.map_map, hsame]
    rfl

theorem Inv.dependents_eq (h : Inv g) (path : String) :
    g.dependents path = (g.edges.filter fun e => e.2 = path).map (·.1) := by
  rw [← dependencies_mirror, h.mirror.dependencies_eq, edges_mirror, List.filter_map, List.map_map]
  rfl

theorem Inv.dependencies_nodup (h : Inv g) (path : String) : (g.dependencies path).Nodup := by
  rw [h.dependencies_eq]
  refine List.Nodup.map_on ?_ (h.edges_nodup.filter _)
  intro e he e' he' heq
  have hp := of_decide_eq_true (List.mem_filter.mp he).2
  have hp' := of_decide_eq_true (List.mem_filter.mp he').2
  exact Prod.ext (hp.trans hp'.symm) heq

theorem Inv.dependents_nodup (h : Inv g) (path : String) : (g.dependents path).Nodup := by
  rw [← dependencies_mirror]
  exact h.mirror.dependencies_nodup path

theorem Inv.mem_dependencies (h : Inv g) {a b : String} : b ∈ g.dependencies a ↔ (a, b) ∈ g.edges := by
  rw [h.dependencies_eq]
  simp

theorem Inv.mem_dependents (h : Inv g) {a b : String} : a ∈ g.dependents b ↔ (a, b) ∈ g.edges := by
  rw [h.dependents_eq]
  simp

/-! ## The list of the nodes -/

def listing (g : Graph) : List (String × String) :=
  g.nodes.flatMap fun n => (g.dependencies n.path).map (n.path, ·)

theorem Inv.listing_eq (h : Inv g) :
    g.listing = (g.nodes.map (·.path)).flatMap fun path => g.edges.filter fun e => e.1 = path := by
  rw [listing, List.flatMap_map]
  refine List.flatMap_congr fun n _ => ?_
  rw [h.dependencies_eq, List.map_map]
  refine (List.map_congr_left fun e he => ?_).trans (List.map_id _)
  exact Prod.ext (of_decide_eq_true (List.mem_filter.mp he).2).symm rfl

/-- The nodes list every edge once. -/
theorem Inv.listing_perm (h : Inv g) : g.listing.Perm g.edges := by
  rw [h.listing_eq]
  refine Sorting.flatMap_filter_perm h.paths_nodup g.edges fun e he => ?_
  exact (h.contains_iff e.1).mp (h.consistent.edges_registered e he).1

theorem idxOf_pairwise {l : List String} (h : l.Nodup) : l.Pairwise fun a b => l.idxOf a < l.idxOf b := by
  rw [List.pairwise_iff_getElem]
  intro i j hi hj hij
  rwa [h.idxOf_getElem i hi, h.idxOf_getElem j hj]

/-- All edges that a unit asks for come before those that the next one asks for. -/
theorem wanted_pairwise {units : List SourceUnit} {place : String → Nat}
    (h : (units.map (·.path)).Pairwise fun a b => place a < place b) :
    (wanted units).Pairwise fun d e => place d.1 ≤ place e.1 := by
  refine List.pairwise_flatMap.mpr ⟨?_, (List.pairwise_map.mp h).imp ?_⟩
  · intro u _
    refine List.pairwise_of_forall_mem_list fun d hd e he => ?_
    rw [(mem_wantedBy.mp hd).1, (mem_wantedBy.mp he).1]
  · intro u v huv d hd e he
    rw [(mem_wantedBy.mp hd).1, (mem_wantedBy.mp he).1]
    exact Nat.le_of_lt huv

/-- With different paths the nodes are in the order of the units, and so are the edges. -/
theorem listing_build {units : List SourceUnit} (h : (units.map (·.path)).Nodup) :
    (build units).listing = (build units).edges := by
  have hpaths : (build units).nodes.map (·.path) = units.map (·.path) := by
    rw [paths_build, eraseDups_of_nodup h]
  have hplaces := idxOf_pairwise h
  have hedges : (build units).edges.Pairwise
      fun d e => (units.map (·.path)).idxOf d.1 ≤ (units.map (·.path)).idxOf e.1 := by
    rw [edges_build]
    exact (wanted_pairwise hplaces).sublist (eraseDups_sublist _)
  have hknown : ∀ e ∈ (build units).edges, e.1 ∈ units.map (·.path) := by
    intro e he
    rw [← hpaths, ← (inv_build units).contains_iff]
    exact ((inv_build units).consistent.edges_registered e he).1
  rw [(inv_build units).listing_eq, hpaths]
  exact (Sorting.eq_flatMap_filter hplaces hedges hknown).symm

/-! ## The document -/

def nodeEdges? (node : Json) : Option (List (String × String)) := do
  let path ← node.get? "path" >>= Json.str?
  let targets ← node.get? "dependencies" >>= Json.strings?
  pure (targets.map (path, ·))

def listed? (document : Json) : Option (List (String × String)) :=
  (Json.list? nodeEdges? document).map List.flatten

theorem listed?_toJson (g : Graph) : listed? g.toJson = some g.listing := by
  have hnode : ∀ n ∈ g.nodes, nodeEdges? (.obj [("path", .str n.path), ("layer", Layer.optionJson n.layer),
      ("dependencies", .strings (g.dependencies n.path))]) = some ((g.dependencies n.path).map (n.path, ·)) := by
    intro n _
    simp [nodeEdges?, Json.get?, Json.str?, Json.strings?_strings]
  rw [listed?, toJson, Json.list?, Json.mapM_map_eq hnode, Option.map_some, listing, List.flatMap_def]

/-! ## All views -/

/-- What the paths import and what imports them are the edges at them, in the order of all edges and without
    repetitions, however the links at a node are kept; and the nodes of the document list each edge once. -/
structure ViewsAgree (g : Graph) : Prop where
  dependencies : ∀ path, g.dependencies path = (g.edges.filter fun e => e.1 = path).map (·.2)
  dependents : ∀ path, g.dependents path = (g.edges.filter fun e => e.2 = path).map (·.1)
  dependencies_nodup : ∀ path, (g.dependencies path).Nodup
  dependents_nodup : ∀ path, (g.dependents path).Nodup
  mem_iff : ∀ a b, b ∈ g.dependencies a ↔ a ∈ g.dependents b
  dependencies_of_perm : ∀ path i, g.index? path = some i → ∀ ls,
    ls.Perm (g.links.zipIdx.filter fun l => l.1.1 == i) →
      g.dependencies path = (byNumber ls).map fun l => g.pathAt l.1.2
  dependents_of_perm : ∀ path i, g.index? path = some i → ∀ ls,
    ls.Perm (g.links.zipIdx.filter fun l => l.1.2 == i) →
      g.dependents path = (byNumber ls).map fun l => g.pathAt l.1.1
  listed : ∃ es, listed? g.toJson = some es ∧ es.Perm g.edges

theorem Inv.viewsAgree (h : Inv g) : ViewsAgree g where
  dependencies := h.dependencies_eq
  dependents := h.dependents_eq
  dependencies_nodup := h.dependencies_nodup
  dependents_nodup := h.dependents_nodup
  mem_iff a b := h.mem_dependencies.trans h.mem_dependents.symm
  dependencies_of_perm path i hi ls hls := by
    simp only [Graph.dependencies, hi, ← targets_of_perm hls, List.map_map]
    rfl
  dependents_of_perm path i hi ls hls := by
    simp only [Graph.dependents, hi, ← sources_of_perm hls, List.map_map]
    rfl
  listed := ⟨g.listing, listed?_toJson g, h.listing_perm⟩

/-- Whatever calls filled a graph, its views agree. If it was built from units with different paths, the lists of its
    nodes, one behind the other, are its edges in their order. -/
theorem after_views_agree (calls : List Call) (units : List SourceUnit) :
    ViewsAgree (after calls) ∧ ViewsAgree (build units) ∧
      ((units.map (·.path)).Nodup → listed? (build units).toJson = some (build units).edges) := by
  refine ⟨(inv_after calls).viewsAgree, (inv_build units).viewsAgree, fun h => ?_⟩
  rw [listed?_toJson, listing_build h]

def selfLoop : List Call :=
  [.register "a.ts" none, .register "b.ts" none, .connect "b.ts" "a.ts", .connect "a.ts" "b.ts", .connect "a.ts" "a.ts",
    .connect "a.ts" "b.ts"]

def hooked : List SourceUnit :=
  [importing "a.ts" none ["./c", "./b"], importing "b.ts" none ["./a", "./b", "./c"], importing "c.ts" none ["./b"]]

theorem after_views_agree_hooked :
    (after selfLoop).dependencies "a.ts" = ["b.ts", "a.ts"] ∧ (after selfLoop).dependents "a.ts" = ["b.ts", "a.ts"] ∧
      (hooked.map (·.path)).Nodup ∧
      listed? (build hooked).toJson = some [("a.ts", "c.ts"), ("a.ts", "b.ts"), ("b.ts", "a.ts"), ("b.ts", "b.ts"),
        ("b.ts", "c.ts"), ("c.ts", "b.ts")] := by
  obtain ⟨hviews, -, hlisted⟩ := after_views_agree selfLoop hooked
  have hloop : (after selfLoop).edges = [("b.ts", "a.ts"), ("a.ts", "b.ts"), ("a.ts", "a.ts")] := by decide
  have hpaths : (hooked.map (·.path)).Nodup := by decide
  have hedges : (build hooked).edges = [("a.ts", "c.ts"), ("a.ts", "b.ts"), ("b.ts", "a.ts"), ("b.ts", "b.ts"),
      ("b.ts", "c.ts"), ("c.ts", "b.ts")] := by decide
  refine ⟨?_, ?_, hpaths, ?_⟩
  · rw [hviews.dependencies, hloop]
    decide
  · rw [hviews.dependents, hloop]
    decide
  · rw [hlisted hpaths, hedges]

/-- A path that comes again gets edges behind those of others, which its node lists first. -/
example : (build twins).listing = (build twins).edges ∧
    (build (twins ++ [importing "a.ts" none ["./a"]])).listing ≠
      (build (twins ++ [importing "a.ts" none ["./a"]])).edges := by decide

end Graph

end LayerLint
