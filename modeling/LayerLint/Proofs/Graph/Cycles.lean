/-
  LayerLint.Proofs.Graph.Cycles: every list the walk reports is a cycle, and the check passes each on.

  The walk reports lists of numbers that are cycles of links (`Walk.Inv.cycles`). Different numbers have
  different paths, so the lists of paths are cycles of edges (`Inv.isCycle`). None of them is empty,
  which is why the check drops none of them (`cycles_sound`).
-/

import LayerLint.Check.Cycle
import LayerLint.Proofs.Graph.Walk

namespace LayerLint

namespace IsCycle

variable {α β : Type} {edge : α → α → Prop} {edge' : β → β → Prop} {c : List α}

theorem ne_nil (h : IsCycle edge c) : c ≠ [] := by
  rintro rfl
  obtain ⟨first, last, hf, -⟩ := h.closed
  cases hf

theorem map (h : IsCycle edge c) {f : α → β} (hinj : ∀ a ∈ c, ∀ b ∈ c, f a = f b → a = b)
    (hedge : ∀ a b, edge a b → edge' (f a) (f b)) : IsCycle edge' (c.map f) := by
  refine ⟨h.nodup.map_on hinj, List.isChain_map_of_isChain f hedge h.chain, ?_⟩
  obtain ⟨first, last, hf, hl, he⟩ := h.closed
  exact ⟨f first, f last, by simp [hf], by simp [hl], hedge _ _ he⟩

end IsCycle

namespace Graph

def Edge (g : Graph) (a b : String) : Prop := (a, b) ∈ g.edges

instance (g : Graph) (a b : String) : Decidable (g.Edge a b) := inferInstanceAs (Decidable ((a, b) ∈ g.edges))

theorem edge_of_link {g : Graph} {a b : Nat} (h : g.Link a b) : g.Edge (g.pathAt a) (g.pathAt b) :=
  mem_edges.mpr ⟨a, b, h, rfl, rfl⟩

theorem mem_cycles {g : Graph} {c : List String} : c ∈ g.cycles ↔ ∃ d ∈ g.walk.cycles, d.map g.pathAt = c :=
  List.mem_map

theorem Inv.isCycle {g : Graph} (h : Inv g) {c : List String} (hc : c ∈ g.cycles) :
    IsCycle g.Edge c ∧ ∀ p ∈ c, g.contains p = true := by
  obtain ⟨d, hd, rfl⟩ := mem_cycles.mp hc
  obtain ⟨hcycle, hlt⟩ := (Walk.inv_walk h).cycles d hd
  refine ⟨hcycle.map (fun a ha b hb => h.pathAt_inj (hlt a ha) (hlt b hb)) (fun _ _ => edge_of_link), ?_⟩
  intro p hp
  obtain ⟨n, hn, rfl⟩ := List.mem_map.mp hp
  exact h.contains_pathAt (hlt n hn)

end Graph

namespace Check.Cycle

def Reports (cycle : List String) (v : Violation) : Prop :=
  v.rule = .circularDependency ∧ v.finding = .circularDependency cycle ∧ cycle.head? = some v.location.file ∧
    v.location.line = none

theorem ofCycle?_reports (ctx : Context) {cycle : List String} (h : cycle ≠ []) :
    ∃ v, ofCycle? ctx cycle = some v ∧ Reports cycle v := by
  cases cycle with
  | nil => exact absurd rfl h
  | cons first rest => exact ⟨_, rfl, rfl, rfl, rfl, rfl⟩

theorem filterMap_reports (ctx : Context) (cycles : List (List String)) (h : ∀ c ∈ cycles, c ≠ []) :
    List.Forall₂ Reports cycles (cycles.filterMap (ofCycle? ctx)) := by
  induction cycles with
  | nil => exact .nil
  | cons c cycles ih =>
    obtain ⟨v, hv, hr⟩ := ofCycle?_reports ctx (h c List.mem_cons_self)
    rw [List.filterMap_cons_some hv]
    exact .cons hr (ih fun d hd => h d (List.mem_cons_of_mem _ hd))

end Check.Cycle

namespace Graph

/-- Every list that is reported is a cycle of registered paths, and the check makes one violation of each, in order,
    at its first path. -/
theorem cycles_sound (calls : List Call) (ctx : Check.Context) :
    (∀ c ∈ (after calls).cycles,
        c ≠ [] ∧ IsCycle (after calls).Edge c ∧ ∀ p ∈ c, (after calls).contains p = true) ∧
      List.Forall₂ Check.Cycle.Reports (after calls).cycles (Check.Cycle.run { ctx with graph := after calls }) := by
  have h : ∀ c ∈ (after calls).cycles, IsCycle (after calls).Edge c ∧ ∀ p ∈ c, (after calls).contains p = true :=
    fun c => (inv_after calls).isCycle
  exact ⟨fun c hc => ⟨(h c hc).1.ne_nil, h c hc⟩, Check.Cycle.filterMap_reports _ _ fun c hc => (h c hc).1.ne_nil⟩

/-- Two cycles with an edge in common, `a → b → a` and `a → c → b → a`. The walk leaves `b` before it comes to `c`. -/
def tangle : List Call :=
  [.register "a.ts" none, .register "b.ts" none, .register "c.ts" none, .connect "a.ts" "b.ts",
   .connect "b.ts" "a.ts", .connect "a.ts" "c.ts", .connect "c.ts" "b.ts"]

theorem cycles_sound_tangle :
    (after tangle).cycles = [["a.ts", "b.ts"]] ∧ IsCycle (after tangle).Edge ["a.ts", "b.ts"] ∧
      ∀ p ∈ ["a.ts", "b.ts"], (after tangle).contains p = true := by
  have hcycles : (after tangle).cycles = [["a.ts", "b.ts"]] := by decide
  have hmem : ["a.ts", "b.ts"] ∈ (after tangle).cycles := hcycles ▸ List.mem_singleton_self _
  exact ⟨hcycles, ((cycles_sound tangle ⟨[], .empty, .default, .default⟩).1 _ hmem).2⟩

end Graph

end LayerLint
