/-
  LayerLint.Proofs.Check.Imports: checks that go through the imports one by one.

  Those of directions, of aggregates and of packages do. Each asks for something about the file first, its layer or its
  aggregate, and reports nothing where that is missing (`eq_filterMap_imports`). Such a check says something about
  an import or nothing, whatever the other imports are. So an import adds to the report exactly what is said about it
  (`flatMap_imports_insert`), and a check that says less about each import reports less of the same in the same order
  (`flatMap_imports_sublist`).
-/

import LayerLint.Check.Aggregate
import LayerLint.Check.Direction
import LayerLint.Check.Package

namespace LayerLint.Check

/-! ## What is said about one import -/

theorem eq_filterMap_imports {α : Type} (known : SourceUnit → Option α)
    (ofImport? : SourceUnit → α → Import → Option Violation) {ofUnit : SourceUnit → List Violation}
    (hnone : ∀ u, known u = none → ofUnit u = [])
    (hsome : ∀ u a, known u = some a → ofUnit u = u.imports.filterMap (ofImport? u a)) :
    ofUnit = fun u => u.imports.filterMap fun i => (known u).bind fun a => ofImport? u a i := by
  funext u
  cases h : known u with
  | none => simp [hnone u h]
  | some a => simp only [hsome u a h, Option.bind_some]

namespace Direction

def flagged? (allowed : PerLayer (List Layer)) (ctx : Context) (u : SourceUnit) (i : Import) : Option Violation :=
  u.layer.bind fun importing => ofImport? allowed ctx u importing i

theorem ofUnit_eq (allowed : PerLayer (List Layer)) (ctx : Context) :
    ofUnit allowed ctx = fun u => u.imports.filterMap (flagged? allowed ctx u) :=
  eq_filterMap_imports SourceUnit.layer (ofImport? allowed ctx) (fun u h => by simp only [ofUnit, h])
    fun u importing h => by simp only [ofUnit, h]

end Direction

namespace Aggregate

def flagged? (settings : Config.Aggregates) (ctx : Context) (u : SourceUnit) (i : Import) : Option Violation :=
  (infer? settings u.path).bind fun importing => ofImport? settings ctx u importing i

theorem ofUnit_eq (settings : Config.Aggregates) (ctx : Context) :
    ofUnit settings ctx = fun u => u.imports.filterMap (flagged? settings ctx u) :=
  eq_filterMap_imports (fun u => infer? settings u.path) (ofImport? settings ctx)
    (fun u h => by simp only [ofUnit, h]) fun u importing h => by simp only [ofUnit, h]

end Aggregate

namespace Package

def flagged? (packages : Config.Packages) (ctx : Context) (u : SourceUnit) (i : Import) : Option Violation :=
  u.layer.bind fun layer => ofImport? ctx u layer (packages.get layer) i

theorem ofImport?_nil (ctx : Context) (u : SourceUnit) (layer : Layer) (i : Import) :
    ofImport? ctx u layer [] i = none := by
  unfold ofImport?
  split <;> rfl

theorem ofUnit_eq (packages : Config.Packages) (ctx : Context) :
    ofUnit packages ctx = fun u => u.imports.filterMap (flagged? packages ctx u) := by
  refine eq_filterMap_imports SourceUnit.layer (fun u layer => ofImport? ctx u layer (packages.get layer))
    (fun u h => by simp only [ofUnit, h]) fun u layer h => ?_
  simp only [ofUnit, h]
  -- with nothing denied the imports are not looked at, and nothing would be said about them
  cases hdenied : packages.get layer with
  | nil => simp [ofImport?_nil]
  | cons d more => rfl

end Package

/-! ## One import more, and one check against another -/

/-- If what is said about an import does not depend on the others of its file, a report with one import more has what
    is said about it in one place, and is otherwise the same. -/
theorem flatMap_imports_insert {f : SourceUnit → Import → Option Violation}
    (hf : ∀ u imports, f { u with imports := imports } = f u) (before after : List SourceUnit) {u : SourceUnit}
    {i : Import} {imports more : List Import} (himports : u.imports = imports ++ i :: more) :
    ∃ front back,
      ((before ++ u :: after).flatMap fun u => u.imports.filterMap (f u)) = front ++ ((f u i).toList ++ back) ∧
      ((before ++ { u with imports := imports ++ more } :: after).flatMap fun u => u.imports.filterMap (f u)) =
        front ++ back := by
  refine ⟨(before.flatMap fun u => u.imports.filterMap (f u)) ++ imports.filterMap (f u),
    more.filterMap (f u) ++ after.flatMap fun u => u.imports.filterMap (f u), ?_, ?_⟩
  · rw [List.flatMap_append, List.flatMap_cons, himports, List.filterMap_append, List.filterMap_cons]
    cases f u i with
    | none => simp
    | some v => simp
  · rw [List.flatMap_append, List.flatMap_cons, hf, List.filterMap_append]
    simp only [List.append_assoc]

theorem map_filterMap_sublist {α β γ : Type} {f g : α → Option β} {key : β → γ}
    (h : ∀ a b, f a = some b → ∃ c, g a = some c ∧ key c = key b) (l : List α) :
    ((l.filterMap f).map key).Sublist ((l.filterMap g).map key) := by
  induction l with
  | nil => exact .slnil
  | cons a l ih =>
    rw [List.filterMap_cons, List.filterMap_cons]
    cases hf : f a with
    | none =>
      cases g a with
      | none => exact ih
      | some c => exact ih.cons (key c)
    | some b =>
      obtain ⟨c, hc, hkey⟩ := h a b hf
      rw [hc, List.map_cons, List.map_cons, hkey]
      exact ih.cons_cons (key b)

/-- If one check says of every import what another says of it, or nothing, it reports a part of what the other does, in
    the same order. What counts of a violation is its `key`. -/
theorem flatMap_imports_sublist {β : Type} {f g : SourceUnit → Import → Option Violation} {key : Violation → β}
    (h : ∀ u i v, f u i = some v → ∃ w, g u i = some w ∧ key w = key v) (units : List SourceUnit) :
    ((units.flatMap fun u => u.imports.filterMap (f u)).map key).Sublist
      ((units.flatMap fun u => u.imports.filterMap (g u)).map key) := by
  induction units with
  | nil => exact .slnil
  | cons u units ih =>
    rw [List.flatMap_cons, List.flatMap_cons, List.map_append, List.map_append]
    exact (map_filterMap_sublist (h u) u.imports).append ih

end LayerLint.Check
