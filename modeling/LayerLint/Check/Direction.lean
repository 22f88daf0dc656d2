/-
  LayerLint.Check.Direction: imports into a layer that the importing layer may not use.

  The imported layer is read off the specifier alone, so a specifier without a word of any layer is
  never a breach.
-/

import LayerLint.Violation

namespace LayerLint

namespace Check.Direction

variable (allowed : PerLayer (List Layer))

def suggestion (importing : Layer) : String :=
  match allowed.get importing with
  | [] => s!"{importing.name} code should not import from other layers"
  | layers =>
    s!"{importing.name} may only depend on: {listed (layers.map Layer.name)}. " ++
      s!"Invert the dependency behind an interface owned by {importing.name}"

def ofImport? (ctx : Context) (u : SourceUnit) (importing : Layer) (i : Import) : Option Violation :=
  match ctx.classifier.classify i.specifier with
  | none => none
  | some imported =>
    if Config.permits allowed importing imported then none
    else some (.of ctx.severities (.layerDirection importing imported i.specifier)
      ⟨u.path, some i.line⟩
      s!"{importing.name} layer imports {imported.name} layer ('{i.specifier}')"
      (suggestion allowed importing))

def ofUnit (ctx : Context) (u : SourceUnit) : List Violation :=
  match u.layer with
  | none => []
  | some importing => u.imports.filterMap (ofImport? allowed ctx u importing)

def run (ctx : Context) : List Violation := ctx.units.flatMap (ofUnit allowed ctx)

end Check.Direction

end LayerLint
