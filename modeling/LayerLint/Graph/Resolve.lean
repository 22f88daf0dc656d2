/-
  LayerLint.Graph.Resolve: which file an import means.

  A specifier that starts with a dot is followed from the directory of the importing file, any other
  from the root of the project. The file it means is the first registered path among the path itself,
  the path with each source extension, and the index file of the path with each source extension.
  `build` makes the graph of a list of units: every file is registered before any import is resolved.
-/

import LayerLint.Graph.Basic

namespace LayerLint

namespace Graph

/-- Extensions that a specifier may leave out, in the order they are tried. -/
def extensions : List String := ["ts", "tsx", "js", "jsx", "mts", "cts", "mjs", "cjs"]

/-- The paths that a specifier may mean, in the order they are tried. -/
def candidates (base : String) : List String :=
  base :: (extensions.map (fun e => base ++ "." ++ e) ++
    extensions.map (fun e => base ++ "/index." ++ e))

/-- Where a specifier leads to from a file, before any extension is tried. -/
def target? (file specifier : String) : Option String :=
  Path.join? (if specifier.toList.head? == some '.' then Path.dir file else "") specifier

def resolve? (g : Graph) (file specifier : String) : Option String :=
  match target? file specifier with
  | some base => if base.isEmpty then none else (candidates base).find? g.contains
  | none => none

def addImport (g : Graph) (file : String) (i : Import) : Graph :=
  match g.resolve? file i.specifier with
  | some target => (g.connect file target).1
  | none => g

def addImports (g : Graph) (u : SourceUnit) : Graph :=
  u.imports.foldl (fun g i => g.addImport u.path i) g

def ofFiles (units : List SourceUnit) : Graph :=
  units.foldl (fun g u => (g.registerUnit u).1) empty

def build (units : List SourceUnit) : Graph := units.foldl addImports (ofFiles units)

end Graph

end LayerLint
