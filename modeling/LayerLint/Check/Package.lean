/-
  LayerLint.Check.Package: packages that a layer may not use.

  The package of a specifier is its first segment, or its first two when the first starts with `@`.
  Specifiers that start with `.`, `/` or `~` and those of built-in modules (`node:`) name no package,
  and neither does `@/`, which is an alias of the project's own root.
-/

import LayerLint.Violation

namespace LayerLint

namespace Check.Package

/-- The package of a specifier after its `@`. -/
def scoped? (specifier : String) (rest : List Char) : Option String :=
  match Text.split Path.isSlash rest with
  | scope :: name :: _ =>
    if scope.isEmpty then none
    else if name.isEmpty then some specifier
    else some (String.ofList ('@' :: (scope ++ '/' :: name)))
  | [scope] => if scope.isEmpty then none else some specifier
  | [] => none

def ofSpecifier? (specifier : String) : Option String :=
  match specifier.toList with
  | [] => none
  | '@' :: rest => scoped? specifier rest
  | c :: rest =>
    if c == '.' || c == '/' || c == '~' || "node:".toList.isPrefixOf (c :: rest) then none
    else some (String.ofList ((c :: rest).takeWhile (!Path.isSlash ·)))

def ofImport? (ctx : Context) (u : SourceUnit) (layer : Layer) (denied : List String) (i : Import) :
    Option Violation :=
  match ofSpecifier? i.specifier with
  | none => none
  | some package =>
    if denied.contains package then
      some (.of ctx.severities (.forbiddenPackage package layer) ⟨u.path, some i.line⟩
        s!"{layer.name} layer depends on forbidden package '{package}'"
        s!"Move the '{package}' usage to the infrastructure layer behind a port")
    else none

def ofUnit (packages : Config.Packages) (ctx : Context) (u : SourceUnit) : List Violation :=
  match u.layer with
  | none => []
  | some layer =>
    let denied := packages.get layer
    if denied.isEmpty then [] else u.imports.filterMap (ofImport? ctx u layer denied)

def run (packages : Config.Packages) (ctx : Context) : List Violation :=
  ctx.units.flatMap (ofUnit packages ctx)

end Check.Package

end LayerLint
