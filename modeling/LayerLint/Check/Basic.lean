/-
  LayerLint.Check.Basic: the checks, one for each rule.

  A check carries its settings and gives the violations of its rule in a project. `builtin` are the
  checks of a configuration, without those whose rule is disabled; `standard` is the check of a rule
  with the settings it has by default.
-/

import LayerLint.Check.Aggregate
import LayerLint.Check.Cycle
import LayerLint.Check.Direction
import LayerLint.Check.Naming
import LayerLint.Check.Package
import LayerLint.Secret

namespace LayerLint

inductive Check where
  | direction (allowed : PerLayer (List Layer))
  | cycle
  | aggregate (settings : Config.Aggregates)
  | naming (settings : Config.Naming)
  | package (denied : Config.Packages)
  | secret (scanner : SecretScanner)

namespace Check

def rule : Check → Rule
  | direction _ => .layerDirection
  | cycle => .circularDependency
  | aggregate _ => .aggregateBoundary
  | naming _ => .naming
  | package _ => .forbiddenPackage
  | secret _ => .hardcodedSecret

namespace Secret

def ofFinding (ctx : Context) (u : SourceUnit) (f : SecretFinding) : Violation :=
  .of ctx.severities (.hardcodedSecret f.kind f.column) ⟨u.path, some f.line⟩ f.message
    "Load the value from the environment or a secret store"

/-- The violations in one file. A file that cannot be scanned has none. -/
def ofUnit (scanner : SecretScanner) (ctx : Context) (u : SourceUnit) : List Violation :=
  ((scanner u.content u.path).getD []).map (ofFinding ctx u)

def run (scanner : SecretScanner) (ctx : Context) : List Violation :=
  ctx.units.flatMap (ofUnit scanner ctx)

end Secret

def run : Check → Context → List Violation
  | direction allowed => Direction.run allowed
  | cycle => Cycle.run
  | aggregate settings => Aggregate.run settings
  | naming settings => Naming.run settings
  | package denied => Package.run denied
  | secret scanner => Secret.run scanner

def configured (c : Config) (scanner : SecretScanner) : List Check :=
  [direction c.layers.allowed, cycle, aggregate c.aggregates, naming c.naming, package c.packages,
   secret scanner]

/-- The checks of a configuration whose rules are not disabled. -/
def builtin (c : Config) (scanner : SecretScanner) : List Check :=
  (configured c scanner).filter fun check => c.rules.enables check.rule

def standard : Rule → Check
  | .layerDirection => direction Config.Layers.defaultAllowed
  | .circularDependency => cycle
  | .aggregateBoundary => aggregate .default
  | .naming => naming .default
  | .forbiddenPackage => package Config.Packages.default
  | .hardcodedSecret => secret .builtin

/-- What one check found, under the rule it is for. -/
structure Output where
  rule : Rule
  violations : List Violation

def output (check : Check) (ctx : Context) : Output := ⟨check.rule, check.run ctx⟩

end Check

end LayerLint
