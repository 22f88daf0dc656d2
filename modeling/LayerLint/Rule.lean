/-
  LayerLint.Rule: the six rules, and the severity each of them reports with.

  A `SeverityMap` gives every rule a severity. It starts from the defaults; `withOverrides` lays a
  table of rule names over them, in which names that belong to no rule are passed over.
-/

import LayerLint.Severity

namespace LayerLint

inductive Rule where
  | layerDirection
  | circularDependency
  | aggregateBoundary
  | naming
  | forbiddenPackage
  | hardcodedSecret
  deriving DecidableEq, Repr

namespace Rule

/-- In order of declaration, which is the order of reports. -/
def all : List Rule :=
  [layerDirection, circularDependency, aggregateBoundary, naming, forbiddenPackage, hardcodedSecret]

theorem mem_all (rule : Rule) : rule ∈ all := by cases rule <;> decide

def name : Rule → String
  | layerDirection => "layer-direction"
  | circularDependency => "circular-dependency"
  | aggregateBoundary => "aggregate-boundary"
  | naming => "naming"
  | forbiddenPackage => "forbidden-package"
  | hardcodedSecret => "hardcoded-secret"

/-- The severity of a rule that no configuration speaks of. -/
def severity : Rule → Severity
  | layerDirection => .critical
  | hardcodedSecret => .critical
  | circularDependency => .high
  | forbiddenPackage => .high
  | aggregateBoundary => .medium
  | naming => .low

def ofName? (s : String) : Option Rule := all.find? (·.name == s)

def hyphenated (s : String) : String :=
  String.ofList (s.toList.map fun c => if c == '_' then '-' else c)

/-- The rule written so in any case, with `_` for `-`. -/
def parse? (s : String) : Option Rule := ofName? (hyphenated (Text.lowercase s))

end Rule

structure PerRule (α : Type) where
  layerDirection : α
  circularDependency : α
  aggregateBoundary : α
  naming : α
  forbiddenPackage : α
  hardcodedSecret : α
  deriving DecidableEq, Repr

namespace PerRule

variable {α : Type}

def get (t : PerRule α) : Rule → α
  | .layerDirection => t.layerDirection
  | .circularDependency => t.circularDependency
  | .aggregateBoundary => t.aggregateBoundary
  | .naming => t.naming
  | .forbiddenPackage => t.forbiddenPackage
  | .hardcodedSecret => t.hardcodedSecret

def ofFn (f : Rule → α) : PerRule α :=
  ⟨f .layerDirection, f .circularDependency, f .aggregateBoundary, f .naming, f .forbiddenPackage,
    f .hardcodedSecret⟩

@[simp] theorem get_ofFn (f : Rule → α) (r : Rule) : (ofFn f).get r = f r := by cases r <;> rfl

theorem ext_get {t t' : PerRule α} (h : ∀ rule, t.get rule = t'.get rule) : t = t' := by
  obtain ⟨a, b, c, d, e, f⟩ := t
  obtain ⟨a', b', c', d', e', f'⟩ := t'
  rw [PerRule.mk.injEq]
  exact ⟨h .layerDirection, h .circularDependency, h .aggregateBoundary, h .naming, h .forbiddenPackage,
    h .hardcodedSecret⟩

end PerRule

structure SeverityMap where
  get : Rule → Severity

namespace SeverityMap

def default : SeverityMap := ⟨Rule.severity⟩

def set (m : SeverityMap) (rule : Rule) (severity : Severity) : SeverityMap :=
  ⟨fun r => if r = rule then severity else m.get r⟩

def override (m : SeverityMap) (entry : String × Severity) : SeverityMap :=
  match Rule.parse? entry.1 with
  | some rule => m.set rule entry.2
  | none => m

def withOverrides (table : List (String × Severity)) : SeverityMap := table.foldl override default

end SeverityMap

end LayerLint
