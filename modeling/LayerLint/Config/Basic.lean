/-
  LayerLint.Config.Basic: the settings of a run and their defaults.

  A section has defaults for its fields, which fill the gaps of a section that is given, and a default of
  its own, which stands for a section that is not.
-/

import LayerLint.Layer
import LayerLint.Rule

namespace LayerLint

namespace Config

structure Project where
  includes : List String
  excludes : List String
  maxWorkers : Nat
  deriving DecidableEq, Repr

/-- The path segments that put a file into a layer, and the layers each layer may import from. -/
structure Layers where
  words : PerLayer (List String)
  allowed : PerLayer (List Layer)
  deriving DecidableEq, Repr

/-- How the aggregate of a file is read off its path. -/
structure Aggregates where
  /-- Segments after which the names of aggregates start. -/
  rootMarkers : List String
  /-- Folders that order the code of an aggregate without naming one. -/
  structuralFolders : List String
  /-- Folders that other aggregates may import from. -/
  sharedFolders : List String
  deriving DecidableEq, Repr

structure Naming where
  /-- The ending that files of a folder carry. -/
  suffixes : List (String × String)
  /-- Endings too vague for the domain layer, each with the ending to prefer. -/
  vagueSuffixes : List (String × String)
  deriving DecidableEq, Repr

structure Rules where
  severities : List (String × Severity)
  failOn : Severity
  disabled : List String
  deriving DecidableEq, Repr

namespace Project

def defaultIncludes : List String := ["**/*.ts", "**/*.tsx", "**/*.js", "**/*.jsx"]

def defaultExcludes : List String :=
  ["**/node_modules/**", "**/dist/**", "**/build/**", "**/*.d.ts", "**/*.spec.*", "**/*.test.*"]

def default : Project where
  includes := defaultIncludes
  excludes := defaultExcludes
  maxWorkers := 0

end Project

namespace Layers

def defaultWords : PerLayer (List String) :=
  ⟨["domain"], ["application"], ["infrastructure"], ["shared"]⟩

/-- Imports point inwards: to the domain, and from everywhere to shared code. -/
def allowedFrom : Layer → List Layer
  | .domain => [.shared]
  | .application => [.domain, .shared]
  | .infrastructure => [.domain, .application, .shared]
  | .shared => []

def defaultAllowed : PerLayer (List Layer) :=
  ⟨allowedFrom .domain, allowedFrom .application, allowedFrom .infrastructure, []⟩

def default : Layers := ⟨defaultWords, defaultAllowed⟩

end Layers

/-- Whether code of one layer may import code of another. A layer may always import its own. -/
def permits (allowed : PerLayer (List Layer)) (importing imported : Layer) : Bool :=
  decide (importing = imported) || (allowed.get importing).contains imported

namespace Aggregates

def defaultRootMarkers : List String := ["domain"]

def defaultStructuralFolders : List String :=
  ["aggregates", "entities", "entity", "value-objects", "value_objects", "valueobjects", "events",
   "repositories", "services", "specifications", "errors", "exceptions", "factories", "policies",
   "models", "types", "interfaces", "ports"]

def defaultSharedFolders : List String := ["value-objects", "value_objects", "valueobjects", "events"]

def default : Aggregates where
  rootMarkers := defaultRootMarkers
  structuralFolders := defaultStructuralFolders
  sharedFolders := defaultSharedFolders

end Aggregates

namespace Naming

def defaultSuffixes : List (String × String) :=
  [("errors", "Error"), ("events", "Event"), ("exceptions", "Error"), ("factories", "Factory"),
   ("policies", "Policy"), ("repositories", "Repository"), ("services", "Service"),
   ("specifications", "Specification")]

def defaultVagueSuffixes : List (String × String) :=
  [("Helper", "Service"), ("Manager", "Service"), ("Util", "Service"), ("Utils", "Service")]

def default : Naming where
  suffixes := defaultSuffixes
  vagueSuffixes := defaultVagueSuffixes

end Naming

abbrev Packages := PerLayer (List String)

namespace Packages

def persistence : List String :=
  ["typeorm", "mongoose", "mongodb", "sequelize", "@prisma/client", "prisma", "knex", "pg", "mysql",
   "mysql2", "sqlite3", "redis", "ioredis", "@mikro-orm/core"]

def http : List String := ["express", "fastify", "koa", "@nestjs/common", "hapi"]

def client : List String := ["axios", "aws-sdk", "@aws-sdk/client-s3", "node-fetch"]

def deniedIn : Layer → List String
  | .domain => persistence ++ http ++ client
  | .application => persistence ++ http
  | _ => []

def default : Packages := ⟨deniedIn .domain, deniedIn .application, [], []⟩

end Packages

namespace Rules

def defaultSeverities : List (String × Severity) := Rule.all.map fun r => (r.name, r.severity)

def defaultFailOn : Severity := .high

def default : Rules where
  severities := defaultSeverities
  failOn := defaultFailOn
  disabled := []

/-- Whether no entry of the disabled list names the rule. -/
def enables (s : Rules) (rule : Rule) : Bool := !s.disabled.any fun id => Rule.parse? id == some rule

end Rules

end Config

structure Config where
  project : Config.Project
  layers : Config.Layers
  aggregates : Config.Aggregates
  naming : Config.Naming
  packages : Config.Packages
  rules : Config.Rules
  deriving DecidableEq, Repr

namespace Config

def default : Config where
  project := .default
  layers := .default
  aggregates := .default
  naming := .default
  packages := Packages.default
  rules := .default

def severityMap (c : Config) : SeverityMap := .withOverrides c.rules.severities

end Config

end LayerLint
