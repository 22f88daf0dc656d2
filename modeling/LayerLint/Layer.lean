/-
  LayerLint.Layer: the four layers of a code base.

  `all` is the order of declaration, which is also the order in which a path is tried against the
  layers. A layer is written by `name`; `ofName?` reads exactly that spelling, `parse?` any case.
-/

import LayerLint.Text.Lowercase

namespace LayerLint

inductive Layer where
  | domain
  | application
  | infrastructure
  | shared
  deriving DecidableEq, Repr

namespace Layer

def all : List Layer := [domain, application, infrastructure, shared]

theorem mem_all (l : Layer) : l ∈ all := by cases l <;> decide

def name : Layer → String
  | domain => "domain"
  | application => "application"
  | infrastructure => "infrastructure"
  | shared => "shared"

def ofName? (s : String) : Option Layer := all.find? (·.name == s)

/-- The layer written so in any case. -/
def parse? (s : String) : Option Layer := ofName? (Text.lowercase s)

end Layer

structure PerLayer (α : Type) where
  domain : α
  application : α
  infrastructure : α
  shared : α
  deriving DecidableEq, Repr

def PerLayer.get {α : Type} (t : PerLayer α) : Layer → α
  | .domain => t.domain
  | .application => t.application
  | .infrastructure => t.infrastructure
  | .shared => t.shared

end LayerLint
