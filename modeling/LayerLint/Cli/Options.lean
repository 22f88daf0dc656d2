/-
  LayerLint.Cli.Options: the commands and their options.

  A switch is what a long or a short option stands for. `Draft` collects what was given; a flag or a
  single value that is given twice, and a value that cannot be read, are refused.
-/

import LayerLint.Number.Decimal
import LayerLint.Severity
import LayerLint.Text.Class

namespace LayerLint.Cli

inductive OutputFormat where
  | text
  | json
  | dot
  deriving DecidableEq, Repr

def OutputFormat.ofName? : String → Option OutputFormat
  | "text" => some .text
  | "json" => some .json
  | "dot" => some .dot
  | _ => none

structure AnalyzeOptions where
  path : String
  config : Option String
  format : OutputFormat
  compact : Bool
  layerFlow : Bool
  includes : List String
  excludes : List String
  minSeverity : Option Severity
  limit : Option Nat
  deriving DecidableEq, Repr

structure CheckOptions where
  path : String
  failOn : Option Severity
  format : OutputFormat
  compact : Bool
  config : Option String
  deriving DecidableEq, Repr

inductive Command where
  | analyze (o : AnalyzeOptions)
  | check (o : CheckOptions)
  | init (force : Bool)
  deriving DecidableEq, Repr

/-- The name of a command, before its options are read. -/
inductive Verb where
  | analyze
  | check
  | init
  deriving DecidableEq, Repr

def Verb.ofName? : String → Option Verb
  | "analyze" => some .analyze
  | "check" => some .check
  | "init" => some .init
  | _ => none

/-! ## Switches -/

inductive Switch where
  | help
  | version
  | verbose
  | noColor
  | config
  | format
  | compact
  | layerFlow
  | includes
  | excludes
  | minSeverity
  | limit
  | failOn
  | force
  deriving DecidableEq, Repr

namespace Switch

def long : Switch → String
  | help => "help"
  | version => "version"
  | verbose => "verbose"
  | noColor => "no-color"
  | config => "config"
  | format => "format"
  | compact => "compact"
  | layerFlow => "layer-flow"
  | includes => "include"
  | excludes => "exclude"
  | minSeverity => "min-severity"
  | limit => "limit"
  | failOn => "fail-on"
  | force => "force"

def short? : Switch → Option Char
  | help => some 'h'
  | version => some 'V'
  | verbose => some 'v'
  | config => some 'c'
  | _ => none

def takesValue : Switch → Bool
  | config | format | includes | excludes | minSeverity | limit | failOn => true
  | _ => false

def general : List Switch := [verbose, noColor, help, version]

def ofVerb : Verb → List Switch
  | .analyze =>
    [config, format, compact, layerFlow, includes, excludes, minSeverity, limit, verbose, noColor,
     help]
  | .check => [failOn, format, compact, config, verbose, noColor, help]
  | .init => [force, verbose, noColor, help]

end Switch

/-! ## Collecting what is given -/

structure Draft where
  path : Option String
  config : Option String
  format : Option OutputFormat
  minSeverity : Option Severity
  failOn : Option Severity
  limit : Option Nat
  includes : List String
  excludes : List String
  /-- The flags that were given. -/
  flags : List Switch
  deriving DecidableEq, Repr

namespace Draft

def empty : Draft := ⟨none, none, none, none, none, none, [], [], []⟩

def flag? (d : Draft) (s : Switch) : Option Draft :=
  if s ∈ d.flags then none else some { d with flags := d.flags ++ [s] }

/-- A value that is given once and can be read. -/
def once? {α : Type} (old : Option α) (new : Option α) : Option α := if old.isSome then none else new

def path? (s : String) : Option String := if s = "" then none else some s

/-- A number from 0 to 2 ^ 64 - 1, which may have a plus sign. -/
def count? (s : String) : Option Nat :=
  let digits := match s.toList with
    | '+' :: rest => rest
    | cs => cs
  let n := digits.foldl (fun n c => n * 10 + (c.toNat - 48)) 0
  if !digits.isEmpty && digits.all Text.isAsciiDigit && n < twoPow 64 then some n else none

def value? (d : Draft) (s : Switch) (v : String) : Option Draft :=
  match s with
  | .config => (once? d.config (path? v)).map fun x => { d with config := some x }
  | .format => (once? d.format (OutputFormat.ofName? v)).map fun x => { d with format := some x }
  | .minSeverity =>
    (once? d.minSeverity (Severity.parse? v)).map fun x => { d with minSeverity := some x }
  | .failOn => (once? d.failOn (Severity.parse? v)).map fun x => { d with failOn := some x }
  | .limit => (once? d.limit (count? v)).map fun x => { d with limit := some x }
  | .includes => some { d with includes := d.includes ++ [v] }
  | .excludes => some { d with excludes := d.excludes ++ [v] }
  | _ => none

/-- Takes an argument that belongs to no switch, of which only the path of a project is known. -/
def argument? (d : Draft) (verb : Verb) (v : String) : Option Draft :=
  if verb = .init then none else (once? d.path (path? v)).map fun x => { d with path := some x }

def has (d : Draft) (s : Switch) : Bool := d.flags.contains s

def command? (d : Draft) : Verb → Option Command
  | .analyze => d.path.map fun path => .analyze
    ⟨path, d.config, d.format.getD .text, d.has .compact, d.has .layerFlow, d.includes, d.excludes,
      d.minSeverity, d.limit⟩
  | .check => d.path.map fun path => .check
    ⟨path, d.failOn, d.format.getD .text, d.has .compact, d.config⟩
  | .init => some (.init (d.has .force))

end Draft

end LayerLint.Cli
