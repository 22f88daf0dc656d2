/-
  LayerLint.Cli.Run: carrying a request out on a disk.

  Only `init` changes the disk, and only the settings file in the working directory. The exit code is
  0 for success, 1 for a check that does not pass, and 2 for every error.
-/

import LayerLint.Cli.Args
import LayerLint.Config.Template
import LayerLint.Disk.Scan
import LayerLint.Disk.Settings
import LayerLint.Json.Printer
import LayerLint.Report.Dot
import LayerLint.Report.Text

namespace LayerLint.Cli

structure Outcome where
  code : Nat
  stdout : String
  stderr : String
  deriving DecidableEq, Repr

namespace Outcome

def success (text : String) : Outcome := ⟨0, text ++ "\n", ""⟩

def failed (message : String) : Outcome := ⟨2, "", s!"Error: {message}\n"⟩

end Outcome

def usageLines : List String :=
  ["Check layering, boundaries and naming in layered TypeScript codebases",
   "",
   "Usage: strata [OPTIONS] <COMMAND>",
   "",
   "Commands:",
   "  analyze  Analyze a codebase and print a full report",
   "  check    Analyze and exit with code 0 (pass) or 1 (fail)",
   "  init     Create a default .strata.toml configuration file",
   "  help     Print this message"]

def usage : String := String.join (usageLines.map (· ++ "\n"))

def versionLine : String := "strata 0.3.0"

def layoutOf (compact : Bool) : Json.Layout := if compact then .compact else .pretty

/-- The settings at a path that was given, or those that hold for the project. -/
def settings (d : Disk) (project : String) : Option String → Except String Config
  | some path => (d.loadConfig path).mapError Config.LoadError.message
  | none => .ok (d.configOf project)

def report (d : Disk) (project : String) (config : Config) (includes excludes : Option (List String)) :
    Except String Report :=
  ((Analysis.ofConfig config).run (d.access project) project includes excludes).mapError fun e =>
    s!"analysis failed: {e.message}"

/-- Patterns from the command line, which replace the configured ones if there are any. -/
def given (patterns : List String) : Option (List String) :=
  if patterns.isEmpty then none else some patterns

def analyzeText (o : AnalyzeOptions) (color : Bool) (r : Report) : String :=
  match o.format with
  | .text => (r.text ⟨o.minSeverity, o.limit⟩).render color
  | .json => r.toJson.render (layoutOf o.compact)
  | .dot => if o.layerFlow then r.layerFlow else r.fileGraph

def analyze (d : Disk) (o : AnalyzeOptions) (color : Bool) : Except String Outcome := do
  let config ← settings d o.path o.config
  let r ← report d o.path config (given o.includes) (given o.excludes)
  return .success (analyzeText o color r)

/-- The output of a check, which is never drawn, and the verdict of the renderer. -/
def judge (o : CheckOptions) (color : Bool) (failOn : Severity) (r : Report) :
    Except String (Report.Judged String) :=
  match o.format with
  | .text => .ok ((r.judgeText failOn).map (·.render color))
  | .json => .ok ((r.judgeJson failOn).map (·.render (layoutOf o.compact)))
  | .dot => .error "check does not support --format dot"

def check (d : Disk) (o : CheckOptions) (color : Bool) : Except String Outcome := do
  let config ← settings d o.path o.config
  let failOn := o.failOn.getD config.rules.failOn
  let r ← report d o.path config none none
  let judged ← judge o color failOn r
  return { Outcome.success judged.output with code := if judged.passed then 0 else 1 }

def init (d : Disk) (force : Bool) : Except String (Disk × Outcome) :=
  if d.has Config.fileName && !force then
    .error s!"{Config.fileName} already exists. Use --force to overwrite."
  else
    match d.write Config.fileName Config.template with
    | .ok d => .ok (d, .success s!"Created {Config.fileName} with default configuration.")
    | .error e => .error s!"failed to write {Config.fileName}: {e.message}"

def execute (d : Disk) (color : Bool) : Command → Except String (Disk × Outcome)
  | .analyze o => (analyze d o color).map fun r => (d, r)
  | .check o => (check d o color).map fun r => (d, r)
  | .init force => init d force

/-- Runs the program with its arguments. `color` tells whether the output may have colours. -/
def run (d : Disk) (color : Bool) (args : List String) : Disk × Outcome :=
  match request args with
  | .version => (d, .success versionLine)
  | .help => (d, ⟨0, usage, ""⟩)
  | .misuse => (d, ⟨2, "", usage⟩)
  | .run command noColor =>
    match execute d (color && !noColor) command with
    | .ok r => r
    | .error message => (d, .failed message)

end LayerLint.Cli
