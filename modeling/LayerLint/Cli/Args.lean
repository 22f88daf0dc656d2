/-
  LayerLint.Cli.Args: reading the command line.

  Arguments are read from left to right, and the first that cannot be taken, or asks for help or the
  version, ends the reading. General switches stand before or after the command. A value follows its
  switch as the next argument, which then does not look like a switch, or behind an equals sign; after
  a short switch it may also follow at once. After `--` no argument is a switch.
-/

import LayerLint.Cli.Options
import LayerLint.Text.Split

namespace LayerLint.Cli

inductive Request where
  | run (command : Command) (noColor : Bool)
  | help
  | version
  | misuse
  deriving DecidableEq, Repr

/-- What one argument does to the reading. -/
inductive Step where
  | next (d : Draft)
  /-- The switch waits for its value. -/
  | await (d : Draft) (s : Switch)
  | stop (r : Request)

namespace Step

def ofOption : Option Draft → Step
  | some d => .next d
  | none => .stop .misuse

end Step

def bare (d : Draft) (s : Switch) : Step :=
  if s = .help then .stop .help
  else if s = .version then .stop .version
  else if s.takesValue then .await d s
  else .ofOption (d.flag? s)

def long (switches : List Switch) (d : Draft) (text : List Char) : Step :=
  let (name, value) := match Text.cut? ['='] text with
    | some (name, value) => (name, some (String.ofList value))
    | none => (text, none)
  match switches.find? (·.long.toList == name), value with
  | none, _ => .stop .misuse
  | some s, none => bare d s
  | some s, some v => if s.takesValue then .ofOption (d.value? s v) else .stop .misuse

/-- Takes a row of short switches, after their hyphen. -/
def shorts (switches : List Switch) (d : Draft) : List Char → Step
  | [] => .next d
  | c :: rest =>
    match switches.find? (·.short? == some c) with
    | none => .stop .misuse
    | some s =>
      if s.takesValue then
        match rest with
        | [] => .await d s
        | '=' :: v => .ofOption (d.value? s (String.ofList v))
        | v => .ofOption (d.value? s (String.ofList v))
      else
        match bare d s with
        | .next d => shorts switches d rest
        | step => step

/-- Whether an argument looks like a switch. A single hyphen does not. -/
def looksLikeSwitch (arg : String) : Bool :=
  match arg.toList with
  | '-' :: _ :: _ => true
  | _ => false

def switch (switches : List Switch) (d : Draft) (arg : String) : Step :=
  match arg.toList with
  | '-' :: '-' :: text => long switches d text
  | '-' :: text => shorts switches d text
  | _ => .stop .misuse

/-- Takes arguments none of which is a switch. -/
def plainArguments (verb : Verb) (d : Draft) (args : List String) : Option Draft :=
  args.foldlM (fun d v => d.argument? verb v) d

def finish (verb : Verb) (noColor : Bool) (d : Option Draft) : Request :=
  match d with
  | none => .misuse
  | some d =>
    match d.command? verb with
    | some c => .run c (noColor || d.has .noColor)
    | none => .misuse

def readCommand (verb : Verb) (noColor : Bool) : (d : Draft) → List String → Request
  | d, [] => finish verb noColor (some d)
  | d, arg :: rest =>
    if arg = "--" then finish verb noColor (plainArguments verb d rest)
    else if looksLikeSwitch arg then
      match switch (Switch.ofVerb verb) d arg, rest with
      | .stop r, _ => r
      | .next d, rest => readCommand verb noColor d rest
      | .await _ _, [] => .misuse
      | .await d s, v :: rest =>
        if looksLikeSwitch v then .misuse
        else
          match d.value? s v with
          | some d => readCommand verb noColor d rest
          | none => .misuse
    else
      match d.argument? verb arg with
      | some d => readCommand verb noColor d rest
      | none => .misuse

/-- Reads what follows the command `help`: nothing, or the name of a command. -/
def readHelp : List String → Request
  | [] => .help
  | [name] => if name = "help" ∨ (Verb.ofName? name).isSome then .help else .misuse
  | _ => .misuse

def readGeneral : (d : Draft) → List String → Request
  | _, [] => .misuse
  | d, arg :: rest =>
    match Verb.ofName? arg with
    | some verb => readCommand verb (d.has .noColor) .empty rest
    | none =>
      if arg = "help" then readHelp rest
      else if arg ≠ "--" ∧ looksLikeSwitch arg then
        match switch Switch.general d arg with
        | .stop r => r
        | .next d => readGeneral d rest
        | .await _ _ => .misuse
      else .misuse

def request (args : List String) : Request := readGeneral .empty args

end LayerLint.Cli
