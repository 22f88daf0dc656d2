/-
  LayerLint.TypeScript.Grammar: what the rules of the grammar share.

  The rules are mutually recursive. Each is written as a plain function that reaches the others through
  a `Grammar`, which parses any of the `Goal`s; `Parser` closes the circle. A rule gives the nodes it
  has found as a `Forest`. Types never contain functions with a body, so the rules for types give
  nothing: they only find where a type ends.
-/

import LayerLint.TypeScript.Input
import LayerLint.TypeScript.Tree

namespace LayerLint.TypeScript

open Parse

abbrev Forest := List (Tree Kind)

/-- What a rule may ask another rule for. -/
inductive Goal where
  | statement
  /-- Statements in braces. -/
  | block
  /-- Expressions joined by commas. With `noIn` the word `in` ends the expression. -/
  | expression (noIn : Bool)
  /-- One expression. With `noColon` the head of an arrow function has no result type, since the colon
      belongs to a conditional around it. -/
  | assignment (noIn noColon : Bool)
  | unary
  /-- An operand with its calls and member accesses. -/
  | operand
  | type
  /-- A name or a pattern that binds names. -/
  | binding
  /-- Markup between angle brackets. -/
  | element

/-- The dialect, and a parser for each goal. -/
structure Grammar where
  /-- Whether angle brackets in expressions are markup. -/
  markup : Bool
  parse : Goal → Parse Forest

def nodeOf (k : Kind) (p : Parse Forest) : Parse Forest := return [.node k (← p)]

def leaf (k : Kind) (p : Parse Unit) : Parse Forest := do
  p
  return [.node k []]

def optional (p : Parse Forest) : Parse Forest := return ((← attempt p).getD [])

/-- A parser that finds no nodes. -/
def quiet (p : Parse Unit) : Parse Forest := do
  p
  return []

def sameLine : Parse Unit := do
  let broken ← newlineAhead
  guard (!broken)

def notSign (ts : List String) : Parse Unit := do
  let t ← peekSign
  guard (!ts.contains t)

/-- Items separated by commas up to a closing sign, where items may be left out. -/
def commaList (item : Parse Forest) (close : String) : Parse Forest := do
  let found ← many (do
    notSign [close]
    quiet (sign ",") <|> (do
      let found ← item
      guard ([",", close].contains (← peekSign))
      return found))
  sign close
  return found

def reserved : List String :=
  ["break", "case", "catch", "class", "const", "continue", "debugger", "default", "delete", "do",
   "else", "enum", "export", "extends", "finally", "for", "function", "if", "in", "instanceof",
   "new", "return", "switch", "throw", "try", "typeof", "var", "void", "while", "with"]

def name : Parse Unit := do
  let w ← word
  guard (!reserved.contains w)

/-! ## Text to be passed over -/

/-- The rest of a template up to its end or to the next substitution; true at its end. -/
def skipTemplate : (left : Nat) → List Char → Option (Bool × Input)
  | _, [] => none
  | left, '\\' :: _ :: rest => skipTemplate (left - 2) rest
  | left, '$' :: '\x7b' :: rest => some (false, ⟨rest, left - 2⟩)
  | left, c :: rest => if c == '\x60' then some (true, ⟨rest, left - 1⟩) else skipTemplate (left - 1) rest

def templateText : Parse Bool := do
  let s ← get
  match skipTemplate s.left s.rest with
  | some (ended, t) =>
    set t
    return ended
  | none => failure

mutual

/-- Passes over everything up to the bracket that closes the current one. `depth` counts the brackets
    opened since. -/
def skipNested : (fuel : Nat) → (depth : Nat) → Parse Unit
  | 0, _ => failure
  | fuel + 1, depth => do
    let _ ← gap
    let c ← anyChar
    if c == '(' || c == '[' || c == '\x7b' then skipNested fuel (depth + 1)
    else if c == ')' || c == ']' || c == '\x7d' then
      if depth == 0 then pure () else skipNested fuel (depth - 1)
    else if c == '\'' || c == '"' then
      let s ← get
      match skipString c s.left s.rest with
      | some t =>
        set t
        skipNested fuel depth
      | none => failure
    else if c == '\x60' then
      skipSubstitutions fuel
      skipNested fuel depth
    else skipNested fuel depth

def skipSubstitutions : (fuel : Nat) → Parse Unit
  | 0 => failure
  | fuel + 1 => do
    let ended ← templateText
    if ended then pure ()
    else
      skipNested fuel 0
      skipSubstitutions fuel

end

def nested (opening : Char) : Parse Unit := do
  rawChar opening
  let s ← get
  skipNested (s.left + 1) 0

def quietTemplate : Parse Unit := do
  rawChar '\x60'
  let s ← get
  skipSubstitutions (s.left + 1)

/-! ## Types -/

namespace Grammar

def type (g : Grammar) : Parse Unit := do
  let _ ← g.parse .type

def typeArguments (g : Grammar) : Parse Unit := do
  rawChar '<'
  let _ ← many (do
    guard ((← peekSign) != ">")
    quiet (sign ",") <|> quiet g.type)
  rawChar '>'

def typeParameter (g : Grammar) : Parse Unit := do
  let _ ← many (do
    let w ← word
    guard (["const", "in", "out"].contains w && (← peekWord) != "")
    return ([] : Forest))
  let _ ← word
  let _ ← attempt (do
    keyword "extends"
    g.type)
  let _ ← attempt (do
    sign "="
    g.type)

def typeParameters (g : Grammar) : Parse Unit := do
  rawChar '<'
  let _ ← many (quiet (sign ",") <|> quiet g.typeParameter)
  rawChar '>'

def annotation (g : Grammar) : Parse Unit := do
  sign ":"
  g.type

/-- Fails unless parameters may follow: none, a rest, or a name or pattern and a sign that may stand
    behind one. Otherwise a bracket only groups a type. -/
def parametersAhead : Parse Unit := do
  let seen ← look (do
    sign "("
    let t ← peekSign
    if t != ")" && t != "..." then
      if t == "\x7b" then nested '\x7b'
      else if t == "[" then nested '['
      else
        let _ ← word
      guard ([":", ",", "?", "=", ")"].contains (← peekSign)))
  guard seen.isSome

def functionType (g : Grammar) : Parse Unit := do
  let _ ← attempt (do
    keyword "abstract"
    guard ((← peekWord) == "new"))
  let _ ← keyword? "new"
  let _ ← attempt g.typeParameters
  parametersAhead
  nested '('
  sign "=>"
  g.type

/-- `x is T`, `asserts x`, `asserts x is T`. -/
def predicateType (g : Grammar) : Parse Unit := do
  let w ← word
  if w == "asserts" then
    sameLine
    let v ← word
    guard (v != "is")
    let _ ← attempt (do
      keyword "is"
      g.type)
  else
    sameLine
    keyword "is"
    g.type

def typeName (g : Grammar) : Parse Unit := do
  let w ← word
  guard (w != "extends")
  if w == "import" then
    nested '('
  let _ ← many (quiet (do
    sign "."
    let _ ← attempt (rawChar '#')
    let _ ← word))
  let _ ← attempt (do
    sameLine
    g.typeArguments)

def plainType (g : Grammar) : Parse Unit := do
  let t ← peekSign
  match t with
  | "(" => nested '('
  | "[" => nested '['
  | "\x7b" => nested '\x7b'
  | "\x60" => quietTemplate
  | "'" => stringLiteral
  | "\"" => stringLiteral
  | "-" =>
    sign "-"
    numberLiteral
  | _ => numberLiteral <|> g.typeName

def typeOperator : Parse Forest := do
  let w ← word
  guard (["keyof", "unique", "readonly", "infer", "typeof"].contains w)
  guard ((← peekWord) != "" || ["(", "[", "\x7b"].contains (← peekSign))
  return []

def typePart (g : Grammar) : Parse Unit := do
  let _ ← many typeOperator
  g.plainType
  let _ ← many (quiet (do
    sameLine
    nested '['))

def unionType (g : Grammar) : Parse Unit := do
  let bar : Parse Unit := sign "|" <|> sign "&"
  let _ ← attempt bar
  g.typePart
  let _ ← many (quiet (do
    bar
    g.typePart))

def conditionalType (g : Grammar) : Parse Unit := do
  g.unionType
  let _ ← attempt (do
    keyword "extends"
    g.functionType <|> g.unionType
    sign "?"
    g.type
    sign ":"
    g.type)

def typeRule (g : Grammar) : Parse Forest :=
  quiet (g.functionType <|> g.predicateType <|> g.conditionalType)

end Grammar

end LayerLint.TypeScript
