/-
  LayerLint.TypeScript.Function: names of members, patterns, parameters, and what has a body.
-/

import LayerLint.TypeScript.Grammar

namespace LayerLint.TypeScript

open Parse

namespace Grammar

def value (g : Grammar) : Parse Forest := g.parse (.assignment false false)

def initializer (g : Grammar) : Parse Forest := do
  sign "="
  g.value

/-- The name of a member: a word, a literal, a private name or an expression in brackets. -/
def memberName (g : Grammar) : Parse Forest := do
  let t ← peekSign
  match t with
  | "[" =>
    sign "["
    let key ← g.value
    sign "]"
    return key
  | "'" => quiet stringLiteral
  | "\"" => quiet stringLiteral
  | "#" => quiet (do
    sign "#"
    let _ ← word)
  | _ => quiet (do
    let _ ← word) <|> quiet numberLiteral

def memberNameAhead : Parse Bool := do
  let w ← peekWord
  let t ← peekSign
  let n ← look numberLiteral
  return w != "" || ["[", "#", "'", "\"", "*"].contains t || n.isSome

/-- A word in front of a member's name. The same word alone is a name itself. -/
def modifier (words : List String) : Parse Forest := do
  let w ← word
  guard (words.contains w)
  guard (← memberNameAhead)
  if w == "async" then sameLine
  return []

/-! ## Patterns -/

def propertyPattern (g : Grammar) : Parse Forest := do
  if ← sign? "..." then g.parse .binding
  else
    let key ← g.memberName
    let inner ← optional (do
      sign ":"
      g.parse .binding)
    return key ++ inner ++ (← optional g.initializer)

def elementPattern (g : Grammar) : Parse Forest := do
  let _ ← sign? "..."
  let inner ← g.parse .binding
  return inner ++ (← optional g.initializer)

def bindingRule (g : Grammar) : Parse Forest := do
  let t ← peekSign
  match t with
  | "\x7b" => nodeOf .pattern (do
    sign "\x7b"
    commaList g.propertyPattern "\x7d")
  | "[" => nodeOf .pattern (do
    sign "["
    commaList g.elementPattern "]")
  | _ => leaf .identifier name

/-! ## Decorators and parameters -/

def arguments (g : Grammar) : Parse Forest := do
  sign "("
  commaList (do
    let _ ← sign? "..."
    g.value) ")"

/-- `@a.b(c)`, or an expression in parentheses. -/
def decorator (g : Grammar) : Parse Forest := nodeOf .decorator (do
  sign "@"
  let head ← g.arguments <|> quiet (do
    let _ ← word)
  let tail ← many (quiet (do
      sign "."
      let _ ← word) <|>
    quiet (do
      g.typeArguments
      guard ((← peekSign) == "(")) <|>
    g.arguments)
  return head ++ tail)

def parameterModifier : Parse Forest := do
  let w ← word
  guard (["public", "private", "protected", "readonly", "override"].contains w)
  guard ((← peekWord) != "" || ["\x7b", "["].contains (← peekSign))
  return []

def parameter (g : Grammar) : Parse Forest := do
  let decorators ← many g.decorator
  let _ ← many parameterModifier
  let _ ← sign? "..."
  let inner ← g.parse .binding
  let _ ← sign? "?"
  let _ ← attempt g.annotation
  return decorators ++ inner ++ (← optional g.initializer)

def parameters (g : Grammar) : Parse Forest := nodeOf .parameters (do
  sign "("
  commaList g.parameter ")")

def signature (g : Grammar) : Parse Forest := do
  let _ ← attempt g.typeParameters
  let ps ← g.parameters
  let _ ← attempt g.annotation
  return ps

/-! ## Functions -/

/-- A function after its first word: with a body it is of kind `plain` or `generator`, without one a
    signature, which only a declaration may be. -/
def functionTail (g : Grammar) (plain generator : Kind) (bodyNeeded : Bool) : Parse Forest := do
  let star ← sign? "*"
  let _ ← attempt (do
    let _ ← word)
  let head ← g.signature
  if (← peekSign) == "\x7b" then
    let body ← g.parse .block
    return [.node (if star then generator else plain) (head ++ body)]
  else
    guard (!bodyNeeded)
    let _ ← sign? ";"
    return [.node .functionSignature head]

def asyncWord : Parse Unit := do
  keyword "async"
  sameLine
  guard ((← peekWord) == "function")

def functionDeclaration (g : Grammar) : Parse Forest := do
  let _ ← attempt asyncWord
  keyword "function"
  g.functionTail .functionDeclaration .generatorFunctionDeclaration false

def functionExpression (g : Grammar) : Parse Forest := do
  let _ ← attempt asyncWord
  keyword "function"
  g.functionTail .functionExpression .generatorFunction true

/-- A method after its name. Without a body it is a signature. -/
def methodTail (g : Grammar) (key : Forest) : Parse Forest := do
  let head ← g.signature
  if (← peekSign) == "\x7b" then
    let body ← g.parse .block
    return [.node .methodDefinition (key ++ head ++ body)]
  else
    let _ ← sign? ";"
    return [.node .methodSignature (key ++ head)]

def arrowBody (g : Grammar) (noIn : Bool) : Parse Forest := do
  if (← peekSign) == "\x7b" then g.parse .block else g.parse (.assignment noIn false)

/-- The result type of an arrow function, after which the arrow follows. Where a function type would
    take the arrow as its own, the type in brackets before it is the result. -/
def arrowResult (type : Parse Unit) : Parse Unit := do
  sign ":"
  type
  guard ((← peekSign) == "=>")

def arrowHead (g : Grammar) (noColon : Bool) : Parse Forest :=
  leaf .identifier name <|> (do
    let _ ← attempt g.typeParameters
    let ps ← g.parameters
    if !noColon then
      let _ ← attempt (arrowResult g.type <|> arrowResult g.unionType)
    return ps)

def arrow (g : Grammar) (noIn noColon : Bool) : Parse Forest := do
  let rest : Parse Forest := do
    let head ← g.arrowHead noColon
    sameLine
    sign "=>"
    return head ++ (← g.arrowBody noIn)
  nodeOf .arrowFunction ((do
    keyword "async"
    sameLine
    rest) <|> rest)

/-! ## Classes -/

def indexSignature (g : Grammar) : Parse Unit := do
  sign "["
  let _ ← word
  sign ":"
  g.type
  sign "]"
  let _ ← attempt g.annotation
  let _ ← sign? ";"

def classModifiers : List String :=
  ["public", "private", "protected", "static", "abstract", "override", "readonly", "declare",
   "accessor", "async", "get", "set"]

def classMember (g : Grammar) : Parse Forest := do
  let staticBlock : Parse Forest := nodeOf .staticBlock (do
    keyword "static"
    guard ((← peekSign) == "\x7b")
    g.parse .block)
  staticBlock <|> (do
    let _ ← many (modifier classModifiers)
    quiet g.indexSignature <|> (do
      let _ ← sign? "*"
      let key ← g.memberName
      let _ ← sign? "?"
      let _ ← sign? "!"
      if ["(", "<"].contains (← peekSign) then g.methodTail key
      else nodeOf .fieldDefinition (do
        let _ ← attempt g.annotation
        let init ← optional g.initializer
        let _ ← sign? ";"
        return key ++ init)))

def classBody (g : Grammar) : Parse Forest := nodeOf .classBody (do
  sign "\x7b"
  let members ← many (quiet (sign ";") <|> g.decorator <|> g.classMember)
  sign "\x7d"
  return members)

def heritage (g : Grammar) : Parse Forest := do
  let w ← word
  if w == "extends" then
    let base ← g.parse .operand
    let _ ← attempt g.typeArguments
    return base
  else
    guard (w == "implements")
    g.type
    let _ ← many (quiet (do
      sign ","
      g.type))
    return []

def classOf (g : Grammar) (k : Kind) : Parse Forest := nodeOf k (do
  let _ ← keyword? "abstract"
  keyword "class"
  let w ← peekWord
  if w != "" && w != "extends" && w != "implements" then
    let _ ← word
  let _ ← attempt g.typeParameters
  let bases ← many g.heritage
  return bases ++ (← g.classBody))

end Grammar

end LayerLint.TypeScript
