/-
  LayerLint.TypeScript.Expression: the rules for expressions and markup.

  Operators are read as a flat row of operands: how they bind makes no difference to the functions
  they contain. A less-than sign after an operand is tried as the start of type arguments first, and
  stands for itself when no call, template or end of the expression follows them.
-/

import LayerLint.TypeScript.Function

namespace LayerLint.TypeScript

open Parse

namespace Grammar

def templateTail (g : Grammar) : (fuel : Nat) → Parse Forest
  | 0 => failure
  | fuel + 1 => do
    let ended ← templateText
    if ended then return []
    else
      let inner ← g.parse (.expression false)
      rawChar '\x7d'
      return inner ++ (← g.templateTail fuel)

def template (g : Grammar) : Parse Forest := nodeOf .template (do
  rawChar '\x60'
  let s ← get
  g.templateTail (s.left + 1))

def property (g : Grammar) : Parse Forest := do
  if ← sign? "..." then nodeOf .spread g.value
  else
    let _ ← many (modifier ["async", "get", "set"])
    let _ ← sign? "*"
    let key ← g.memberName
    if ["(", "<"].contains (← peekSign) then g.methodTail key
    else nodeOf .pair (do
      let value ← optional (do
        sign ":"
        g.value)
      return key ++ value ++ (← optional g.initializer))

def object (g : Grammar) : Parse Forest := nodeOf .object (do
  sign "\x7b"
  commaList g.property "\x7d")

def array (g : Grammar) : Parse Forest := nodeOf .array (do
  sign "["
  commaList (do
    let _ ← sign? "..."
    g.value) "]")

/-- A word that is a name, or one that starts an operand of its own. -/
def wordOperand (g : Grammar) : Parse Forest := do
  let w ← peekWord
  match w with
  | "function" => g.functionExpression
  | "class" => g.classOf .classExpression
  | "new" => nodeOf .call (do
    keyword "new"
    if ← sign? "." then
      quiet (do
        let _ ← word)
    else g.parse .operand)
  | "async" => g.functionExpression <|> leaf .identifier name
  | _ => leaf .identifier name

def plainOperand (g : Grammar) : Parse Forest := do
  let t ← peekSign
  match t with
  | "(" => nodeOf .parenthesized (do
    sign "("
    let inner ← g.parse (.expression false)
    sign ")"
    return inner)
  | "[" => g.array
  | "\x7b" => g.object
  | "\x60" => g.template
  | "'" => leaf .literal stringLiteral
  | "\"" => leaf .literal stringLiteral
  | "/" => leaf .literal regexLiteral
  | "/=" => leaf .literal regexLiteral
  | "#" => leaf .identifier (do
    sign "#"
    let _ ← word)
  | "@" =>
    let decorators ← many g.decorator
    return decorators ++ (← g.classOf .classExpression)
  | "<" => if g.markup then g.parse .element else failure
  | _ => leaf .literal numberLiteral <|> g.wordOperand

/-- Type arguments that are followed by a call, a template, or the end of the expression. -/
def appliedTypes (g : Grammar) : Parse Unit := do
  guard (["<", "<<"].contains (← peekSign))
  g.typeArguments
  guard (["(", "\x60", ")", "]", "\x7d", ",", ";", ":"].contains (← peekSign) || (← atEnd))

/-- What may follow an operand: an access, a call, a template, a mark. -/
def operandTail (g : Grammar) : Parse Forest := do
  let access : Parse Forest := quiet (do
    let _ ← sign? "#"
    let _ ← word)
  let index : Parse Forest := do
    sign "["
    let inner ← g.parse (.expression false)
    sign "]"
    return inner
  let t ← peekSign
  match t with
  | "." =>
    sign "."
    access
  | "?." =>
    sign "?."
    index <|> g.arguments <|> g.template <|> access
  | "[" => index
  | "(" => g.arguments
  | "\x60" => g.template
  | "!" => quiet (do
    sameLine
    sign "!")
  | "++" => quiet (do
    sameLine
    sign "++")
  | "--" => quiet (do
    sameLine
    sign "--")
  | _ => quiet g.appliedTypes

def operandRule (g : Grammar) : Parse Forest := do
  let head ← g.plainOperand
  let tail ← many g.operandTail
  return if tail.isEmpty then head else [.node .member (head ++ tail)]

/-- `<T>x`, where angle brackets are not markup. -/
def assertion (g : Grammar) : Parse Forest := do
  guard (!g.markup)
  rawChar '<'
  g.type
  rawChar '>'
  g.parse .unary

def unaryRule (g : Grammar) : Parse Forest := do
  let t ← peekSign
  if ["!", "~", "+", "-", "++", "--"].contains t then
    nodeOf .operation (do
      sign t
      g.parse .unary)
  else
    let w ← peekWord
    if ["typeof", "void", "delete"].contains w then
      nodeOf .operation (do
        keyword w
        g.parse .unary)
    else if w == "await" then
      nodeOf .operation (do
        keyword w
        g.parse .unary) <|> g.parse .operand
    else g.assertion <|> g.parse .operand

def binarySigns : List String :=
  ["**", "*", "/", "%", "+", "-", "<<", ">>", ">>>", "<", ">", "<=", ">=", "==", "!=", "===", "!==",
   "&", "|", "^", "&&", "||", "??"]

def assignmentSigns : List String :=
  ["=", "+=", "-=", "*=", "/=", "%=", "**=", "<<=", ">>=", ">>>=", "&=", "|=", "^=", "&&=", "||=",
   "??="]

def operatorTail (g : Grammar) (noIn : Bool) : Parse Forest := do
  let t ← peekSign
  if binarySigns.contains t then
    sign t
    g.parse .unary
  else
    let w ← peekWord
    if w == "instanceof" || (w == "in" && !noIn) then
      keyword w
      g.parse .unary
    else
      guard (w == "as" || w == "satisfies")
      sameLine
      keyword w
      quiet g.type

def operands (g : Grammar) (noIn : Bool) : Parse Forest := do
  let head ← g.parse .unary
  let tail ← many (g.operatorTail noIn)
  return if tail.isEmpty then head else [.node .operation (head ++ tail)]

/-- The branches of a conditional after its question mark. The colon is looked for first with and
    then without result types in arrow functions. -/
def branches (g : Grammar) (noIn : Bool) : Parse Forest := do
  let first (noColon : Bool) : Parse Forest := do
    let a ← g.parse (.assignment false noColon)
    sign ":"
    return a
  let a ← first false <|> first true
  return a ++ (← g.parse (.assignment noIn false))

def yieldExpression (g : Grammar) (noIn : Bool) : Parse Forest := nodeOf .operation (do
  keyword "yield"
  notSign ["=>", "=", ".", "?", ":"]
  let _ ← sign? "*"
  optional (do
    sameLine
    g.parse (.assignment noIn false)))

def assignmentRule (g : Grammar) (noIn noColon : Bool) : Parse Forest :=
  g.arrow noIn noColon <|> g.yieldExpression noIn <|> (do
    let head ← g.operands noIn
    let t ← peekSign
    if t == "?" then
      sign "?"
      return [.node .conditional (head ++ (← g.branches noIn))]
    else if assignmentSigns.contains t then
      sign t
      return [.node .assignment (head ++ (← g.parse (.assignment noIn false)))]
    else return head)

def expressionRule (g : Grammar) (noIn : Bool) : Parse Forest := do
  let head ← g.parse (.assignment noIn false)
  let tail ← many (do
    sign ","
    g.parse (.assignment noIn false))
  return head ++ tail

/-! ## Markup -/

def tagName : Parse Unit := do
  let _ ← gap
  let w ← takeWhile fun c => isWordPart c || c == '-' || c == '.' || c == ':'
  guard (!w.isEmpty)

def container (g : Grammar) : Parse Forest := do
  rawChar '\x7b'
  let _ ← sign? "..."
  let inner ← optional (g.parse (.expression false))
  rawChar '\x7d'
  return inner

/-- A string in an attribute, in which a backslash stands for itself. -/
def attributeString : Parse Unit := do
  let _ ← gap
  let q ← anyChar
  guard (q == '\'' || q == '"')
  let _ ← takeWhile (· != q)
  let _ ← anyChar

def tagAttribute (g : Grammar) : Parse Forest := nodeOf .attribute (g.container <|> (do
  tagName
  optional (do
    sign "="
    quiet attributeString <|> g.container <|> g.parse .element)))

def child (g : Grammar) : Parse Forest := do
  match ← peekChar with
  | some '\x7b' => g.container
  | some '<' => g.parse .element
  | _ => quiet (do
    let text ← takeWhile fun c => c != '<' && c != '\x7b'
    guard (!text.isEmpty))

def elementRule (g : Grammar) : Parse Forest := nodeOf .element (do
  rawChar '<'
  let named ← attempt tagName
  let attributes ← if named.isSome then do
      let _ ← attempt g.typeArguments
      many g.tagAttribute
    else pure []
  let closed ← attempt (do
    rawChar '/'
    rawChar '>')
  if closed.isSome then return attributes
  else
    rawChar '>'
    let children ← many g.child
    rawChar '<'
    rawChar '/'
    let _ ← attempt tagName
    rawChar '>'
    return attributes ++ children)

end Grammar

end LayerLint.TypeScript
