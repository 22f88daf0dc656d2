/-
  LayerLint.TypeScript.Statement: the rules for statements and declarations.

  A semicolon at the end of a statement is taken if it is there and never missed. Text that fits no
  rule is passed over character by character as an `error`, so every text has a tree.
-/

import LayerLint.TypeScript.Expression

namespace LayerLint.TypeScript

open Parse

namespace Grammar

def semicolon : Parse Unit := do
  let _ ← sign? ";"

/-- A statement, or one character of an error, unless the block or the text ends. -/
def statementOrError (g : Grammar) : Parse Forest := do
  notSign ["\x7d"]
  guard (!(← atEnd))
  g.parse .statement <|> leaf .error (do
    let _ ← gap
    let _ ← anyChar)

def blockRule (g : Grammar) : Parse Forest := nodeOf .block (do
  sign "\x7b"
  let body ← many g.statementOrError
  sign "\x7d"
  return body)

def condition (g : Grammar) : Parse Forest := do
  sign "("
  let inner ← g.parse (.expression false)
  sign ")"
  return inner

/-! ## Declarations -/

def declarator (g : Grammar) (noIn : Bool) : Parse Forest := do
  let inner ← g.parse .binding
  let _ ← sign? "!"
  let _ ← attempt g.annotation
  let init ← optional (do
    sign "="
    g.parse (.assignment noIn false))
  return inner ++ init

/-- `const a = 1, b: T`. -/
def bindings (g : Grammar) (noIn : Bool) : Parse Forest := nodeOf .variableDeclaration (do
  let w ← word
  guard (["var", "let", "const", "using"].contains w)
  let head ← g.declarator noIn
  let tail ← many (do
    sign ","
    g.declarator noIn)
  return head ++ tail)

def variableStatement (g : Grammar) : Parse Forest := do
  let decl ← g.bindings false
  semicolon
  return decl

def enumDeclaration (g : Grammar) : Parse Forest := nodeOf .enumDeclaration (do
  let _ ← keyword? "const"
  keyword "enum"
  let _ ← word
  sign "\x7b"
  commaList (do
    let key ← g.memberName
    return key ++ (← optional g.initializer)) "\x7d")

def interfaceDeclaration (g : Grammar) : Parse Forest := leaf .interfaceDeclaration (do
  keyword "interface"
  let _ ← word
  let _ ← attempt g.typeParameters
  let _ ← attempt (do
    keyword "extends"
    g.type
    let _ ← many (quiet (do
      sign ","
      g.type)))
  nested '\x7b')

def typeAlias (g : Grammar) : Parse Forest := leaf .typeAlias (do
  keyword "type"
  let _ ← word
  let _ ← attempt g.typeParameters
  sign "="
  g.type
  semicolon)

/-- `namespace A.B { }`, `module 'm' { }`, `global { }`. -/
def moduleDeclaration (g : Grammar) : Parse Forest := nodeOf .moduleDeclaration (do
  let w ← word
  guard (["namespace", "module", "global"].contains w)
  if w != "global" then
    stringLiteral <|> (do
      sameLine
      let _ ← word
      let _ ← many (quiet (do
        sign "."
        let _ ← word)))
  if (← peekSign) == "\x7b" then g.parse .block
  else
    guard (w == "module")
    semicolon
    return [])

def ambientDeclaration (g : Grammar) : Parse Forest := nodeOf .ambientDeclaration (do
  keyword "declare"
  sameLine
  guard ((← peekWord) != "")
  g.parse .statement)

def classDeclaration (g : Grammar) : Parse Forest := g.classOf .classDeclaration

/-! ## Imports and exports -/

def importAttributes : Parse Unit := do
  let w ← word
  guard (w == "with" || w == "assert")
  nested '\x7b'

def specifier : Parse Unit := do
  stringLiteral
  let _ ← attempt importAttributes
  semicolon

def importStatement (g : Grammar) : Parse Forest := nodeOf .importStatement (do
  keyword "import"
  notSign ["(", "."]
  quiet specifier <|> (do
    let _ ← many (quiet (do
      let _ ← word) <|> quiet (sign ",") <|> quiet (sign "*") <|> quiet (nested '\x7b'))
    quiet specifier <|> (do
      let target ← g.initializer
      semicolon
      return target)))

def fromClause : Parse Unit := do
  keyword "from"
  specifier

def exportDefault (g : Grammar) : Parse Forest := do
  keyword "default"
  g.functionDeclaration <|> g.classDeclaration <|> g.interfaceDeclaration <|> (do
    guard ((← peekSign) == "@")
    g.parse .statement) <|> (do
    let value ← g.value
    semicolon
    return value)

def exportClause : Parse Unit := do
  let _ ← attempt (do
    keyword "type"
    guard (["\x7b", "*"].contains (← peekSign)))
  if ← sign? "*" then
    let _ ← attempt (do
      keyword "as"
      stringLiteral <|> (do
        let _ ← word))
    fromClause
  else
    nested '\x7b'
    fromClause <|> semicolon

def exportStatement (g : Grammar) : Parse Forest := nodeOf .exportStatement (do
  keyword "export"
  g.exportDefault <|> (do
    let value ← g.initializer
    semicolon
    return value) <|>
  quiet (do
    keyword "as"
    keyword "namespace"
    let _ ← word
    semicolon) <|>
  quiet exportClause <|> g.parse .statement)

/-! ## Control flow -/

def ifStatement (g : Grammar) : Parse Forest := nodeOf .ifStatement (do
  keyword "if"
  let test ← g.condition
  let yes ← g.parse .statement
  let no ← optional (do
    keyword "else"
    g.parse .statement)
  return test ++ yes ++ no)

def forHead (g : Grammar) : Parse Forest := do
  let init ← optional (g.bindings true <|> g.parse (.expression true))
  let each : Parse Forest := do
    let w ← word
    guard (w == "of" || w == "in")
    g.parse (.expression false)
  let counted : Parse Forest := do
    sign ";"
    let test ← optional (g.parse (.expression false))
    sign ";"
    let next ← optional (g.parse (.expression false))
    return test ++ next
  return init ++ (← each <|> counted)

def forStatement (g : Grammar) : Parse Forest := nodeOf .loopStatement (do
  keyword "for"
  let _ ← keyword? "await"
  sign "("
  let head ← g.forHead
  sign ")"
  return head ++ (← g.parse .statement))

def whileStatement (g : Grammar) : Parse Forest := nodeOf .loopStatement (do
  let w ← word
  guard (w == "while" || w == "with")
  let test ← g.condition
  return test ++ (← g.parse .statement))

def doStatement (g : Grammar) : Parse Forest := nodeOf .loopStatement (do
  keyword "do"
  let body ← g.parse .statement
  keyword "while"
  let test ← g.condition
  semicolon
  return body ++ test)

def switchCase (g : Grammar) : Parse Forest := do
  let w ← word
  let test ← if w == "case" then g.parse (.expression false)
    else do
      guard (w == "default")
      pure []
  sign ":"
  let body ← many (do
    let next ← peekWord
    guard (next != "case" && next != "default")
    g.statementOrError)
  return test ++ body

def switchStatement (g : Grammar) : Parse Forest := nodeOf .switchStatement (do
  keyword "switch"
  let subject ← g.condition
  sign "\x7b"
  let cases ← many g.switchCase
  sign "\x7d"
  return subject ++ cases)

def tryStatement (g : Grammar) : Parse Forest := nodeOf .tryStatement (do
  keyword "try"
  let body ← g.parse .block
  let handler ← optional (do
    keyword "catch"
    let parameter ← optional (do
      sign "("
      let inner ← g.parse .binding
      let _ ← attempt g.annotation
      sign ")"
      return inner)
    return parameter ++ (← g.parse .block))
  let final ← optional (do
    keyword "finally"
    g.parse .block)
  return body ++ handler ++ final)

def jumpStatement (g : Grammar) : Parse Forest := nodeOf .jumpStatement (do
  let w ← word
  guard (["return", "throw", "break", "continue", "debugger"].contains w)
  let value ← optional (do
    sameLine
    g.parse (.expression false))
  semicolon
  return value)

def labeledStatement (g : Grammar) : Parse Forest := nodeOf .labeledStatement (do
  name
  sign ":"
  g.parse .statement)

def expressionStatement (g : Grammar) : Parse Forest := nodeOf .expressionStatement (do
  let inner ← g.parse (.expression false)
  semicolon
  return inner)

/-- A statement that starts with a word that is not always a keyword, or an expression. -/
def openStatement (g : Grammar) : Parse Forest :=
  g.labeledStatement <|> g.expressionStatement

def statementRule (g : Grammar) : Parse Forest := do
  let t ← peekSign
  match t with
  | "\x7b" => g.parse .block
  | ";" => leaf .emptyStatement (sign ";")
  | "@" =>
    let decorators ← many g.decorator
    return decorators ++ (← g.parse .statement)
  | _ =>
    match ← peekWord with
    | "function" => g.functionDeclaration
    | "async" => g.functionDeclaration <|> g.openStatement
    | "class" => g.classDeclaration
    | "abstract" => g.classDeclaration <|> g.openStatement
    | "var" => g.variableStatement
    | "const" => g.enumDeclaration <|> g.variableStatement
    | "let" => g.variableStatement <|> g.openStatement
    | "using" => g.variableStatement <|> g.openStatement
    | "if" => g.ifStatement
    | "for" => g.forStatement
    | "while" => g.whileStatement
    | "with" => g.whileStatement
    | "do" => g.doStatement
    | "switch" => g.switchStatement
    | "try" => g.tryStatement
    | "return" => g.jumpStatement
    | "throw" => g.jumpStatement
    | "break" => g.jumpStatement
    | "continue" => g.jumpStatement
    | "debugger" => g.jumpStatement
    | "import" => g.importStatement <|> g.openStatement
    | "export" => g.exportStatement
    | "interface" => g.interfaceDeclaration <|> g.openStatement
    | "type" => g.typeAlias <|> g.openStatement
    | "enum" => g.enumDeclaration
    | "namespace" => g.moduleDeclaration <|> g.openStatement
    | "module" => g.moduleDeclaration <|> g.openStatement
    | "global" => g.moduleDeclaration <|> g.openStatement
    | "declare" => g.ambientDeclaration <|> g.openStatement
    | _ => g.openStatement

def program (g : Grammar) : Parse Forest :=
  many (g.statementOrError <|> leaf .error (sign "\x7d"))

end Grammar

end LayerLint.TypeScript
