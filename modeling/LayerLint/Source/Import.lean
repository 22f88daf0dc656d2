/-
  LayerLint.Source.Import: the imports a file names.

  The scan is lexical. It knows static imports and re-exports (`import ... from 's'`), imports for
  their effect alone (`import 's'`), and the calls `require('s')` and `import('s')`. A specifier is
  found where it is written, so the imports come in the order of the text.
-/

import LayerLint.Pattern.Search

namespace LayerLint

open Text (isSpaceOrTab isBlank)

/-- A specifier as written, and the line it stands on, counted from one. -/
structure Import where
  specifier : String
  line : Nat
  deriving DecidableEq, Repr

def Import.isRelative (i : Import) : Bool := i.specifier.toList.head? == some '.'

namespace Source

def isQuote (c : Char) : Bool := c == '\'' || c == '"'

def isBacktick (c : Char) : Bool := c == '\x60'

open Pattern

def specifier : Pattern := oneOrMore fun c => !(isQuote c || c == '\n')

/-- `import a from 's'`, `export * from 's'`: what stands between may run over several lines, but
    holds no semicolon and no quote. -/
def importFrom : Extractor where
  lead := inOrder
    [lineStart, zeroOrMore isSpaceOrTab, oneOf (text "import") [text "export"], wordEdge,
     run (fun c => !(c == ';' || isQuote c || isBacktick c)) 0 none .lazy,
     wordEdge, text "from", zeroOrMore isSpaceOrTab, one isQuote]
  body := specifier
  trail := one isQuote

/-- `import 's'`. -/
def importBare : Extractor where
  lead := inOrder
    [lineStart, zeroOrMore isSpaceOrTab, text "import", zeroOrMore isSpaceOrTab, one isQuote]
  body := specifier
  trail := one isQuote

/-- `require('s')` and `import('s')`. -/
def importCall : Extractor where
  lead := inOrder
    [wordEdge, oneOf (text "require") [text "import"], zeroOrMore isBlank, text "(",
     zeroOrMore isBlank, one isQuote]
  body := specifier
  trail := inOrder [one isQuote, zeroOrMore isBlank, text ")"]

/-- Places in order of their distance from the start; equal ones keep their order. -/
def inTextOrder {α : Type} (found : List (Nat × α)) : List (Nat × α) :=
  found.mergeSort fun a b => decide (a.1 ≤ b.1)

/-- Of neighbours at the same place only the first, where `last` is the place just before. -/
def dropSamePlace {α : Type} (last : Option Nat) : List (Nat × α) → List (Nat × α)
  | [] => []
  | f :: rest =>
    if last = some f.1 then dropSamePlace last rest else f :: dropSamePlace (some f.1) rest

def importsOf (e : Extractor) (text : List Char) : List (Nat × Import) :=
  (e.finds text).map fun f => (f.offset, ⟨String.ofList f.content, f.line⟩)

def imports (content : String) : List Import :=
  let text := content.toList
  let found := [importFrom, importBare, importCall].flatMap fun e => importsOf e text
  (dropSamePlace none (inTextOrder found)).map (·.2)

end Source

end LayerLint
