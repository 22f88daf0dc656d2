/-
  LayerLint.TypeScript.Parser: the tree of a source text, and the functions in it.

  `grammar` ties the rules together: a goal is parsed by its rule, which reaches the other rules one
  step deeper. Between two characters of the text at most a dozen rules are entered, so a depth in
  proportion to the length of the text is never used up.
-/

import LayerLint.TypeScript.Statement

namespace LayerLint.TypeScript

def Grammar.rule (g : Grammar) : Goal → Parse Forest
  | .statement => g.statementRule
  | .block => g.blockRule
  | .expression noIn => g.expressionRule noIn
  | .assignment noIn noColon => g.assignmentRule noIn noColon
  | .unary => g.unaryRule
  | .operand => g.operandRule
  | .type => g.typeRule
  | .binding => g.bindingRule
  | .element => g.elementRule

/-- The grammar whose rules may be nested up to the given depth. -/
def grammar (markup : Bool) : (depth : Nat) → Grammar
  | 0 => ⟨markup, fun _ => failure⟩
  | depth + 1 => ⟨markup, fun goal => (grammar markup depth).rule goal⟩

/-- A first line that names an interpreter is no part of the program. -/
def dropShebang (s : List Char) : List Char :=
  match s with
  | '#' :: '!' :: rest => rest.dropWhile (!isLineEnd ·)
  | _ => s

def parse (markup : Bool) (text : String) : Tree Kind :=
  let s := dropShebang text.toList
  let g := grammar markup (16 * s.length + 64)
  match g.program (.ofText s) with
  | some (forest, _) => .node .program forest
  | none => .node .program []

def hasMarkup (path : String) : Bool :=
  let p := path.toList
  ".tsx".toList.isSuffixOf p || ".jsx".toList.isSuffixOf p

def countFunctions (path content : String) : Nat :=
  (parse (hasMarkup path) content).countKinds Kind.isFunction

end LayerLint.TypeScript
