/-
  LayerLint.Source.Export: the names a file exports.

  Three forms are found by a lexical scan: declarations (`export class A`), lists (`export { a, b as
  c }`, where the name after `as` counts), and names exported as the default. The names come in the
  order of the text; the items of a list are placed at its start, one byte apart.
-/

import LayerLint.Source.Import

namespace LayerLint

open Text (isSpaceOrTab)

namespace Source

open Pattern

def isNameStart (c : Char) : Bool := Text.isAsciiLetter c || c == '_' || c == '$'

def isNamePart (c : Char) : Bool := Text.isWord c || c == '$'

def exportedName : Pattern := seq (one isNameStart) (zeroOrMore isNamePart)

/-- A word and the blanks after it, both of which may be missing. -/
def modifier (word : String) : Pattern := optional (seq (text word) (oneOrMore isSpaceOrTab))

def exportWord : Pattern :=
  inOrder [lineStart, zeroOrMore isSpaceOrTab, text "export", oneOrMore isSpaceOrTab]

/-- `export default abstract class A` and the like. -/
def exportDeclaration : Extractor where
  lead := inOrder
    [exportWord, modifier "default", modifier "declare", modifier "abstract", modifier "async",
     oneOf (text "class")
       [text "interface", text "type", text "enum", seq (text "function") (optional (text "*")),
        text "const", text "let", text "var", text "namespace"],
     oneOrMore isSpaceOrTab]
  body := exportedName
  trail := empty

/-- The text between the braces of `export { ... }`. -/
def exportList : Extractor where
  lead := inOrder [exportWord, modifier "type", text "\x7b"]
  body := zeroOrMore fun c => c != '\x7d'
  trail := text "\x7d"

/-- `export default name;`, alone on its line. -/
def exportDefault : Extractor where
  lead := inOrder [exportWord, text "default", oneOrMore isSpaceOrTab]
  body := exportedName
  trail := inOrder
    [zeroOrMore isSpaceOrTab, optional (text ";"), zeroOrMore isSpaceOrTab, lineEnd]

def itemName? (item : List Char) : Option (List Char) :=
  match Text.trim (Text.dropAll "type ".toList (Text.trim item)) with
  | [] => none
  | item =>
    match Text.cut? " as ".toList item with
    | some (_, other) => some (Text.trim other)
    | none => some item

/-- The names of a list, the one of item `i` placed `i` bytes after the start. -/
def listNames (f : Find) : List (Nat × String) :=
  ((Text.split (· == ',') f.content).zipIdx).filterMap fun (item, i) =>
    (itemName? item).map fun name => (f.offset + i, String.ofList name)

def namesOf (e : Extractor) (text : List Char) : List (Nat × String) :=
  (e.finds text).map fun f => (f.offset, String.ofList f.content)

/-- Words that start a declaration, which `exportDeclaration` reads. -/
def declarationWords : List String := ["class", "function", "abstract", "async", "interface"]

def exports (content : String) : List String :=
  let text := content.toList
  let found :=
    namesOf exportDeclaration text ++
    (exportList.finds text).flatMap listNames ++
    (namesOf exportDefault text).filter fun f => !declarationWords.contains f.2
  (inTextOrder found).map (·.2)

end Source

end LayerLint
