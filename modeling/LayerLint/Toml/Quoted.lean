/-
  LayerLint.Toml.Quoted: quoted texts.

  Double quotes allow escapes and single quotes do not. Three quotes at each end allow line breaks:
  one that follows the opening quotes is dropped, a backslash at the end of a line drops all white
  space after it, and up to two quotes may stand before the closing ones.
-/

import LayerLint.Json.Reader

namespace LayerLint

namespace Toml

open Json (hexValue?)

/-- Control characters, the tab aside, which may stand nowhere. -/
def isForbidden (c : Char) : Bool := (c.toNat < 0x20 && c != '\t') || c.toNat == 0x7f

def isSpace (c : Char) : Bool := c == ' ' || c == '\t'

def afterNewline? : List Char → Option (List Char)
  | '\n' :: rest => some rest
  | '\r' :: '\n' :: rest => some rest
  | _ => none

def numbered? (digits : Nat) (s : List Char) : Option (Char × List Char) := do
  let ds ← (s.take digits).mapM hexValue?
  let n := ds.foldl (fun n d => n * 16 + d) 0
  if ds.length = digits ∧ n.isValidChar then some (Char.ofNat n, s.drop digits) else none

def unescape? : List Char → Option (Char × List Char)
  | [] => none
  | c :: rest =>
    match c with
    | 'b' => some ('\x08', rest)
    | 't' => some ('\t', rest)
    | 'n' => some ('\n', rest)
    | 'f' => some ('\x0c', rest)
    | 'r' => some ('\r', rest)
    | 'e' => some ('\x1b', rest)
    | '"' => some ('"', rest)
    | '\\' => some ('\\', rest)
    | 'x' => numbered? 2 rest
    | 'u' => numbered? 4 rest
    | 'U' => numbered? 8 rest
    | _ => none

/-- A text in double quotes after the opening one. `acc` holds what was read, last character first. -/
def basic (acc : List Char) : (fuel : Nat) → List Char → Option (String × List Char)
  | 0, _ => none
  | _ + 1, [] => none
  | fuel + 1, c :: rest =>
    if c == '"' then some (String.ofList acc.reverse, rest)
    else if c == '\\' then
      match unescape? rest with
      | some (e, rest) => basic (e :: acc) fuel rest
      | none => none
    else if isForbidden c then none
    else basic (c :: acc) fuel rest

def literal (s : List Char) : Option (String × List Char) :=
  match s.span (· != '\'') with
  | (body, _ :: rest) => if body.any isForbidden then none else some (String.ofList body, rest)
  | (_, []) => none

def dropWhite : List Char → List Char
  | '\r' :: '\n' :: rest => dropWhite rest
  | '\n' :: rest => dropWhite rest
  | ' ' :: rest => dropWhite rest
  | '\t' :: rest => dropWhite rest
  | s => s

/-- The text behind a line break that is escaped, and the white space that follows it. -/
def afterJoint? (s : List Char) : Option (List Char) :=
  (afterNewline? (s.dropWhile isSpace)).map dropWhite

/-- The end of a text in triple quotes: the quotes that still belong to it, and what follows. -/
def closing? (quote : Char) (s : List Char) : Option (List Char × List Char) :=
  let n := (s.takeWhile (· == quote)).length
  if n < 3 then none else some (List.replicate (min (n - 3) 2) quote, s.drop (min n 5))

def multiline (quote : Char) (escapes : Bool) (acc : List Char) :
    (fuel : Nat) → List Char → Option (String × List Char)
  | 0, _ => none
  | _ + 1, [] => none
  | fuel + 1, c :: rest =>
    match closing? quote (c :: rest) with
    | some (quotes, after) => some (String.ofList (acc.reverse ++ quotes), after)
    | none =>
      if c == '\\' && escapes then
        match afterJoint? rest with
        | some rest => multiline quote escapes acc fuel rest
        | none =>
          match unescape? rest with
          | some (e, rest) => multiline quote escapes (e :: acc) fuel rest
          | none => none
      else
        match afterNewline? (c :: rest) with
        | some after =>
          let acc := if c == '\r' then '\n' :: c :: acc else c :: acc
          multiline quote escapes acc fuel after
        | none => if isForbidden c then none else multiline quote escapes (c :: acc) fuel rest

def dropNewline (s : List Char) : List Char := (afterNewline? s).getD s

def singleQuoted? : List Char → Option (String × List Char)
  | '"' :: s => basic [] (s.length + 1) s
  | '\'' :: s => literal s
  | _ => none

def quoted? : List Char → Option (String × List Char)
  | '"' :: '"' :: '"' :: s => multiline '"' true [] (s.length + 1) (dropNewline s)
  | '\'' :: '\'' :: '\'' :: s => multiline '\'' false [] (s.length + 1) (dropNewline s)
  | s => singleQuoted? s

end Toml

end LayerLint
