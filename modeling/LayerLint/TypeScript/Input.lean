/-
  LayerLint.TypeScript.Input: source text and its lexical parts.

  A parser reads from an `Input`, fails or gives a value and what is left. There is no list of tokens
  made in advance, since a slash, a brace or a less-than sign means different things in different
  places: the grammar asks for what it expects. Blanks and comments are skipped before each token, and
  whether a line ended among them is known to the rules that depend on it.
-/

import LayerLint.Text.Class

namespace LayerLint.TypeScript

/-- The text that is left, and its length. -/
structure Input where
  rest : List Char
  left : Nat

def Input.ofText (s : List Char) : Input := ⟨s, s.length⟩

abbrev Parse (α : Type) := StateT Input Option α

namespace Parse

/-- Succeeds where `p` fails, with no value and nothing consumed. -/
def attempt {α : Type} (p : Parse α) : Parse (Option α) := fun s =>
  match p s with
  | some (a, t) => some (some a, t)
  | none => some (none, s)

def look {α : Type} (p : Parse α) : Parse (Option α) := fun s => some ((p s).map (·.1), s)

/-- Runs `p` up to `n` times, until it fails or consumes nothing, and joins what it gives. -/
def times {α : Type} (p : Parse (List α)) : (n : Nat) → Parse (List α)
  | 0 => pure []
  | n + 1 => fun s =>
    match p s with
    | some (as, t) =>
      if t.left < s.left then
        match times p n t with
        | some (bs, u) => some (as ++ bs, u)
        | none => some (as, t)
      else some ([], s)
    | none => some ([], s)

def many {α : Type} (p : Parse (List α)) : Parse (List α) := fun s => times p (s.left + 1) s

end Parse

open Parse

/-! ## Characters -/

def isLineEnd (c : Char) : Bool := c == '\n' || c == '\r' || c == '\u2028' || c == '\u2029'

def isGap (c : Char) : Bool :=
  Text.isBlank c || c == '\uFEFF' || c == '\u2060' || c == '\u200B'

def isSign (c : Char) : Bool :=
  ":;\x60\"'@#.,|^&<=>+-*/\\%?!~()[]\x7b\x7d".toList.contains c

def isWordPart (c : Char) : Bool := !(decide (c.toNat < 0x20) || isGap c || isSign c)

def isWordStart (c : Char) : Bool := isWordPart c && !Text.isAsciiDigit c

def anyChar : Parse Char := fun s =>
  match s.rest with
  | [] => none
  | c :: rest => some (c, ⟨rest, s.left - 1⟩)

def peekChar : Parse (Option Char) := fun s => some (s.rest.head?, s)

def takeWhile (p : Char → Bool) : Parse (List Char) := fun s =>
  let taken := s.rest.takeWhile p
  some (taken, ⟨s.rest.drop taken.length, s.left - taken.length⟩)

def chars (cs : List Char) : Parse Unit := fun s =>
  if cs.isPrefixOf s.rest then some ((), ⟨s.rest.drop cs.length, s.left - cs.length⟩) else none

/-! ## Gaps -/

inductive Gap where
  | blank
  | lineComment
  | blockComment

/-- Skips blanks and comments. `broken` tells whether a line has ended so far. -/
def skipGap : (broken : Bool) → Gap → (left : Nat) → List Char → Bool × Input
  | broken, _, left, [] => (broken, ⟨[], left⟩)
  | broken, .lineComment, left, c :: rest =>
    if isLineEnd c then skipGap true .blank (left - 1) rest
    else skipGap broken .lineComment (left - 1) rest
  | broken, .blockComment, left, '*' :: '/' :: rest => skipGap broken .blank (left - 2) rest
  | broken, .blockComment, left, c :: rest =>
    skipGap (broken || isLineEnd c) .blockComment (left - 1) rest
  | broken, .blank, left, '/' :: '/' :: rest => skipGap broken .lineComment (left - 2) rest
  | broken, .blank, left, '/' :: '*' :: rest => skipGap broken .blockComment (left - 2) rest
  | broken, .blank, left, c :: rest =>
    if isGap c then skipGap (broken || isLineEnd c) .blank (left - 1) rest
    else (broken, ⟨c :: rest, left⟩)

def gap : Parse Bool := fun s => some (skipGap false .blank s.left s.rest)

/-- Whether a line ends before the next token. -/
def newlineAhead : Parse Bool := fun s => some ((skipGap false .blank s.left s.rest).1, s)

/-! ## Words and signs -/

def word : Parse String := do
  let _ ← gap
  let c ← peekChar
  match c with
  | some c => guard (isWordStart c || c == '\\')
  | none => failure
  let w ← takeWhile fun c => isWordPart c || c == '\\'
  return String.ofList w

def peekWord : Parse String := return ((← look word).getD "")

def keyword (w : String) : Parse Unit := do
  let v ← word
  guard (v == w)

/-- The signs of the language, longer ones before their beginnings. -/
def signs : List (List Char) :=
  [">>>=", "...", "===", "!==", "**=", "<<=", ">>=", ">>>", "&&=", "||=", "??=", "=>", "==", "!=",
   "<=", ">=", "&&", "||", "??", "?.", "++", "--", "+=", "-=", "*=", "/=", "%=", "&=", "|=", "^=",
   "<<", ">>", "**", "\x7b", "\x7d", "(", ")", "[", "]", ";", ",", "<", ">", "+", "-", "*", "/", "%",
   "&", "|", "^", "!", "~", "?", ":", "=", "@", ".", "#", "\x60", "\"", "'"].map String.toList

/-- The longest sign that a text starts with. Before a digit, `?.` is a question mark and a point. -/
def signOf (s : List Char) : List Char :=
  match signs.find? (·.isPrefixOf s) with
  | some sign =>
    if sign == ['?', '.'] && (s[2]?).any Text.isAsciiDigit then ['?'] else sign
  | none => []

/-- The next token if it is a sign, without consuming it; the empty text if it is not. -/
def peekSign : Parse String := fun s =>
  some (String.ofList (signOf (skipGap false .blank s.left s.rest).2.rest), s)

/-- Exactly this sign, which is not the beginning of a longer one. -/
def sign (t : String) : Parse Unit := do
  let _ ← gap
  let s ← get
  let found := signOf s.rest
  guard (found == t.toList)
  chars found

def sign? (t : String) : Parse Bool := return (← attempt (sign t)).isSome

def keyword? (w : String) : Parse Bool := return (← attempt (keyword w)).isSome

/-- This character, even as the beginning of a longer sign. -/
def rawChar (c : Char) : Parse Unit := do
  let _ ← gap
  let d ← anyChar
  guard (d == c)

def atEnd : Parse Bool := fun s => some ((skipGap false .blank s.left s.rest).2.rest.isEmpty, s)

/-! ## Literals -/

/-- The rest of a string up to its quote, after which reading goes on. A backslash takes the next
    character with it. -/
def skipString (quote : Char) : (left : Nat) → List Char → Option Input
  | _, [] => none
  | left, '\\' :: _ :: rest => skipString quote (left - 2) rest
  | left, c :: rest => if c == quote then some ⟨rest, left - 1⟩ else skipString quote (left - 1) rest

def stringLiteral : Parse Unit := do
  let _ ← gap
  let q ← anyChar
  guard (q == '\'' || q == '"')
  let s ← get
  match skipString q s.left s.rest with
  | some t => set t
  | none => failure

def skipNumber : (previous : Char) → (left : Nat) → List Char → Input
  | _, left, [] => ⟨[], left⟩
  | p, left, c :: rest =>
    if isWordPart c || c == '.' || ((c == '+' || c == '-') && (p == 'e' || p == 'E')) then
      skipNumber c (left - 1) rest
    else ⟨c :: rest, left⟩

/-- A number. In hexadecimal, `e` is a digit and a sign after it is an operator. -/
def numberLiteral : Parse Unit := do
  let _ ← gap
  let s ← get
  match s.rest with
  | c :: d :: _ =>
    guard (Text.isAsciiDigit c || (c == '.' && Text.isAsciiDigit d))
    if c == '0' && (d == 'x' || d == 'X') then
      let _ ← takeWhile isWordPart
    else set (skipNumber ' ' s.left s.rest)
  | c :: _ =>
    guard (Text.isAsciiDigit c)
    let _ ← anyChar
  | [] => failure

def skipRegex : (inClass : Bool) → (left : Nat) → List Char → Option Input
  | _, _, [] => none
  | inClass, left, '\\' :: _ :: rest => skipRegex inClass (left - 2) rest
  | inClass, left, c :: rest =>
    if isLineEnd c then none
    else if c == '/' && !inClass then some ⟨rest, left - 1⟩
    else skipRegex (if c == '[' then true else if c == ']' then false else inClass) (left - 1) rest

def regexLiteral : Parse Unit := do
  rawChar '/'
  let s ← get
  match skipRegex false s.left s.rest with
  | some t =>
    set t
    let _ ← takeWhile isWordPart
  | none => failure

end LayerLint.TypeScript
