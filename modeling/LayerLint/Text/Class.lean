/-
  LayerLint.Text.Class: the character classes the linter reads text by.

  `isWord` is the class of word characters whose borders end a word, `isAlphanumeric` the class of
  characters that may stand in a graph node's name, `isBlank` the white space that is trimmed.
  Each answers for ASCII by comparison and asks a table for the rest.
-/

import LayerLint.Text.Alphabetic

namespace LayerLint.Text

abbrev CharSet := Char → Bool

def isAsciiDigit (c : Char) : Bool := decide ('0' ≤ c) && decide (c ≤ '9')

def isAsciiUpper (c : Char) : Bool := decide ('A' ≤ c) && decide (c ≤ 'Z')

def isAsciiLower (c : Char) : Bool := decide ('a' ≤ c) && decide (c ≤ 'z')

def isAsciiLetter (c : Char) : Bool := isAsciiUpper c || isAsciiLower c

def isAsciiAlphanumeric (c : Char) : Bool := isAsciiLetter c || isAsciiDigit c

def isAscii (c : Char) : Bool := decide (c.toNat < 128)

/-- Word characters: letters, marks, decimal digits, connector punctuation and the two joiners. -/
def isWord (c : Char) : Bool :=
  if isAscii c then isAsciiAlphanumeric c || c == '_'
  else alphabetic.has c || mark.has c || decimalDigit.has c || connector.has c ||
    c == '\u200C' || c == '\u200D'

/-- Letters and numbers of every kind. -/
def isAlphanumeric (c : Char) : Bool :=
  if isAscii c then isAsciiAlphanumeric c
  else alphabetic.has c || decimalDigit.has c || otherNumber.has c

/-- White space: blanks, tabs and the line-breaking characters of every script. -/
def isBlank (c : Char) : Bool :=
  c == ' ' || (decide ('\t' ≤ c) && decide (c ≤ '\r')) || c == '\u0085' || c == '\u00A0' ||
    c == '\u1680' || (decide ('\u2000' ≤ c) && decide (c ≤ '\u200A')) || c == '\u2028' ||
    c == '\u2029' || c == '\u202F' || c == '\u205F' || c == '\u3000'

def isSpaceOrTab (c : Char) : Bool := c == ' ' || c == '\t'

end LayerLint.Text
