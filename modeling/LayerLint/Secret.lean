/-
  LayerLint.Secret: credentials written into the text.

  Each line is tried against the kinds of secrets in order, and the first kind that occurs in it is
  reported, at the place of its leftmost match. So a line gives at most one finding.

  `folded` matches letters in both cases. Two characters outside ASCII fold to ASCII letters and match
  them too: the long s and the kelvin sign.
-/

import LayerLint.Pattern.Search
import LayerLint.Text.Lowercase

namespace LayerLint

open Text (isBlank isWord isAsciiDigit isAsciiUpper isAsciiAlphanumeric)

namespace Pattern

/-- Whether a character is the given small letter in some case. -/
def isLetterFold (letter c : Char) : Bool :=
  c == letter || Text.lowerAscii c == letter ||
    (letter == 's' && c == '\u017F') || (letter == 'k' && c == '\u212A')

def folded (s : String) : Pattern := inOrder (s.toList.map fun c => one (isLetterFold c))

end Pattern

/-- A secret found in a file. Line and column are counted from one, the column in characters. -/
structure SecretFinding where
  line : Nat
  column : Nat
  kind : String
  message : String
  deriving DecidableEq, Repr

namespace Secret

open Pattern

def isQuote (c : Char) : Bool := c == '\'' || c == '"' || c == '\x60'

def assignment : Pattern :=
  inOrder [zeroOrMore isBlank, one fun c => c == ':' || c == '=', zeroOrMore isBlank]

/-- A low line or a hyphen, or nothing. -/
def joint : Pattern := optional (one fun c => c == '_' || c == '-')

def assigned (name value : Pattern) : Pattern :=
  inOrder [name, assignment, one isQuote, value, one isQuote]

def apiKey : Pattern :=
  assigned (oneOf (inOrder [folded "api", joint, folded "key"]) [folded "apikey"])
    (atLeast 20 fun c => isWord c || c == '-')

def password : Pattern :=
  assigned (oneOf (folded "secret") [folded "password", folded "passwd", folded "pwd"])
    (atLeast 8 fun c => !(isQuote c || isBlank c))

def token : Pattern :=
  assigned (oneOf (folded "token") [folded "bearer"])
    (atLeast 20 fun c => isWord c || c == '-' || c == '.')

def awsAccessKey : Pattern :=
  inOrder
    [wordEdge, oneOf (text "AKIA") [text "ASIA"],
     exactly 16 (fun c => isAsciiDigit c || isAsciiUpper c), wordEdge]

/-- The characters of an AWS secret in any case, with the two that fold to letters. -/
def isAwsSecretPart (c : Char) : Bool :=
  isAsciiAlphanumeric c || c == '/' || c == '+' || c == '=' || c == '\u017F' || c == '\u212A'

def awsSecretKey : Pattern :=
  assigned
    (inOrder
      [folded "aws", joint, folded "secret", joint, folded "access", joint, folded "key"])
    (exactly 40 isAwsSecretPart)

def stripeKey : Pattern :=
  inOrder
    [wordEdge, one (fun c => c == 's' || c == 'r'), text "k_live_", atLeast 24 isAsciiAlphanumeric,
     wordEdge]

def privateKey : Pattern :=
  inOrder
    [text "-----BEGIN ",
     optional (oneOf (text "RSA ") [text "EC ", text "DSA ", text "OPENSSH "]),
     text "PRIVATE KEY-----"]

def kinds : List (Pattern × String) :=
  [(apiKey, "API key"), (password, "Password or secret"), (token, "Authentication token"),
   (awsAccessKey, "AWS access key"), (awsSecretKey, "AWS secret key"), (stripeKey, "Stripe live key"),
   (privateKey, "Private key")]

def inLine? (line : List Char) : Option (Spot × String) :=
  kinds.findSome? fun (p, kind) => (p.find? line).map fun s => (s, kind)

def finding? (line : List Char) (number : Nat) : Option SecretFinding :=
  (inLine? line).map fun (s, kind) =>
    ⟨number, s.position + 1, kind, s!"Hardcoded {kind} detected"⟩

def scan (content : String) : List SecretFinding :=
  ((Text.lines content.toList).zipIdx 1).filterMap fun (line, number) => finding? line number

end Secret

/-- A secret scanner, which may fail on a file: content, then path. -/
abbrev SecretScanner := String → String → Option (List SecretFinding)

def SecretScanner.builtin : SecretScanner := fun content _ => some (Secret.scan content)

end LayerLint
