/-
  LayerLint.Classifier: the layer of a path or an import specifier.

  A text is lower-cased and cut at slashes and backslashes; `@` and `~` at the start of a segment are
  alias signs and are dropped. The layers are tried in order, and the first one that has a word among
  the segments wins, wherever in the path it stands.
-/

import LayerLint.Config.Basic
import LayerLint.Text.Split

namespace LayerLint

/-- The words that mark each layer, in lower case. -/
structure Classifier where
  words : PerLayer (List (List Char))

namespace Classifier

/-- The words of a list that can occur at all, in lower case. -/
def usable (words : List String) : List (List Char) :=
  (words.map fun w => (Text.lowercase w).toList).filter (!·.isEmpty)

def ofLayers (l : Config.Layers) : Classifier :=
  ⟨⟨usable l.words.domain, usable l.words.application, usable l.words.infrastructure,
    usable l.words.shared⟩⟩

def default : Classifier := ofLayers .default

def isSeparator (c : Char) : Bool := c == '/' || c == '\\'

def isSigil (c : Char) : Bool := c == '@' || c == '~'

def segments (path : String) : List (List Char) :=
  ((Text.split isSeparator (Text.lowercase path).toList).map (·.dropWhile isSigil)).filter
    (!·.isEmpty)

/-- The first layer with a word among the segments. -/
def classify (c : Classifier) (path : String) : Option Layer :=
  let segs := segments path
  Layer.all.find? fun l => segs.any ((c.words.get l).contains ·)

end Classifier

end LayerLint
