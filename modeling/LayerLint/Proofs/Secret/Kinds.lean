/-
  LayerLint.Proofs.Secret.Kinds: how each kind of secret is spelt.

  A kind of secret is told by the texts that count as one (`Kind.Spelt`): a name that is given a quoted value of some
  length, a key of a fixed form that stands alone, or the heading of a private key. Each of the patterns that are tried on
  a line means exactly the texts of its kind (`matches_pattern_iff`). So looking for a pattern is looking for a text of
  the kind, with nothing said about how a match is tried out.
-/

import LayerLint.Proofs.Pattern.Language
import LayerLint.Proofs.Text.Lowercase
import LayerLint.Proofs.Text.Split
import LayerLint.Secret

namespace LayerLint

open Text (isBlank isWord isAsciiDigit isAsciiUpper isAsciiAlphanumeric lowerAscii)

namespace Secret

open Pattern

/-! ## Spellings -/

/-- A letter in any case. The long s and the kelvin sign count as letters too. -/
def AnyCase (letter c : Char) : Prop :=
  c = letter ∨ c = letter.toUpper ∨ (letter = 's' ∧ c = '\u017F') ∨ (letter = 'k' ∧ c = '\u212A')

def Folds (text : String) : List Char → Prop := List.Forall₂ AnyCase text.toList

/-- Texts in any case, one behind the other, with a low line, a hyphen or nothing between two of them. -/
def Joined : List String → List Char → Prop
  | [], word => word = []
  | [text], word => Folds text word
  | text :: texts, word =>
    ∃ u joint v, word = u ++ joint ++ v ∧ Folds text u ∧ joint ∈ [[], ['_'], ['-']] ∧ Joined texts v

def Named (texts : List String) (word : List Char) : Prop := ∃ text ∈ texts, Folds text word

/-- A name, a colon or an equals sign with any blanks around it, and a value in quotes, which need not be the same. -/
def Assigned (Name Value : List Char → Prop) (word : List Char) : Prop :=
  ∃ name gap sign gap' opening value closing,
    word = name ++ gap ++ [sign] ++ gap' ++ [opening] ++ value ++ [closing] ∧
      Name name ∧ (∀ c ∈ gap, isBlank c = true) ∧ sign ∈ [':', '='] ∧ (∀ c ∈ gap', isBlank c = true) ∧
      isQuote opening = true ∧ Value value ∧ isQuote closing = true

def Keyed (leads : List String) (Key : List Char → Prop) (word : List Char) : Prop :=
  ∃ lead ∈ leads, ∃ key, word = lead.toList ++ key ∧ Key key

def Alone (before after : List Char) : Prop :=
  (∀ c ∈ before.getLast?, isWord c = false) ∧ ∀ c ∈ after.head?, isWord c = false

inductive Kind where
  | apiKey
  | password
  | token
  | awsAccessKey
  | awsSecretKey
  | stripeKey
  | privateKey
  deriving DecidableEq, Repr

namespace Kind

def all : List Kind := [apiKey, password, token, awsAccessKey, awsSecretKey, stripeKey, privateKey]

def name : Kind → String
  | apiKey => "API key"
  | password => "Password or secret"
  | token => "Authentication token"
  | awsAccessKey => "AWS access key"
  | awsSecretKey => "AWS secret key"
  | stripeKey => "Stripe live key"
  | privateKey => "Private key"

def pattern : Kind → Pattern
  | apiKey => Secret.apiKey
  | password => Secret.password
  | token => Secret.token
  | awsAccessKey => Secret.awsAccessKey
  | awsSecretKey => Secret.awsSecretKey
  | stripeKey => Secret.stripeKey
  | privateKey => Secret.privateKey

/-- The texts that count as a secret of the kind, in their context. -/
def Spelt : Kind → (before word after : List Char) → Prop
  | apiKey, _, word, _ =>
    Assigned (Joined ["api", "key"]) (fun v => 20 ≤ v.length ∧ ∀ c ∈ v, isWord c = true ∨ c = '-') word
  | password, _, word, _ =>
    Assigned (Named ["secret", "password", "passwd", "pwd"])
      (fun v => 8 ≤ v.length ∧ ∀ c ∈ v, isQuote c = false ∧ isBlank c = false) word
  | token, _, word, _ =>
    Assigned (Named ["token", "bearer"])
      (fun v => 20 ≤ v.length ∧ ∀ c ∈ v, isWord c = true ∨ c = '-' ∨ c = '.') word
  | awsAccessKey, before, word, after =>
    Alone before after ∧
      Keyed ["AKIA", "ASIA"] (fun k => k.length = 16 ∧ ∀ c ∈ k, isAsciiDigit c = true ∨ isAsciiUpper c = true) word
  | awsSecretKey, _, word, _ =>
    Assigned (Joined ["aws", "secret", "access", "key"])
      (fun v => v.length = 40 ∧
        ∀ c ∈ v, isAsciiAlphanumeric c = true ∨ c ∈ ['/', '+', '=', '\u017F', '\u212A']) word
  | stripeKey, before, word, after =>
    Alone before after ∧
      Keyed ["sk_live_", "rk_live_"] (fun k => 24 ≤ k.length ∧ ∀ c ∈ k, isAsciiAlphanumeric c = true) word
  | privateKey, _, word, _ =>
    ∃ algorithm ∈ ["", "RSA ", "EC ", "DSA ", "OPENSSH "],
      word = "-----BEGIN ".toList ++ algorithm.toList ++ "PRIVATE KEY-----".toList

end Kind

theorem kinds_eq : kinds = Kind.all.map fun k => (k.pattern, k.name) := rfl

/-! ## Letters -/

theorem toUpper_lowerAscii {c : Char} (h : isAsciiUpper c = true) : (lowerAscii c).toUpper = c := by
  obtain ⟨hlow, hhigh⟩ := Text.isAsciiUpper_iff.mp h
  have hletters : ∀ n < 26, (Char.ofNat (65 + n + 32)).toUpper = Char.ofNat (65 + n) := by decide
  have hn : c.toNat = 65 + (c.toNat - 65) := by omega
  rw [lowerAscii, if_pos h, hn, hletters _ (by omega), ← hn, Char.ofNat_toNat]

theorem lowerAscii_toUpper (c : Char) : c.toUpper = c ∨ lowerAscii c.toUpper = c := by
  by_cases h : 97 ≤ c.toNat ∧ c.toNat ≤ 122
  · have hletters : ∀ n < 26, lowerAscii (Char.ofNat (97 + n)).toUpper = Char.ofNat (97 + n) := by decide
    have hn : c.toNat = 97 + (c.toNat - 97) := by omega
    have hc := hletters (c.toNat - 97) (by omega)
    rw [← hn, Char.ofNat_toNat] at hc
    exact .inr hc
  · refine .inl (dif_neg ?_)
    simp only [UInt32.le_iff_toNat_le]
    exact h

theorem isLetterFold_iff {letter c : Char} : isLetterFold letter c = true ↔ AnyCase letter c := by
  simp only [isLetterFold, AnyCase, Bool.or_eq_true, Bool.and_eq_true, beq_iff_eq, or_assoc]
  constructor
  · rintro (h | h | h)
    · exact .inl h
    · by_cases hupper : isAsciiUpper c = true
      · exact .inr (.inl (h ▸ (toUpper_lowerAscii hupper).symm))
      · rw [lowerAscii, if_neg hupper] at h
        exact .inl h
    · exact .inr (.inr h)
  · rintro (h | rfl | h)
    · exact .inl h
    · rcases lowerAscii_toUpper letter with h | h
      · exact .inl h
      · exact .inr (.inl h)
    · exact .inr (.inr h)

/-! ## Parts of patterns -/

theorem means_folded (s : String) : (folded s).Means (Folds s) := by
  have hmap : folded s = inOrder ((s.toList.map isLetterFold).map one) := by rw [List.map_map]; rfl
  rw [hmap]
  refine (means_each _).congr fun word => ?_
  rw [List.forall₂_map_left_iff]
  simp only [isLetterFold_iff]
  rfl

theorem means_joint : joint.Means (· ∈ [[], ['_'], ['-']]) := by
  refine (means_one _).optional.congr fun word => ?_
  simp only [Bool.or_eq_true, beq_iff_eq, List.mem_cons, List.not_mem_nil, or_false]
  constructor
  · rintro (⟨c, rfl, rfl | rfl⟩ | rfl) <;> simp
  · rintro (rfl | rfl | rfl) <;> simp

theorem means_joined_singleton (text : String) : (inOrder [folded text]).Means (Joined [text]) := means_folded text

theorem means_joined_cons {ps : List Pattern} {next : String} {texts : List String}
    (h : (inOrder ps).Means (Joined (next :: texts))) (text : String) :
    (inOrder (folded text :: joint :: ps)).Means (Joined (text :: next :: texts)) := by
  refine ((means_folded text).inOrder_cons (means_joint.inOrder_cons h)).congr fun word => ?_
  constructor
  · rintro ⟨u, x, rfl, hu, j, v, rfl, hj, hv⟩
    exact ⟨u, j, v, (List.append_assoc ..).symm, hu, hj, hv⟩
  · rintro ⟨u, j, v, rfl, hu, hj, hv⟩
    exact ⟨u, j ++ v, List.append_assoc .., hu, j, v, rfl, hj, hv⟩

theorem means_named (text : String) (texts : List String) :
    (oneOf (folded text) (texts.map folded)).Means (Named (text :: texts)) := means_oneOf means_folded text texts

theorem means_assignment : assignment.Means fun word => ∃ gap sign gap', word = gap ++ [sign] ++ gap' ∧
    (∀ c ∈ gap, isBlank c = true) ∧ sign ∈ [':', '='] ∧ ∀ c ∈ gap', isBlank c = true := by
  have hblanks := means_zeroOrMore isBlank
  refine (hblanks.inOrder_cons ((means_one _).inOrder_pair hblanks)).congr fun word => ?_
  simp only [Bool.or_eq_true, beq_iff_eq, List.mem_cons, List.not_mem_nil, or_false]
  constructor
  · rintro ⟨gap, _, rfl, hgap, _, gap', rfl, ⟨sign, rfl, hsign⟩, hgap'⟩
    exact ⟨gap, sign, gap', (List.append_assoc ..).symm, hgap, hsign, hgap'⟩
  · rintro ⟨gap, sign, gap', rfl, hgap, hsign, hgap'⟩
    exact ⟨gap, [sign] ++ gap', List.append_assoc .., hgap, [sign], gap', rfl, ⟨sign, rfl, hsign⟩, hgap'⟩

theorem means_assigned {name value : Pattern} {Name Value : List Char → Prop} (hname : name.Means Name)
    (hvalue : value.Means Value) : (assigned name value).Means (Assigned Name Value) := by
  have hquote := means_one isQuote
  have hquoted := hquote.inOrder_cons (hvalue.inOrder_pair hquote)
  refine (hname.inOrder_cons (means_assignment.inOrder_cons hquoted)).congr fun word => ?_
  constructor
  · rintro ⟨name, _, rfl, hname, _, _, rfl, ⟨gap, sign, gap', rfl, hgap, hsign, hgap'⟩,
      _, _, rfl, ⟨opening, rfl, hopening⟩, value, _, rfl, hvalue, closing, rfl, hclosing⟩
    exact ⟨name, gap, sign, gap', opening, value, closing, by simp, hname, hgap, hsign, hgap', hopening, hvalue, hclosing⟩
  · rintro ⟨name, gap, sign, gap', opening, value, closing, rfl, hname, hgap, hsign, hgap', hopening, hvalue, hclosing⟩
    exact ⟨name, gap ++ [sign] ++ gap' ++ ([opening] ++ (value ++ [closing])), by simp, hname, _, _, rfl,
      ⟨gap, sign, gap', rfl, hgap, hsign, hgap'⟩,
      _, _, rfl, ⟨opening, rfl, hopening⟩, value, _, rfl, hvalue, closing, rfl, hclosing⟩

/-! ## Words that stand alone -/

theorem isWord_of_isAsciiAlphanumeric {c : Char} (h : isAsciiAlphanumeric c = true) : isWord c = true := by
  rw [isWord, if_pos (Text.isAscii_of_isAsciiAlphanumeric h), h]
  rfl

variable {before word after : List Char}

theorem edge_left_iff (hne : word ≠ []) (hword : ∀ c ∈ word, isWord c = true) :
    Edge before (word ++ after) ↔ ∀ c ∈ before.getLast?, isWord c = false := by
  obtain ⟨c, rest, rfl⟩ := List.exists_cons_of_ne_nil hne
  have hc : ((c :: rest ++ after).head?.any isWord) = true := hword c List.mem_cons_self
  rw [Edge, hc]
  cases before.getLast? <;> simp

theorem edge_right_iff (hne : word ≠ []) (hword : ∀ c ∈ word, isWord c = true) :
    Edge (before ++ word) after ↔ ∀ c ∈ after.head?, isWord c = false := by
  have hlast : (before ++ word).getLast?.any isWord = true := by
    rw [List.getLast?_append_of_ne_nil _ hne, List.getLast?_eq_some_getLast hne]
    exact hword _ (List.getLast_mem hne)
  rw [Edge, hlast, ne_comm]
  cases after.head? <;> simp

theorem matches_wordEdge_cons {ps : List Pattern} :
    (inOrder (wordEdge :: ps)).Matches before word after ↔ Edge before (word ++ after) ∧ (inOrder ps).Matches before word after := by
  rw [matches_inOrder_cons]
  constructor
  · rintro ⟨_, _, rfl, ⟨rfl, hedge⟩, h⟩
    rw [List.append_nil] at h
    exact ⟨hedge, h⟩
  · rintro ⟨hedge, h⟩
    exact ⟨[], word, rfl, ⟨rfl, hedge⟩, by rwa [List.append_nil]⟩

theorem matches_append_wordEdge {ps : List Pattern} :
    (inOrder (ps ++ [wordEdge])).Matches before word after ↔ (inOrder ps).Matches before word after ∧ Edge (before ++ word) after := by
  rw [matches_inOrder_append]
  constructor
  · rintro ⟨w, _, rfl, h, rfl, hedge⟩
    rw [List.append_nil]
    exact ⟨h, hedge⟩
  · rintro ⟨h, hedge⟩
    exact ⟨word, [], (List.append_nil word).symm, h, rfl, hedge⟩

/-- Between two borders, what is made of word characters stands alone. -/
theorem matches_between_edges {ps : List Pattern} {words : List Char → Prop} (h : (inOrder ps).Means words)
    (hwords : ∀ w, words w → w ≠ [] ∧ ∀ c ∈ w, isWord c = true) :
    (inOrder (wordEdge :: (ps ++ [wordEdge]))).Matches before word after ↔ Alone before after ∧ words word := by
  rw [matches_wordEdge_cons, matches_append_wordEdge, h, and_left_comm, and_comm]
  refine and_congr_left fun hw => ?_
  obtain ⟨hne, hword⟩ := hwords word hw
  exact and_congr (edge_left_iff hne hword) (edge_right_iff hne hword)

/-! ## The kinds -/

theorem joined_of_folds {word : List Char} (h : Folds "apikey" word) : Joined ["api", "key"] word := by
  have hflip : List.Forall₂ (flip AnyCase) word ("api".toList ++ "key".toList) := List.Forall₂.flip h
  have hapi := List.forall₂_take_append _ _ _ hflip
  have hkey := List.forall₂_drop_append _ _ _ hflip
  exact ⟨_, [], _, by rw [List.append_nil, List.take_append_drop], hapi.flip, by simp, hkey.flip⟩

/-- Writing the two words as one is leaving out what may stand between them. -/
theorem means_apiKeyName :
    (oneOf (inOrder [folded "api", joint, folded "key"]) [folded "apikey"]).Means (Joined ["api", "key"]) := by
  have hjoined : (inOrder [folded "api", joint, folded "key"]).Means (Joined ["api", "key"]) :=
    means_joined_cons (means_joined_singleton "key") "api"
  intro before word after
  have heither : (oneOf (inOrder [folded "api", joint, folded "key"]) [folded "apikey"]).Matches before word after ↔
      Joined ["api", "key"] word ∨ Folds "apikey" word := or_congr (hjoined ..) (means_folded ..)
  rw [heither]
  exact or_iff_left_of_imp joined_of_folds

theorem means_awsSecretKeyName :
    (inOrder [folded "aws", joint, folded "secret", joint, folded "access", joint, folded "key"]).Means
      (Joined ["aws", "secret", "access", "key"]) :=
  means_joined_cons (means_joined_cons (means_joined_cons (means_joined_singleton "key") "access") "secret") "aws"

theorem Keyed.isWord {leads : List String} {Key : List Char → Prop}
    (hleads : ∀ lead ∈ leads, lead.toList ≠ [] ∧ ∀ c ∈ lead.toList, isWord c = true)
    (hkeys : ∀ key, Key key → ∀ c ∈ key, isAsciiAlphanumeric c = true) (w : List Char) (h : Keyed leads Key w) :
    w ≠ [] ∧ ∀ c ∈ w, isWord c = true := by
  obtain ⟨lead, hlead, key, rfl, hkey⟩ := h
  obtain ⟨hne, hword⟩ := hleads lead hlead
  refine ⟨List.append_ne_nil_of_left_ne_nil hne key, fun c hc => ?_⟩
  rcases List.mem_append.mp hc with hc | hc
  · exact hword c hc
  · exact isWord_of_isAsciiAlphanumeric (hkeys key hkey c hc)

theorem isWord_of_awsAccessKey (w : List Char)
    (h : Keyed ["AKIA", "ASIA"] (fun k => k.length = 16 ∧ ∀ c ∈ k, isAsciiDigit c = true ∨ isAsciiUpper c = true) w) :
    w ≠ [] ∧ ∀ c ∈ w, isWord c = true := by
  refine Keyed.isWord (by decide) (fun key hkey c hc => ?_) w h
  rcases hkey.2 c hc with h | h
  · simp [isAsciiAlphanumeric, h]
  · simp [isAsciiAlphanumeric, Text.isAsciiLetter, h]

theorem isWord_of_stripeKey (w : List Char)
    (h : Keyed ["sk_live_", "rk_live_"] (fun k => 24 ≤ k.length ∧ ∀ c ∈ k, isAsciiAlphanumeric c = true) w) :
    w ≠ [] ∧ ∀ c ∈ w, isWord c = true :=
  Keyed.isWord (by decide) (fun _ hkey => hkey.2) w h

theorem matches_awsAccessKey_iff :
    awsAccessKey.Matches before word after ↔ Kind.awsAccessKey.Spelt before word after := by
  have hkey := means_exactly 16 fun c => isAsciiDigit c || isAsciiUpper c
  have hwords : (inOrder [oneOf (text "AKIA") [text "ASIA"], exactly 16 fun c => isAsciiDigit c || isAsciiUpper c]).Means
      (Keyed ["AKIA", "ASIA"] fun k => k.length = 16 ∧ ∀ c ∈ k, isAsciiDigit c = true ∨ isAsciiUpper c = true) := by
    refine ((means_oneOf means_text "AKIA" ["ASIA"]).inOrder_pair hkey).congr fun w => ?_
    simp only [Bool.or_eq_true]
    constructor
    · rintro ⟨_, key, rfl, ⟨lead, hlead, rfl⟩, hset, hlen⟩
      exact ⟨lead, hlead, key, rfl, hlen, hset⟩
    · rintro ⟨lead, hlead, key, rfl, hlen, hset⟩
      exact ⟨_, key, rfl, ⟨lead, hlead, rfl⟩, hset, hlen⟩
  exact matches_between_edges hwords isWord_of_awsAccessKey

theorem matches_stripeKey_iff : stripeKey.Matches before word after ↔ Kind.stripeKey.Spelt before word after := by
  have hkey := (means_text "k_live_").inOrder_pair (means_atLeast 24 isAsciiAlphanumeric)
  have hwords : (inOrder [one fun c => c == 's' || c == 'r', text "k_live_", atLeast 24 isAsciiAlphanumeric]).Means
      (Keyed ["sk_live_", "rk_live_"] fun k => 24 ≤ k.length ∧ ∀ c ∈ k, isAsciiAlphanumeric c = true) := by
    refine ((means_one _).inOrder_cons hkey).congr fun w => ?_
    simp only [Bool.or_eq_true, beq_iff_eq]
    constructor
    · rintro ⟨_, _, rfl, ⟨c, rfl, rfl | rfl⟩, _, key, rfl, rfl, hset, hlen⟩
      · exact ⟨"sk_live_", by simp, key, rfl, hlen, hset⟩
      · exact ⟨"rk_live_", by simp, key, rfl, hlen, hset⟩
    · rintro ⟨lead, hlead, key, rfl, hlen, hset⟩
      simp only [List.mem_cons, List.not_mem_nil, or_false] at hlead
      rcases hlead with rfl | rfl
      · exact ⟨['s'], _, rfl, ⟨'s', rfl, .inl rfl⟩, _, key, rfl, rfl, hset, hlen⟩
      · exact ⟨['r'], _, rfl, ⟨'r', rfl, .inr rfl⟩, _, key, rfl, rfl, hset, hlen⟩
  exact matches_between_edges hwords isWord_of_stripeKey

theorem matches_privateKey_iff : privateKey.Matches before word after ↔ Kind.privateKey.Spelt before word after := by
  have halgorithm := (means_oneOf means_text "RSA " ["EC ", "DSA ", "OPENSSH "]).optional
  have hwords := (means_text "-----BEGIN ").inOrder_cons
    (halgorithm.inOrder_pair (means_text "PRIVATE KEY-----"))
  refine (hwords before word after).trans ?_
  constructor
  · rintro ⟨_, _, rfl, rfl, _, _, rfl, ⟨a, ha, rfl⟩ | rfl, rfl⟩
    · exact ⟨a, List.mem_cons_of_mem _ ha, (List.append_assoc ..).symm⟩
    · exact ⟨"", List.mem_cons_self, rfl⟩
  · rintro ⟨a, ha, rfl⟩
    refine ⟨_, _, List.append_assoc .., rfl, a.toList, _, rfl, ?_, rfl⟩
    rcases List.mem_cons.mp ha with rfl | ha
    · exact .inr rfl
    · exact .inl ⟨a, ha, rfl⟩

/-- The pattern of a kind means what is spelt as a secret of the kind. -/
theorem matches_pattern_iff (k : Kind) : k.pattern.Matches before word after ↔ k.Spelt before word after := by
  cases k with
  | apiKey =>
    refine means_assigned means_apiKeyName ((means_atLeast _ _).congr fun v => ?_) before word after
    simp [and_comm]
  | password =>
    refine means_assigned (means_named "secret" ["password", "passwd", "pwd"]) ((means_atLeast _ _).congr fun v => ?_)
      before word after
    simp [and_comm]
  | token =>
    refine means_assigned (means_named "token" ["bearer"]) ((means_atLeast _ _).congr fun v => ?_) before word after
    simp [and_comm, or_assoc]
  | awsAccessKey => exact matches_awsAccessKey_iff
  | awsSecretKey =>
    refine means_assigned means_awsSecretKeyName ((means_exactly _ _).congr fun v => ?_) before word after
    simp [isAwsSecretPart, and_comm, or_assoc]
  | stripeKey => exact matches_stripeKey_iff
  | privateKey => exact matches_privateKey_iff

end Secret

end LayerLint
