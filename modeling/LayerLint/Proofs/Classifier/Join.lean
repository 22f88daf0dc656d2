/-
  LayerLint.Proofs.Classifier.Join: the layer of a joined path.

  A separator divides a text into two that are lower-cased, cut and freed of their alias signs each for itself
  (`segments_join`), so a word marks a layer in a joined path if it does so in one of the two (`marks_join`), and
  the layer that is tried first wins (`find?_or`). What a path is made of is then all that counts: neither the
  depth, nor the order, nor how often a piece is repeated (`classify_join`).
-/

import LayerLint.Classifier
import LayerLint.Proofs.Text.Lowercase
import LayerLint.Proofs.Text.Split

namespace LayerLint.Classifier

/-! ## Precedence -/

/-- The place of a layer in the order in which layers are tried. What has no layer comes last. -/
def precedence : Option Layer → Nat
  | some .domain => 0
  | some .application => 1
  | some .infrastructure => 2
  | some .shared => 3
  | none => 4

def higher (a b : Option Layer) : Option Layer := if precedence a ≤ precedence b then a else b

/-- Layers are tried by precedence, so a place leads back to its layer. -/
theorem getElem?_precedence (o : Option Layer) : Layer.all[precedence o]? = o := by
  rcases o with _ | _ | _ | _ | _ <;> rfl

theorem precedence_inj {a b : Option Layer} (h : precedence a = precedence b) : a = b := by
  rw [← getElem?_precedence a, h, getElem?_precedence]

/-- The layer of highest precedence that has a property, or none if no layer has it. -/
structure IsFirst (p : Layer → Bool) (o : Option Layer) : Prop where
  has : ∀ l, o = some l → p l = true
  earlier : ∀ l, precedence (some l) < precedence o → p l = false

theorem isFirst_find? (p : Layer → Bool) : IsFirst p (Layer.all.find? p) := by
  constructor
  · intro l h
    exact List.find?_some h
  · intro l hl
    cases hfind : Layer.all.find? p with
    | none => simpa using List.find?_eq_none.mp hfind l l.mem_all
    | some m =>
      rw [hfind] at hl
      obtain ⟨-, before, after, hall, hno⟩ := List.find?_eq_some_iff_append.mp hfind
      have hsorted : Layer.all.Pairwise fun a b => precedence (some a) < precedence (some b) := by decide
      rw [hall, List.pairwise_append, List.pairwise_cons] at hsorted
      have hmem : l ∈ before ++ m :: after := hall ▸ l.mem_all
      rcases List.mem_append.mp hmem with hbefore | hrest
      · simpa using hno l hbefore
      · rcases List.mem_cons.mp hrest with rfl | hafter
        · omega
        · have hlater := hsorted.2.1.1 l hafter
          omega

theorem IsFirst.le {p : Layer → Bool} {a b : Option Layer} (ha : IsFirst p a) (hb : IsFirst p b) :
    precedence a ≤ precedence b := by
  cases b with
  | none => rcases a with _ | _ | _ | _ | _ <;> decide
  | some l =>
    apply Nat.le_of_not_lt
    intro hlt
    have hno := ha.earlier l hlt
    rw [hb.has l rfl] at hno
    cases hno

theorem IsFirst.unique {p : Layer → Bool} {a b : Option Layer} (ha : IsFirst p a) (hb : IsFirst p b) : a = b :=
  precedence_inj (Nat.le_antisymm (ha.le hb) (hb.le ha))

theorem IsFirst.or {p q : Layer → Bool} {a b : Option Layer} (ha : IsFirst p a) (hb : IsFirst q b) :
    IsFirst (fun l => p l || q l) (higher a b) := by
  unfold higher
  split
  · rename_i hle
    constructor
    · intro l hl
      simp [ha.has l hl]
    · intro l hl
      simp [ha.earlier l hl, hb.earlier l (by omega)]
  · rename_i hlt
    constructor
    · intro l hl
      simp [hb.has l hl]
    · intro l hl
      simp [ha.earlier l (by omega), hb.earlier l hl]

theorem find?_or (p q : Layer → Bool) :
    (Layer.all.find? fun l => p l || q l) = higher (Layer.all.find? p) (Layer.all.find? q) :=
  (isFirst_find? _).unique ((isFirst_find? p).or (isFirst_find? q))

/-! ## Words in a joined path -/

theorem border_of_isSeparator {c : Char} (h : isSeparator c = true) : Text.Border c := by
  rcases Bool.or_eq_true_iff.mp h with h | h
  · obtain rfl := beq_iff_eq.mp h
    exact Text.border_slash
  · obtain rfl := beq_iff_eq.mp h
    exact Text.border_backslash

theorem segments_join {c : Char} (hc : isSeparator c = true) (p q : List Char) :
    segments (String.ofList (p ++ c :: q)) = segments (String.ofList p) ++ segments (String.ofList q) := by
  simp only [segments, Text.lowercase, String.toList_ofList, Text.lowerAfter_border (border_of_isSeparator hc),
    Text.split_append hc, List.map_append, List.filter_append]

def marks (k : Classifier) (path : String) (l : Layer) : Bool := (segments path).any ((k.words.get l).contains ·)

variable (k : Classifier)

theorem classify_eq (path : String) : k.classify path = Layer.all.find? (k.marks path) := rfl

theorem marks_join {c : Char} (hc : isSeparator c = true) (p q : List Char) :
    k.marks (String.ofList (p ++ c :: q)) = fun l => k.marks (String.ofList p) l || k.marks (String.ofList q) l := by
  funext l
  rw [marks, segments_join hc, List.any_append]
  rfl

theorem classify_separator {c : Char} (hc : isSeparator c = true) (p q : String) :
    k.classify (p ++ String.singleton c ++ q) = higher (k.classify p) (k.classify q) := by
  have hjoin : p ++ String.singleton c ++ q = String.ofList (p.toList ++ c :: q.toList) := by
    apply String.toList_inj.mp
    simp
  rw [classify_eq, hjoin, marks_join k hc, find?_or, String.ofList_toList, String.ofList_toList]
  rfl

/-! ## Pieces -/

def pieces (path : String) : List String := (Text.split isSeparator path.toList).map String.ofList

/-- A layer is marked in a path if it is marked in one of its pieces. -/
theorem marks_split (l : Layer) (path : List Char) :
    k.marks (String.ofList path) l = true ↔
      ∃ piece ∈ Text.split isSeparator path, k.marks (String.ofList piece) l = true := by
  obtain ⟨first, rest, hsplit⟩ := Text.exists_split_eq isSeparator path
  rw [hsplit]
  -- by induction on the pieces after the first, each cut off at its separator
  induction rest generalizing path first with
  | nil =>
    obtain rfl := Text.eq_of_split_eq_singleton hsplit
    simp
  | cons second rest ih =>
    obtain ⟨c, hc, tail, rfl, htail⟩ := Text.exists_of_split_eq_cons_cons hsplit
    rw [marks_join k hc, Bool.or_eq_true_iff, ih tail second htail]
    simp

theorem marks_iff (path : String) (l : Layer) : k.marks path l = true ↔ ∃ s ∈ pieces path, k.marks s l = true := by
  have hsplit := k.marks_split l path.toList
  rw [String.ofList_toList] at hsplit
  rw [hsplit]
  constructor
  · rintro ⟨piece, hp, hm⟩
    exact ⟨_, List.mem_map_of_mem hp, hm⟩
  · rintro ⟨s, hs, hm⟩
    obtain ⟨piece, hp, rfl⟩ := List.mem_map.mp hs
    exact ⟨piece, hp, hm⟩

theorem classify_ne_none {s : String} {l : Layer} (h : k.marks s l = true) : k.classify s ≠ none := by
  rw [classify_eq, ne_eq, List.find?_eq_none]
  intro hnone
  exact hnone l l.mem_all h

/-- Paths with the same pieces, as far as these have a layer, have the same layer. -/
theorem classify_congr {p q : String} (h : ∀ s, k.classify s ≠ none → (s ∈ pieces p ↔ s ∈ pieces q)) :
    k.classify p = k.classify q := by
  have hmarks : k.marks p = k.marks q := by
    funext l
    rw [Bool.eq_iff_iff, marks_iff, marks_iff]
    constructor
    · rintro ⟨s, hs, hm⟩
      exact ⟨s, (h s (k.classify_ne_none hm)).mp hs, hm⟩
    · rintro ⟨s, hs, hm⟩
      exact ⟨s, (h s (k.classify_ne_none hm)).mpr hs, hm⟩
  rw [classify_eq, classify_eq, hmarks]

/-- Whatever the words of the layers are, a joined path has the higher layer of its two parts, and paths that are
    made of the same pieces have the same layer: how deep, in which order, how often and between which pieces without
    a layer they stand makes no difference. -/
theorem classify_join (layers : Config.Layers) (p q : String) :
    (ofLayers layers).classify (p ++ "/" ++ q) =
        higher ((ofLayers layers).classify p) ((ofLayers layers).classify q) ∧
      (ofLayers layers).classify (p ++ "\\" ++ q) =
        higher ((ofLayers layers).classify p) ((ofLayers layers).classify q) ∧
      ((∀ s, (ofLayers layers).classify s ≠ none → (s ∈ pieces p ↔ s ∈ pieces q)) →
        (ofLayers layers).classify p = (ofLayers layers).classify q) :=
  ⟨classify_separator _ (c := '/') rfl p q, classify_separator _ (c := '\\') rfl p q, classify_congr _⟩

def mixedWords : Config.Layers :=
  { Config.Layers.default with words := ⟨["Core", ""], ["flows"], ["core", "io"], ["Shared"]⟩ }

/-- The same two pieces at other depths, in the other order, and one of them twice. -/
theorem classify_join_mixed :
    (∀ s, (ofLayers mixedWords).classify s ≠ none →
        (s ∈ pieces "Shared\\kernel/~CORE" ↔ s ∈ pieces "~CORE/x/Shared/~CORE")) ∧
      (ofLayers mixedWords).classify "Shared\\kernel/~CORE" = (ofLayers mixedWords).classify "~CORE/x/Shared/~CORE" ∧
      (ofLayers mixedWords).classify "Shared\\kernel/~CORE" = some .domain := by
  have hleft : ∀ s ∈ pieces "Shared\\kernel/~CORE", (ofLayers mixedWords).classify s ≠ none →
      s ∈ pieces "~CORE/x/Shared/~CORE" := by decide +kernel
  have hright : ∀ s ∈ pieces "~CORE/x/Shared/~CORE", (ofLayers mixedWords).classify s ≠ none →
      s ∈ pieces "Shared\\kernel/~CORE" := by decide +kernel
  have hpieces : ∀ s, (ofLayers mixedWords).classify s ≠ none →
      (s ∈ pieces "Shared\\kernel/~CORE" ↔ s ∈ pieces "~CORE/x/Shared/~CORE") :=
    fun s hs => ⟨fun h => hleft s h hs, fun h => hright s h hs⟩
  exact ⟨hpieces, (classify_join mixedWords _ _).2.2 hpieces, by decide +kernel⟩

end LayerLint.Classifier
