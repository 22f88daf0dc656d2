/-
  LayerLint.Proofs.Report.Drawing: what the drawing of the file graph shows.

  A drawing is a list of statements: frames with one statement for each file, then one for each edge
  (`fileGraph_eq_text`, `files_drawing_perm`). To a viewer all files of one name are one node, so the drawing
  shows the graph exactly if no two files get one name (`fileGraph_depicts_iff`). Two paths do if they have the
  same letters and numbers, and other characters, whichever they are, in the same places, once a leading digit
  has got its letter in front (`nodeId_eq_iff`).
-/

import LayerLint.Proofs.Graph.Build
import LayerLint.Report.Dot
import Mathlib.Data.Finset.Card
import Mathlib.Data.List.Forall2

namespace LayerLint

namespace Report

/-! ## The statements of a drawing -/

structure Arrow where
  source : String
  target : String
  red : Bool
  deriving DecidableEq, Repr

structure Frame where
  layer : Option Layer
  files : List Graph.Node
  deriving DecidableEq, Repr

structure Drawing where
  frames : List Frame
  arrows : List Arrow
  deriving DecidableEq, Repr

def Arrow.text (a : Arrow) : String :=
  s!"  {nodeId a.source} -> {nodeId a.target}" ++ if a.red then " [color=red, style=dashed];\n" else ";\n"

def Frame.text (f : Frame) : String :=
  if f.files.isEmpty then ""
  else
    s!"  subgraph cluster_{flowName f.layer} \x7b\n    label=\"{flowName f.layer}\";\n" ++
      (match f.layer with
        | some l => s!"    style=filled;\n    color=\"{layerColor l}\";\n"
        | none => "    style=dashed;\n") ++
      "    node [fillcolor=white];\n" ++ String.join (f.files.map nodeLine) ++ "  \x7d\n\n"

def Drawing.text (d : Drawing) : String :=
  "digraph strata \x7b\n  rankdir=TB;\n  node [shape=box, style=filled];\n\n" ++
    String.join (d.frames.map Frame.text) ++ String.join (d.arrows.map Arrow.text) ++ "\x7d\n"

def frameOrder : List (Option Layer) := Layer.all.map some ++ [none]

def drawing (r : Report) : Drawing where
  frames := frameOrder.map fun l => ⟨l, r.graph.nodes.filter fun n => n.layer = l⟩
  arrows := r.graph.edges.map fun e => ⟨e.1, e.2, r.violatingEdges.contains e⟩

theorem cluster_eq (l : Option Layer) (nodes : List Graph.Node) :
    cluster l nodes = Frame.text ⟨l, nodes.filter fun n => n.layer = l⟩ := by
  unfold cluster Frame.text
  cases nodes.filter fun n => n.layer = l with
  | nil => rfl
  | cons n ns =>
    cases l with
    | none => exact (if_neg (by simp)).symm
    | some l => exact (if_neg (by simp)).symm

theorem edgeLine_eq (flagged : List (String × String)) (e : String × String) :
    edgeLine flagged e = Arrow.text ⟨e.1, e.2, flagged.contains e⟩ := by
  unfold edgeLine Arrow.text
  cases flagged.contains e with
  | true => rw [if_pos rfl, if_pos rfl]
  | false => rw [if_neg Bool.false_ne_true, if_neg Bool.false_ne_true]

/-- The text of a drawing is that of its statements, one after the other. -/
theorem fileGraph_eq_text (r : Report) : r.fileGraph = r.drawing.text := by
  have hframes : (Layer.all.map some ++ [none]).map (fun l => cluster l r.graph.nodes) =
      r.drawing.frames.map Frame.text := by
    rw [drawing, List.map_map]
    exact List.map_congr_left fun l _ => cluster_eq l _
  have harrows : r.graph.edges.map (edgeLine r.violatingEdges) = r.drawing.arrows.map Arrow.text := by
    rw [drawing, List.map_map]
    exact List.map_congr_left fun e _ => edgeLine_eq _ e
  unfold fileGraph Drawing.text
  simp only [hframes, harrows]

/-! ## One statement for each file -/

def Drawing.files (d : Drawing) : List Graph.Node := d.frames.flatMap (·.files)

/-- Every file is in the frame of its layer and in no other. -/
theorem files_drawing_perm (r : Report) : r.drawing.files.Perm r.graph.nodes := by
  have hcount : ∀ n l, (r.graph.nodes.filter fun m => m.layer = l).count n =
      if n.layer = l then r.graph.nodes.count n else 0 := by
    intro n l
    by_cases h : n.layer = l
    · rw [List.count_filter (by simpa using h), if_pos h]
    · rw [if_neg h, List.count_eq_zero]
      simp [h]
  rw [List.perm_iff_count]
  intro n
  simp only [Drawing.files, drawing, frameOrder, Layer.all, List.map_cons, List.map_nil, List.cons_append,
    List.nil_append, List.flatMap_cons, List.flatMap_nil, List.append_nil, List.count_append, hcount]
  cases n.layer with
  | none => simp
  | some l => cases l <;> simp

/-! ## The names of files -/

def cleaned (c : Char) : Char := if Text.isAlphanumeric c || c == '_' then c else '_'

/-- Characters that names do not tell apart: what is neither a letter nor a number is all the same. -/
def Alike (c c' : Char) : Prop := c = c' ∨ Text.isAlphanumeric c = false ∧ Text.isAlphanumeric c' = false

def padded : List Char → List Char
  | [] => []
  | c :: cs => if Text.isAsciiDigit c then 'n' :: '_' :: c :: cs else c :: cs

/-- Paths that are alike character by character, once a leading digit has got its letter. -/
def SameName (p q : String) : Prop := List.Forall₂ Alike (padded p.toList) (padded q.toList)

theorem isAlphanumeric_of_digit {c : Char} (h : Text.isAsciiDigit c = true) : Text.isAlphanumeric c = true := by
  have hle : c.toNat ≤ '9'.toNat := by
    simp only [Text.isAsciiDigit, Bool.and_eq_true, decide_eq_true_eq] at h
    exact h.2
  have hascii : Text.isAscii c = true := decide_eq_true (by have : '9'.toNat = 57 := rfl; omega)
  simp [Text.isAlphanumeric, hascii, Text.isAsciiAlphanumeric, h]

theorem cleaned_of_alphanumeric {c : Char} (h : Text.isAlphanumeric c = true) : cleaned c = c := by
  simp [cleaned, h]

/-- The low line is neither a letter nor a number itself. -/
theorem cleaned_of_not_alphanumeric {c : Char} (h : Text.isAlphanumeric c = false) : cleaned c = '_' := by
  by_cases hc : c = '_'
  · simp [cleaned, hc]
  · simp [cleaned, h, hc]

theorem cleaned_eq_iff {c c' : Char} : cleaned c = cleaned c' ↔ Alike c c' := by
  have hlow : ∀ {c}, Text.isAlphanumeric c = true → c ≠ '_' := by
    rintro c h rfl
    exact absurd h (by decide)
  unfold Alike
  cases h : Text.isAlphanumeric c with
  | true =>
    rw [cleaned_of_alphanumeric h]
    cases h' : Text.isAlphanumeric c' with
    | true => simp [cleaned_of_alphanumeric h']
    | false =>
      have hne : c ≠ c' := by rintro rfl; simp [h] at h'
      simp [cleaned_of_not_alphanumeric h', hlow h, hne]
  | false =>
    rw [cleaned_of_not_alphanumeric h]
    cases h' : Text.isAlphanumeric c' with
    | true =>
      have hne : c ≠ c' := by rintro rfl; simp [h] at h'
      simp [cleaned_of_alphanumeric h', (hlow h').symm, hne]
    | false => simp [cleaned_of_not_alphanumeric h']

theorem isAsciiDigit_cleaned (c : Char) : Text.isAsciiDigit (cleaned c) = Text.isAsciiDigit c := by
  cases h : Text.isAlphanumeric c with
  | true => rw [cleaned_of_alphanumeric h]
  | false =>
    have hdigit : Text.isAsciiDigit c = false := by
      rw [Bool.eq_false_iff]
      intro hd
      rw [isAlphanumeric_of_digit hd] at h
      cases h
    rw [cleaned_of_not_alphanumeric h, hdigit]
    rfl

/-- A name is made character by character of the path with its letter in front. -/
theorem nodeId_eq (path : String) : nodeId path = String.ofList ((padded path.toList).map cleaned) := by
  unfold nodeId
  cases path.toList with
  | nil => rfl
  | cons c cs =>
    show String.ofList (if Text.isAsciiDigit (cleaned c) then 'n' :: '_' :: (c :: cs).map cleaned
      else (c :: cs).map cleaned) = _
    rw [isAsciiDigit_cleaned, padded]
    cases Text.isAsciiDigit c with
    | true => rfl
    | false => rfl

theorem nodeId_eq_iff {p q : String} : nodeId p = nodeId q ↔ SameName p q := by
  rw [nodeId_eq, nodeId_eq, String.ofList_inj, SameName, ← List.forall₂_eq_eq_eq, List.forall₂_map_left_iff,
    List.forall₂_map_right_iff]
  simp only [cleaned_eq_iff]

/-! ## What a viewer sees -/

/-- The names that are drawn as nodes. Statements with one name are about one node. -/
def Drawing.ids (d : Drawing) : List String := d.files.map fun n => nodeId n.path

def Drawing.links (d : Drawing) : List (String × String) := d.arrows.map fun a => (nodeId a.source, nodeId a.target)

/-- The drawing shows a graph: its nodes, under these names, are the registered paths, and two of them are joined
    exactly where the graph has an edge. -/
structure Drawing.Depicts (d : Drawing) (g : Graph) (name : String → String) : Prop where
  injective : ∀ p q, g.contains p = true → g.contains q = true → name p = name q → p = q
  nodes : ∀ id, id ∈ d.ids ↔ ∃ p, g.contains p = true ∧ name p = id
  edges : ∀ p q, g.contains p = true → g.contains q = true → ((name p, name q) ∈ d.links ↔ (p, q) ∈ g.edges)

variable {r : Report}

theorem mem_ids_drawing (hinv : r.graph.Inv) (id : String) :
    id ∈ r.drawing.ids ↔ ∃ p, r.graph.contains p = true ∧ nodeId p = id := by
  simp only [Drawing.ids, List.mem_map, (files_drawing_perm r).mem_iff, hinv.contains_iff]
  constructor
  · rintro ⟨n, hn, rfl⟩
    exact ⟨n.path, ⟨n, hn, rfl⟩, rfl⟩
  · rintro ⟨_, ⟨n, hn, rfl⟩, rfl⟩
    exact ⟨n, hn, rfl⟩

theorem links_drawing (r : Report) : r.drawing.links = r.graph.edges.map fun e => (nodeId e.1, nodeId e.2) := by
  rw [Drawing.links, drawing, List.map_map]
  rfl

/-- Names that are not shared make the drawing show the graph. -/
theorem depicts_of_injective (hinv : r.graph.Inv)
    (h : ∀ p q, r.graph.contains p = true → r.graph.contains q = true → nodeId p = nodeId q → p = q) :
    r.drawing.Depicts r.graph nodeId := by
  refine ⟨h, mem_ids_drawing hinv, fun p q hp hq => ?_⟩
  rw [links_drawing, List.mem_map]
  constructor
  · rintro ⟨⟨p', q'⟩, he, heq⟩
    obtain ⟨hp', hq'⟩ := hinv.consistent.edges_registered _ he
    obtain ⟨ep, eq⟩ := Prod.mk.inj heq
    obtain rfl := h _ _ hp' hp ep
    obtain rfl := h _ _ hq' hq eq
    exact he
  · intro he
    exact ⟨(p, q), he, rfl⟩

/-- Whatever names would show the graph, there are as many drawn nodes as files only if no two files share one. -/
theorem injective_of_depicts (hinv : r.graph.Inv) {name : String → String} (h : r.drawing.Depicts r.graph name)
    {p q : String} (hp : r.graph.contains p = true) (hq : r.graph.contains q = true) (he : nodeId p = nodeId q) :
    p = q := by
  let paths : Finset String := (r.graph.nodes.map (·.path)).toFinset
  have hmem : ∀ p, p ∈ paths ↔ r.graph.contains p = true := by
    intro p
    rw [List.mem_toFinset, hinv.contains_iff]
  have himage : paths.image nodeId = paths.image name := by
    ext id
    simp only [Finset.mem_image, hmem, ← mem_ids_drawing hinv, ← h.nodes]
  have hname : Set.InjOn name paths := fun p hp q hq => h.injective p q ((hmem p).mp hp) ((hmem q).mp hq)
  have hcard : (paths.image nodeId).card = paths.card := by
    rw [himage, Finset.card_image_of_injOn hname]
  exact Finset.card_image_iff.mp hcard ((hmem p).mpr hp) ((hmem q).mpr hq) he

/-- A drawing has one statement for each file. It shows the graph exactly if no two files get one name, and these are
    told apart by their letters and numbers alone. -/
theorem fileGraph_depicts_iff {calls : List Graph.Call} (hg : r.graph = .after calls) :
    r.fileGraph = r.drawing.text ∧ r.drawing.files.Perm r.graph.nodes ∧
      ((∃ name, r.drawing.Depicts r.graph name) ↔
        ∀ p q, r.graph.contains p = true → r.graph.contains q = true → nodeId p = nodeId q → p = q) ∧
      ∀ p q, nodeId p = nodeId q ↔ SameName p q := by
  have hinv : r.graph.Inv := hg ▸ Graph.inv_after calls
  refine ⟨fileGraph_eq_text r, files_drawing_perm r, ⟨?_, ?_⟩, fun p q => nodeId_eq_iff⟩
  · rintro ⟨name, h⟩ p q hp hq
    exact injective_of_depicts hinv h hp hq
  · intro h
    exact ⟨nodeId, depicts_of_injective hinv h⟩

def pair : List Graph.Call :=
  [.register "1st/a.ts" none, .register "1st/b.ts" (some .domain), .connect "1st/a.ts" "1st/b.ts"]

/-- Their names are not shared, so they are drawn as they are. -/
theorem fileGraph_depicts_iff_pair :
    ∃ name, (aggregate [] [] (.after pair)).drawing.Depicts (.after pair) name := by
  refine (fileGraph_depicts_iff (r := aggregate [] [] (.after pair)) rfl).2.2.1.mpr fun p q hp hq => ?_
  have hpaths : ∀ p, (Graph.after pair).contains p = true → p ∈ ["1st/a.ts", "1st/b.ts"] :=
    fun p h => ((Graph.inv_after pair).contains_iff p).mp h
  have hnames : ∀ p ∈ ["1st/a.ts", "1st/b.ts"], ∀ q ∈ ["1st/a.ts", "1st/b.ts"], nodeId p = nodeId q → p = q := by
    decide
  exact hnames p (hpaths p hp) q (hpaths q hq)

def signs : Report :=
  let units := [⟨"a-b.ts", "", [], [], none, 0⟩, ⟨"a_b.ts", "", [], [], none, 0⟩]
  aggregate [] units (.build units)

/-- Two files can be drawn as one. -/
theorem nodeId_merges_signs :
    signs.graph.nodes = [⟨"a-b.ts", none⟩, ⟨"a_b.ts", none⟩] ∧ signs.drawing.ids = ["a_b_ts", "a_b_ts"] ∧
      ¬∃ name, signs.drawing.Depicts signs.graph name := by
  have hp : signs.graph.contains "a-b.ts" = true := by decide
  have hq : signs.graph.contains "a_b.ts" = true := by decide
  have hname : nodeId "a-b.ts" = nodeId "a_b.ts" := by
    have hminus : nodeId "a-b.ts" = "a_b_ts" := by decide
    have hlow : nodeId "a_b.ts" = "a_b_ts" := by decide
    rw [hminus, hlow]
  refine ⟨by decide, by decide, ?_⟩
  rintro ⟨name, h⟩
  exact absurd (injective_of_depicts (Graph.inv_build _) h hp hq hname) (by decide)

end Report

end LayerLint
