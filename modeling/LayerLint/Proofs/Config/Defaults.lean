/-
  LayerLint.Proofs.Config.Defaults: documents that give the same settings.

  A section that is missing has a default of its own; one that is given has defaults for the fields it leaves out. The
  two agree (`read_empty`): a missing section can be written as an empty table. A document can also be given keys that
  mean nothing to the section they stand in. Neither changes the settings, in a section or in a section of a section
  (`read_of_extends`), so no sequence of such additions does (`additions_keep_settings`).
-/

import LayerLint.Config.Codec
import LayerLint.Proofs.Json.Records
import Mathlib.Logic.Relation

namespace LayerLint.Config

open Json

/-! ## Sections -/

/-- The whole document, and each table of it whose keys are fixed. -/
inductive Section where
  | root
  | project
  | layers
  | allowed
  | aggregates
  | naming
  | packages
  | rules
  deriving DecidableEq, Repr

namespace Section

def fields : Section → List String
  | root => ["project", "layers", "aggregates", "naming", "packages", "rules"]
  | project => ["include", "exclude", "max_workers"]
  | layers => layerNames ++ ["allowed"]
  | allowed => layerNames
  | aggregates => ["root_markers", "structural_folders", "shared_folders"]
  | naming => ["suffixes", "vague_suffixes"]
  | packages => layerNames
  | rules => ["severities", "fail_on", "disabled"]

def part? : Section → String → Option Section
  | root, "project" => some project
  | root, "layers" => some layers
  | root, "aggregates" => some aggregates
  | root, "naming" => some naming
  | root, "packages" => some packages
  | root, "rules" => some rules
  | layers, "allowed" => some allowed
  | _, _ => none

abbrev Settings : Section → Type
  | root => Config
  | project => Project
  | layers => Layers
  | allowed => PerLayer (List Layer)
  | aggregates => Aggregates
  | naming => Naming
  | packages => Packages
  | rules => Rules

def default : (s : Section) → s.Settings
  | root => Config.default
  | project => Project.default
  | layers => Layers.default
  | allowed => Layers.defaultAllowed
  | aggregates => Aggregates.default
  | naming => Naming.default
  | packages => Packages.default
  | rules => Rules.default

def read (format : Format) : (s : Section) → Json → Option s.Settings
  | root => Config.ofJson? format
  | project => Project.ofJson? format
  | layers => Layers.ofJson? format
  | allowed => readAllowed format
  | aggregates => Aggregates.ofJson? format
  | naming => Naming.ofJson? format
  | packages => Packages.ofJson? format
  | rules => Rules.ofJson? format

theorem nodup_fields (s : Section) : s.fields.Nodup := by cases s <;> decide

variable (format : Format)

/-- The defaults of the fields of a section make up the default of the section. -/
theorem read_empty (s : Section) : s.read format (.obj []) = some s.default := by cases s <;> rfl

/-! ## What a section depends on -/

/-- Fields of which a section reads the same settings: the same values, but for the parts, which only have to be read as
    the same settings in turn. -/
structure Alike (s : Section) (r r' : Fields) : Prop where
  values : ∀ name ∈ s.fields, s.part? name = none → r name = r' name
  parts : ∀ name t, s.part? name = some t →
    r.optional name (t.read format) t.default = r'.optional name (t.read format) t.default

variable {format} {s t : Section} {v w : Json}

theorem read_of_refused (h : record? format s.fields v = none) : s.read format v = none := by
  cases s <;> exact congrArg (· >>= _) h

theorem Alike.optional_eq {r r' : Fields} (h : Alike format s r r') (name : String) (hname : name ∈ s.fields)
    (hvalue : s.part? name = none) {α : Type} (read : Json → Option α) (default : α) :
    r.optional name read default = r'.optional name read default := by
  rw [Fields.optional, Fields.optional, h.values name hname hvalue]

theorem read_of_alike {r r' : Fields} (hv : record? format s.fields v = some r)
    (hw : record? format s.fields w = some r') (h : Alike format s r r') : s.read format v = s.read format w := by
  cases s with
  | root =>
    have hproject := h.parts "project" project rfl
    have hlayers := h.parts "layers" layers rfl
    have haggregates := h.parts "aggregates" aggregates rfl
    have hnaming := h.parts "naming" naming rfl
    have hpackages := h.parts "packages" packages rfl
    have hrules := h.parts "rules" rules rfl
    simp only [fields, read, default] at hv hw hproject hlayers haggregates hnaming hpackages hrules
    simp only [read, Config.ofJson?, hv, hw, bind_given, hproject, hlayers, haggregates, hnaming, hpackages, hrules]
  | layers =>
    have hwords (l : Layer) := h.optional_eq l.name (by cases l <;> decide) (by cases l <;> rfl) strings?
      (Layers.defaultWords.get l)
    have hallowed := h.parts "allowed" allowed rfl
    simp only [fields, read, default] at hv hw hallowed
    simp only [read, Layers.ofJson?, hv, hw, bind_given, hwords, hallowed]
  | project | allowed | aggregates | naming | packages | rules =>
    have hvalue {α : Type} {name : String} (hname : name ∈ fields _) := h.optional_eq (α := α) name hname rfl
    simp only [fields] at hv hw
    simp (disch := decide) only [read, Project.ofJson?, readAllowed, Aggregates.ofJson?, Naming.ofJson?, Packages.ofJson?,
      Rules.ofJson?, hv, hw, bind_given, hvalue]

end Section

/-! ## Additions to a document -/

open Section

/-- One addition to the document of a section. -/
inductive Extends : Section → Json → Json → Prop where
  /-- A key that means nothing to the section, with any value. -/
  | unknown {s : Section} (before after : List (String × Json)) {key : String} (v : Json) : key ∉ s.fields →
      Extends s (.obj (before ++ after)) (.obj (before ++ (key, v) :: after))
  /-- A part that is missing, as an empty table. -/
  | part {s t : Section} (before after : List (String × Json)) {key : String} : s.part? key = some t →
      key ∉ (before ++ after).map (·.1) →
      Extends s (.obj (before ++ after)) (.obj (before ++ (key, .obj []) :: after))
  /-- An addition to a part. -/
  | inPart {s t : Section} (before after : List (String × Json)) {key : String} {v w : Json} : s.part? key = some t →
      Extends t v w → Extends s (.obj (before ++ (key, v) :: after)) (.obj (before ++ (key, w) :: after))
  /-- In a section that is written as a list, the next item if that is a part. -/
  | item {s t : Section} (items : List Json) {key : String} : s.part? key = some t →
      s.fields[items.length]? = some key → Extends s (.arr items) (.arr (items ++ [.obj []]))
  /-- In a section that is written as a list, an addition to a part. -/
  | inItem {s t : Section} (before after : List Json) {key : String} {v w : Json} : s.part? key = some t →
      s.fields[before.length]? = some key → Extends t v w →
      Extends s (.arr (before ++ v :: after)) (.arr (before ++ w :: after))

variable {format : Format} {s t : Section} {before after : List (String × Json)} {key : String} {v w : Json}

theorem mem_fields_of_part (h : s.part? key = some t) : key ∈ s.fields := by
  unfold part? at h
  split at h <;> simp_all [fields]

theorem alike_of_one {r r' : Fields} (hother : ∀ name ∈ s.fields, name ≠ key → r name = r' name)
    (hkey : key ∈ s.fields → ∃ t, s.part? key = some t ∧
      r.optional key (t.read format) t.default = r'.optional key (t.read format) t.default) : Alike format s r r' := by
  constructor
  · intro name hname hvalue
    refine hother name hname ?_
    rintro rfl
    obtain ⟨t, hpart, -⟩ := hkey hname
    rw [hvalue] at hpart
    cases hpart
  · intro name t hpart
    have hname := mem_fields_of_part hpart
    by_cases heq : name = key
    · subst heq
      obtain ⟨t', hpart', hsame⟩ := hkey hname
      rw [hpart, Option.some.injEq] at hpart'
      rwa [hpart']
    · rw [Fields.optional, Fields.optional, hother name hname heq]

theorem alike_unknown (h : key ∉ s.fields) :
    Alike format s (fieldsOf (before ++ after)) (fieldsOf (before ++ (key, v) :: after)) :=
  alike_of_one (fun _ _ hne => (fieldsOf_insert hne).symm) fun hkey => absurd hkey h

theorem alike_part (hpart : s.part? key = some t) (hnew : key ∉ (before ++ after).map (·.1)) :
    Alike format s (fieldsOf (before ++ after)) (fieldsOf (before ++ (key, .obj []) :: after)) := by
  refine alike_of_one (fun _ _ hne => (fieldsOf_insert hne).symm) fun _ => ⟨t, hpart, ?_⟩
  have hmissing := fieldsOf_eq_none hnew
  rw [fieldsOf_append, Option.or_eq_none_iff] at hmissing
  simp [Fields.optional, fieldsOf_append, fieldsOf_cons, hmissing, read_empty]

theorem alike_inPart (hpart : s.part? key = some t) (h : t.read format v = t.read format w) :
    Alike format s (fieldsOf (before ++ (key, v) :: after)) (fieldsOf (before ++ (key, w) :: after)) := by
  refine alike_of_one (fun _ _ hne => by rw [fieldsOf_insert hne, fieldsOf_insert hne]) fun _ => ⟨t, hpart, ?_⟩
  -- An earlier entry with the key would hide this one from the reader.
  cases hfirst : fieldsOf before key <;> simp [Fields.optional, fieldsOf_append, fieldsOf_cons, hfirst, h]

/-! ## Sections written as lists -/

/-- A list of a section's values, cut where a field has its place, names the values on either side apart. -/
theorem exists_zip_eq {n : Nat} (h : s.fields[n]? = some key) : ∃ names names', s.fields = names ++ key :: names' ∧
    ∀ before after : List Json, before.length = n →
      s.fields.zip (before ++ after) = names.zip before ++ (key :: names').zip after := by
  obtain ⟨hn, hkey⟩ := List.getElem?_eq_some_iff.mp h
  have hfields : s.fields = s.fields.take n ++ key :: s.fields.drop (n + 1) := by
    rw [← hkey, ← List.drop_eq_getElem_cons, List.take_append_drop]
  refine ⟨s.fields.take n, s.fields.drop (n + 1), hfields, fun before after hlen => ?_⟩
  rw [← List.zip_append (by simp; omega), ← hfields]

theorem read_of_extends (h : Extends s v w) : s.read format v = s.read format w := by
  induction h with
  | unknown before after v hkey => exact read_of_alike rfl rfl (alike_unknown hkey)
  | part before after hpart hnew => exact read_of_alike rfl rfl (alike_part hpart hnew)
  | inPart before after hpart _ ih => exact read_of_alike rfl rfl (alike_inPart hpart ih)
  | @item s t items key hpart hplace =>
    obtain ⟨names, names', hfields, hzip⟩ := exists_zip_eq hplace
    have hroom : items.length < s.fields.length := (List.getElem?_eq_some_iff.mp hplace).1
    have hbefore := hzip items [] rfl
    have hafter := hzip items [.obj []] rfl
    rw [List.append_nil, List.zip_nil_right] at hbefore
    rw [List.zip_cons_cons, List.zip_nil_right] at hafter
    have hnew : key ∉ (names.zip items ++ []).map Prod.fst := by
      have hnodup := s.nodup_fields
      rw [hfields, List.nodup_append] at hnodup
      rw [List.append_nil, List.mem_map]
      rintro ⟨e, he, rfl⟩
      exact hnodup.2.2 e.1 (List.of_mem_zip he).1 e.1 List.mem_cons_self rfl
    refine read_of_alike (record?_arr (.inr (by omega))) (record?_arr (.inr (by simp; omega))) ?_
    rw [hbefore, hafter]
    exact alike_part hpart hnew
  | @inItem s t before after key v w hpart hplace _ ih =>
    obtain ⟨names, names', -, hzip⟩ := exists_zip_eq hplace
    have hlen : (before ++ v :: after).length = (before ++ w :: after).length := by simp
    by_cases hroom : format = .toml ∨ (before ++ v :: after).length ≤ s.fields.length
    · refine read_of_alike (record?_arr hroom) (record?_arr (hlen ▸ hroom)) ?_
      rw [hzip before _ rfl, hzip before _ rfl]
      exact alike_inPart hpart ih
    · rw [read_of_refused (record?_arr_of_not hroom), read_of_refused (record?_arr_of_not (hlen ▸ hroom))]

/-- Settings do not change when missing sections are added to their document as empty tables, or keys that mean nothing
    to the sections they are added to. -/
theorem additions_keep_settings {v w : Json} (h : Relation.ReflTransGen (Extends .root) v w) (format : Format) :
    ofJson? format w = ofJson? format v := by
  induction h with
  | refl => rfl
  | tail _ hstep ih => exact (read_of_extends hstep).symm.trans ih

def sparse : Json :=
  .obj [("layers", .obj [("shared", .strings ["kit"])]), ("rules", .arr [.obj [], .str "low"])]

def padded : Json :=
  .obj [("project", .obj [("domain", .null)]),
    ("layers", .obj [("allowed", .obj [("include", .bool true)]), ("shared", .strings ["kit"])]),
    ("rules", .arr [.obj [], .str "low"])]

theorem additions_keep_settings_sparse :
    Relation.ReflTransGen (Extends .root) sparse padded ∧
    ofJson? .toml padded = ofJson? .toml sparse ∧
    ofJson? .toml sparse = some { Config.default with
      layers := ⟨⟨["domain"], ["application"], ["infrastructure"], ["kit"]⟩, Layers.defaultAllowed⟩
      rules := ⟨[], .low, []⟩ } := by
  have hallowed : Extends .layers (.obj [("shared", .strings ["kit"])])
      (.obj [("allowed", .obj []), ("shared", .strings ["kit"])]) := .part [] _ rfl (by decide)
  have hinclude : Extends .layers (.obj [("allowed", .obj []), ("shared", .strings ["kit"])])
      (.obj [("allowed", .obj [("include", .bool true)]), ("shared", .strings ["kit"])]) :=
    .inPart [] _ rfl (.unknown [] [] _ (by decide))
  have hproject : Extends .project (.obj []) (.obj [("domain", .null)]) := .unknown [] [] _ (by decide)
  have h : Relation.ReflTransGen (Extends .root) sparse padded :=
    .tail (.tail (.tail (.tail .refl (.inPart [] _ rfl hallowed)) (.inPart [] _ rfl hinclude))
      (.part [] _ rfl (by decide))) (.inPart [] _ rfl hproject)
  exact ⟨h, additions_keep_settings h .toml, rfl⟩

end LayerLint.Config
