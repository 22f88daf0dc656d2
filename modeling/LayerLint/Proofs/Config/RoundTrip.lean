/-
  LayerLint.Proofs.Config.RoundTrip: settings written as a document and read back.

  Each section is read back from its own document, and so the settings from the document of all sections
  (`settings_round_trip`). It does not matter which format the document is taken to come from. No table needs an order or
  distinct keys; only the number of workers has to be a count of 64 bits.
-/

import LayerLint.Config.Codec
import LayerLint.Proofs.Json.Records

namespace LayerLint.Config

open Json

variable (format : Format)

theorem readLayer_name (l : Layer) : readLayer format (.str l.name) = some l := Layer.ofName?_name l

theorem readSeverity_name (s : Severity) : readSeverity format (.str s.name) = some s := Severity.ofName?_name s

theorem table?_tableJson (t : List (String × String)) : table? str? (tableJson t) = some t :=
  table?_map .str fun _ _ => rfl

theorem list?_layers (ls : List Layer) : list? (readLayer format) (.strings (ls.map Layer.name)) = some ls := by
  rw [strings, List.map_map]
  exact list?_map fun l _ => readLayer_name format l

theorem Project.ofJson?_toJson {p : Project} (h : p.maxWorkers < twoPow 64) : ofJson? format p.toJson = some p := by
  simp only [ofJson?, toJson, record?_obj, optional_cons, String.reduceEq, reduceIte, strings?_strings, count?_nat h,
    bind_given]
  rfl

theorem readAllowed_allowedJson (a : PerLayer (List Layer)) : readAllowed format (allowedJson a) = some a := by
  simp only [readAllowed, allowedJson, Layer.all, List.map_cons, List.map_nil, Layer.name, PerLayer.get, record?_obj,
    optional_cons, String.reduceEq, reduceIte, list?_layers, bind_given]
  rfl

theorem Layers.ofJson?_toJson (s : Layers) : ofJson? format s.toJson = some s := by
  simp only [ofJson?, toJson, Layer.all, List.map_cons, List.map_nil, List.cons_append, List.nil_append, Layer.name,
    PerLayer.get, record?_obj, optional_cons, String.reduceEq, reduceIte, strings?_strings, readAllowed_allowedJson,
    bind_given]
  rfl

theorem Aggregates.ofJson?_toJson (a : Aggregates) : ofJson? format a.toJson = some a := by
  simp only [ofJson?, toJson, record?_obj, optional_cons, String.reduceEq, reduceIte, strings?_strings, bind_given]
  rfl

theorem Naming.ofJson?_toJson (n : Naming) : ofJson? format n.toJson = some n := by
  simp only [ofJson?, toJson, record?_obj, optional_cons, String.reduceEq, reduceIte, table?_tableJson, bind_given]
  rfl

theorem Packages.ofJson?_toJson (p : Packages) : ofJson? format (toJson p) = some p := by
  simp only [ofJson?, toJson, Layer.all, List.map_cons, List.map_nil, Layer.name, PerLayer.get, record?_obj,
    optional_cons, String.reduceEq, reduceIte, strings?_strings, bind_given]
  rfl

theorem Rules.ofJson?_toJson (s : Rules) : ofJson? format s.toJson = some s := by
  have hseverities : table? (readSeverity format) (.obj (s.severities.map fun e => (e.1, .str e.2.name))) =
      some s.severities := table?_map (fun severity => .str severity.name) fun e _ => readSeverity_name format e.2
  simp only [ofJson?, toJson, record?_obj, optional_cons, String.reduceEq, reduceIte, hseverities,
    readSeverity_name, strings?_strings, bind_given]
  rfl

theorem ofJson?_toJson {c : Config} (h : c.project.maxWorkers < twoPow 64) : ofJson? format c.toJson = some c := by
  simp only [ofJson?, toJson, record?_obj, optional_cons, String.reduceEq, reduceIte, Project.ofJson?_toJson format h,
    Layers.ofJson?_toJson, Aggregates.ofJson?_toJson, Naming.ofJson?_toJson, Packages.ofJson?_toJson,
    Rules.ofJson?_toJson, bind_given]
  rfl

/-- Settings are read back from their document, and written as the same document again. -/
theorem settings_round_trip (c : Config) (h : c.project.maxWorkers < twoPow 64) (format : Format) :
    ofJson? format c.toJson = some c ∧ (ofJson? format c.toJson).map toJson = some c.toJson := by
  have hread := ofJson?_toJson format h
  exact ⟨hread, by rw [hread, Option.map_some]⟩

/-- Settings that keep no default: empty lists, tables of which no entry means anything, the greatest number of workers. -/
def unusual : Config where
  project := ⟨[], ["\x00"], 18446744073709551615⟩
  layers := ⟨⟨[], ["domain", "domain"], [], []⟩, ⟨[], [.shared, .application], [], [.domain]⟩⟩
  aggregates := ⟨[], [""], []⟩
  naming := ⟨[("b", ""), ("a", "\""), ("b", "x")], []⟩
  packages := ⟨[], [], ["pg"], []⟩
  rules := ⟨[("nothing", .low)], .critical, ["NAMING", "naming"]⟩

theorem settings_round_trip_unusual :
    unusual.project.maxWorkers < twoPow 64 ∧ ofJson? .json unusual.toJson = some unusual :=
  ⟨by decide, (settings_round_trip unusual (by decide) .json).1⟩

end LayerLint.Config
