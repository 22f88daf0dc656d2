/-
  LayerLint.Proofs.Report.Parts: the parts of a report as JSON documents.

  Units and violations are read back as they were, from their documents and from the texts of these in either layout
  (`exchange_round_trip`). A unit comes back without the text of its file, which is not written. Numbers are counts of
  64 bits in every document, so the numbers of a part have to be such counts (`Fits`).
-/

import LayerLint.Proofs.Json.Printing
import LayerLint.Proofs.Json.Records
import LayerLint.Source.Unit
import LayerLint.Violation

namespace LayerLint

/-! ## Numbers that fit -/

def Location.Fits (l : Location) : Prop := ∀ n ∈ l.line, n < twoPow 64

/-- Only a secret has a number, its column. -/
def Finding.Fits : Finding → Prop
  | hardcodedSecret _ column => column < twoPow 64
  | _ => True

structure Violation.Fits (v : Violation) : Prop where
  finding : v.finding.Fits
  location : v.location.Fits

structure SourceUnit.Fits (u : SourceUnit) : Prop where
  imports : ∀ i ∈ u.imports, i.line < twoPow 64
  functions : u.functions < twoPow 64

def SourceUnit.withoutText (u : SourceUnit) : SourceUnit := { u with content := "" }

/-! ## Reading back -/

open Json

theorem Import.ofJson?_toJson {i : Import} (h : i.line < twoPow 64) : Import.ofJson? i.toJson = some i := by
  simp only [Import.ofJson?, Import.toJson, record?_obj, required_cons, String.reduceEq, reduceIte, str?, count?_nat h,
    bind_given]
  rfl

theorem SourceUnit.ofJson?_toJson {u : SourceUnit} (h : u.Fits) :
    SourceUnit.ofJson? u.toJson = some u.withoutText := by
  have himports : list? Import.ofJson? (.arr (u.imports.map Import.toJson)) = some u.imports :=
    list?_map fun i hi => Import.ofJson?_toJson (h.imports i hi)
  have hlayer : nullable? (fun v => v.tag? .json >>= Layer.ofName?) (Layer.optionJson u.layer) = some u.layer := by
    cases u.layer with
    | none => rfl
    | some l => exact nullable?_of_read nofun (Layer.ofName?_name l)
  simp only [SourceUnit.ofJson?, SourceUnit.toJson, record?_obj, required_cons, optional_cons, String.reduceEq,
    reduceIte, str?, himports, strings?_strings, hlayer, count?_nat h.functions, bind_given]
  rfl

theorem Location.ofJson?_toJson {l : Location} (h : l.Fits) : Location.ofJson? l.toJson = some l := by
  obtain ⟨file, line⟩ := l
  cases line with
  | none =>
    simp only [Location.ofJson?, Location.toJson, record?_obj, required_cons, optional_cons, optional_nil,
      String.reduceEq, reduceIte, str?, bind_given, Option.map_none, Option.toList_none]
    rfl
  | some n =>
    have hn : n < twoPow 64 := h n rfl
    have hline : nullable? count? (.nat n) = some (some n) := nullable?_of_read nofun (count?_nat hn)
    simp only [Location.ofJson?, Location.toJson, record?_obj, required_cons, optional_cons, String.reduceEq,
      reduceIte, str?, hline, bind_given, Option.map_some, Option.toList_some]
    rfl

theorem Finding.ofJson?_toJson {f : Finding} (h : f.Fits) : Finding.ofJson? f.toJson = some f := by
  cases f with
  | hardcodedSecret kind column =>
    have hcolumn : column < twoPow 64 := h
    simp only [Finding.ofJson?, Finding.toJson, record?_obj, required_cons, String.reduceEq, reduceIte, str?,
      count?_nat hcolumn, bind_given]
    rfl
  | _ =>
    simp [Finding.ofJson?, Finding.toJson, record?_obj, required_cons, str?, tag?, Finding.readLayer,
      Layer.ofName?_name, strings?_strings]

theorem Violation.ofJson?_toJson {v : Violation} (h : v.Fits) : Violation.ofJson? v.toJson = some v := by
  obtain ⟨rule, finding, severity, location, message, suggestion⟩ := v
  have hfinding := Finding.ofJson?_toJson h.finding
  have hlocation := Location.ofJson?_toJson h.location
  cases suggestion with
  | none =>
    simp [Violation.ofJson?, Violation.toJson, record?_obj, required_cons, optional_cons, optional_nil, str?, tag?,
      Rule.ofName?_name, Severity.ofName?_name, hfinding, hlocation]
  | some s =>
    have hsuggestion : nullable? str? (.str s) = some (some s) := rfl
    simp [Violation.ofJson?, Violation.toJson, record?_obj, required_cons, optional_cons, str?, tag?,
      Rule.ofName?_name, Severity.ofName?_name, hfinding, hlocation, hsuggestion]

/-! ## Documents and their texts -/

theorem Layer.regular_optionJson (l : Option Layer) : Regular (Layer.optionJson l) := by
  cases l with
  | none => exact .null
  | some l => exact .str l.name

theorem Import.regular_toJson (i : Import) : Regular i.toJson := .obj (by simp) (by simp)

theorem SourceUnit.regular_toJson (u : SourceUnit) : Regular u.toJson :=
  .obj (by simp) (by simp [regular_map, Import.regular_toJson, Layer.regular_optionJson])

theorem Location.regular_toJson (l : Location) : Regular l.toJson := by
  unfold Location.toJson
  cases l.line with
  | none => exact .obj (by simp) (by simp)
  | some n => exact .obj (by simp) (by simp)

theorem Finding.regular_toJson (f : Finding) : Regular f.toJson := by
  cases f <;> exact .obj (by simp) (by simpa using .obj (by simp) (by simp))

theorem Violation.regular_toJson (v : Violation) : Regular v.toJson := by
  unfold Violation.toJson
  cases v.suggestion with
  | none => exact .obj (by simp) (by simp [Finding.regular_toJson, Location.regular_toJson])
  | some s => exact .obj (by simp) (by simp [Finding.regular_toJson, Location.regular_toJson])

/-- A document that is read back as `a` is also read back from its text. -/
theorem Json.Regular.read_render {α : Type} {v : Json} (h : Regular v) {read : Json → Option α} {a : α}
    (hread : read v = some a) (layout : Layout) : (parse? (v.render layout)).bind read = some a := by
  rw [h.faithful.parse layout, Option.bind_some, hread]

/-- Violations and units without text are read back from their documents, and from the texts of these. -/
theorem exchange_round_trip :
    (∀ v : Violation, v.Fits → Violation.ofJson? v.toJson = some v ∧
      ∀ layout, (parse? (v.toJson.render layout)).bind Violation.ofJson? = some v) ∧
    ∀ u : SourceUnit, u.Fits → u.content = "" → SourceUnit.ofJson? u.toJson = some u ∧
      ∀ layout, (parse? (u.toJson.render layout)).bind SourceUnit.ofJson? = some u := by
  constructor
  · intro v h
    have hread := Violation.ofJson?_toJson h
    exact ⟨hread, v.regular_toJson.read_render hread⟩
  · intro u h hcontent
    have htext : u.withoutText = u := by rw [SourceUnit.withoutText, ← hcontent]
    have hread := SourceUnit.ofJson?_toJson h
    rw [htext] at hread
    exact ⟨hread, u.regular_toJson.read_render hread⟩

def strayViolation : Violation :=
  ⟨.naming, .hardcodedSecret "key\n\"\x01" 18446744073709551615, .low, ⟨"a\\b.ts", some 3⟩, "\u2028", none⟩

def sharedUnit : SourceUnit := ⟨"é.ts", "", [⟨"./x", 1⟩, ⟨"", 2⟩], ["default"], some .shared, 2⟩

theorem exchange_round_trip_stray :
    (strayViolation.Fits ∧ (parse? (strayViolation.toJson.render .pretty)).bind Violation.ofJson? = some strayViolation) ∧
    sharedUnit.Fits ∧ sharedUnit.content = "" ∧
      (parse? (sharedUnit.toJson.render .compact)).bind SourceUnit.ofJson? = some sharedUnit := by
  have hviolation : strayViolation.Fits := by
    refine ⟨show 18446744073709551615 < twoPow 64 by decide, fun n hn => ?_⟩
    cases hn
    decide
  have hunit : sharedUnit.Fits := ⟨by decide, by decide⟩
  exact ⟨⟨hviolation, (exchange_round_trip.1 strayViolation hviolation).2 .pretty⟩, hunit, rfl,
    (exchange_round_trip.2 sharedUnit hunit rfl).2 .compact⟩

end LayerLint
