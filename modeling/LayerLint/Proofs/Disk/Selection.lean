/-
  LayerLint.Proofs.Disk.Selection: which files are analysed by default.

  The default patterns have three shapes, so each of them is a condition on the text of a path, and together they are the
  rule that a user would give (`Selected`): a source file by its ending, not below a directory of dependencies or of
  built code, no declarations and no tests. No other file passes the patterns, whatever is in its name
  (`scan_default_iff_selected`).
-/

import LayerLint.Config.Basic
import LayerLint.Proofs.Disk.Scan
import LayerLint.Proofs.Glob.Language
import Mathlib.Data.List.Infix

namespace LayerLint.Disk

open Glob (ending having through)

def sourceEndings : List String := [".ts", ".tsx", ".js", ".jsx"]

def foreignDirs : List String := ["node_modules", "dist", "build"]

def testMarks : List String := [".spec.", ".test."]

structure Selected (path : String) : Prop where
  source : ∃ text ∈ sourceEndings, text.toList <:+ path.toList
  /-- No segment but the last one is the name of a foreign directory. -/
  own : ∀ name ∈ foreignDirs, name.toList ∉ (Path.segments path).dropLast
  noDeclarations : ¬".d.ts".toList <:+ path.toList
  noTest : ∀ text ∈ testMarks, ¬text.toList <:+: path.toList

theorem selected_iff {path : String} :
    Selected path ↔ (∃ text ∈ sourceEndings, text.toList <:+ path.toList) ∧
      (∀ name ∈ foreignDirs, name.toList ∉ (Path.segments path).dropLast) ∧ ¬".d.ts".toList <:+ path.toList ∧
      ∀ text ∈ testMarks, ¬text.toList <:+: path.toList :=
  ⟨fun h => ⟨h.source, h.own, h.noDeclarations, h.noTest⟩, fun h => ⟨h.1, h.2.1, h.2.2.1, h.2.2.2⟩⟩

instance (path : String) : Decidable (Selected path) := decidable_of_iff' _ selected_iff

/-! ## The default patterns -/

theorem parseAll_defaultIncludes :
    Glob.parseAll Config.Project.default.includes = .ok (sourceEndings.map ending) := rfl

theorem parseAll_defaultExcludes :
    Glob.parseAll Config.Project.default.excludes =
      .ok (foreignDirs.map through ++ ending ".d.ts" :: testMarks.map having) := rfl

variable {path : String}

theorem any_accepts_map_iff {shape : String → Glob} {P : String → Prop} {texts : List String}
    (h : ∀ text ∈ texts, (shape text).accepts path = true ↔ P text) :
    (texts.map shape).any (·.accepts path) = true ↔ ∃ text ∈ texts, P text := by
  rw [List.any_map, List.any_eq_true]
  exact exists_congr fun text => and_congr_right (h text)

theorem wanted_default_iff :
    wanted (sourceEndings.map ending) (foreignDirs.map through ++ ending ".d.ts" :: testMarks.map having) path = true ↔
      Selected path := by
  have hsource : (sourceEndings.map ending).any (·.accepts path) = true ↔
      ∃ text ∈ sourceEndings, text.toList <:+ path.toList := by
    have hascii : ∀ text ∈ sourceEndings, Ascii text.toList ∧ text.toList ≠ [] := by decide
    exact any_accepts_map_iff fun text hm => Glob.accepts_ending_iff (hascii text hm).1 (hascii text hm).2
  have hforeign : (foreignDirs.map through).any (·.accepts path) = true ↔
      ∃ name ∈ foreignDirs, name.toList ∈ (Path.segments path).dropLast := by
    have hascii : ∀ name ∈ foreignDirs, Ascii name.toList ∧ '/' ∉ name.toList := by decide
    exact any_accepts_map_iff fun name hm => Glob.accepts_through_iff_mem (hascii name hm).1 (hascii name hm).2
  have hdeclarations : (ending ".d.ts").accepts path = true ↔ ".d.ts".toList <:+ path.toList :=
    Glob.accepts_ending_iff (by decide) (by decide)
  have htest : (testMarks.map having).any (·.accepts path) = true ↔
      ∃ text ∈ testMarks, text.toList <:+: path.toList := by
    have hascii : ∀ text ∈ testMarks, Ascii text.toList ∧ text.toList ≠ [] := by decide
    exact any_accepts_map_iff fun text hm => Glob.accepts_having_iff (hascii text hm).1 (hascii text hm).2
  have hsome : (sourceEndings.map ending).isEmpty = false := rfl
  rw [wanted, hsome, Bool.false_or, Bool.and_eq_true, Bool.not_eq_true', Bool.eq_false_iff, Ne, List.any_append,
    List.any_cons, Bool.or_eq_true, Bool.or_eq_true, hsource, hforeign, hdeclarations, htest, selected_iff]
  push Not
  rfl

/-! ## The scan -/

/-- A path passes the default patterns if and only if it is selected, and so a scan by default lists the selected ones
    of the files below its directory. -/
theorem scan_default_iff_selected :
    (∃ includes excludes, Glob.parseAll Config.Project.default.includes = .ok includes ∧
      Glob.parseAll Config.Project.default.excludes = .ok excludes ∧
      ∀ path, wanted includes excludes path = true ↔ Selected path) ∧
    ∀ (d : Disk) (root : String) (dir : Address), d.directory root = .ok dir →
      ∃ paths, d.scan root Config.Project.default.includes Config.Project.default.excludes = .ok paths ∧
        ∀ path, path ∈ paths ↔ (∃ names text, (dir ++ names, .file text) ∈ d.entries ∧ listed names = path) ∧
          Selected path := by
  refine ⟨⟨_, _, parseAll_defaultIncludes, parseAll_defaultExcludes, fun path => wanted_default_iff⟩, ?_⟩
  intro d root dir hd
  refine ⟨d.listing dir _ _, ?_, fun path => mem_listing.trans (and_congr_right fun _ => wanted_default_iff)⟩
  rw [scan, hd, parseAll_defaultIncludes, parseAll_defaultExcludes]
  rfl

def yard : Disk :=
  ((((empty ["work"]).addFile ["work", "shop", "build.ts"] (some "")).addFile
    ["work", "shop", "dist", "order.js"] (some "")).addFile
    ["work", "shop", "order", "order.spec.ts"] (some "")).addFile
    ["work", "shop", "rebuild", "order.tsx"] (some "")

theorem scan_default_iff_selected_yard :
    yard.directory "shop" = .ok ["work", "shop"] ∧
      ∃ paths, yard.scan "shop" Config.Project.default.includes Config.Project.default.excludes = .ok paths ∧
        "build.ts" ∈ paths ∧ "rebuild/order.tsx" ∈ paths ∧ "dist/order.js" ∉ paths ∧ "order/order.spec.ts" ∉ paths := by
  have hd : yard.directory "shop" = .ok ["work", "shop"] := by decide +kernel
  obtain ⟨paths, hs, hiff⟩ := scan_default_iff_selected.2 yard "shop" ["work", "shop"] hd
  refine ⟨hd, paths, hs, ?_, ?_, fun hm => ?_, fun hm => ?_⟩
  · exact (hiff "build.ts").mpr ⟨⟨["build.ts"], some "", by decide, by decide⟩, by decide⟩
  · exact (hiff "rebuild/order.tsx").mpr ⟨⟨["rebuild", "order.tsx"], some "", by decide, by decide⟩, by decide⟩
  · exact absurd ((hiff "dist/order.js").mp hm).2 (by decide)
  · exact absurd ((hiff "order/order.spec.ts").mp hm).2 (by decide)

end LayerLint.Disk
