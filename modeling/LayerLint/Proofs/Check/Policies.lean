/-
  LayerLint.Proofs.Check.Policies: what changes when a policy is widened or narrowed.

  Three checks follow a list in the settings: the layers that a layer may import, the packages that it may not use, and
  the folders that all aggregates share. A longer list of allowed layers or shared folders takes violations away, and a
  longer list of denied packages adds some. Nothing else changes: no other import is reported, none is reported in another
  place, and what stays is in the same order (`policies_monotone`). A violation is known by its place and by what was found
  there; the suggestion of a forbidden direction names the allowed layers and may change.
-/

import LayerLint.Check.Basic
import LayerLint.Proofs.Check.Aggregate
import LayerLint.Proofs.Check.Package

namespace LayerLint.Check

/-- What a violation is known by. -/
def told (v : Violation) : Location × Finding := (v.location, v.finding)

variable {ctx : Context} {u : SourceUnit} {i : Import} {v : Violation}

/-! ## Layers -/

namespace Direction

theorem permits_of_subset {allowed wider : PerLayer (List Layer)} (h : ∀ l, allowed.get l ⊆ wider.get l)
    {importing imported : Layer} (hp : Config.permits allowed importing imported = true) :
    Config.permits wider importing imported = true := by
  rw [Config.permits, Bool.or_eq_true, decide_eq_true_eq, List.contains_iff_mem] at hp ⊢
  exact hp.imp id fun hmem => h importing hmem

theorem flagged?_of_subset {allowed wider : PerLayer (List Layer)} (h : ∀ l, allowed.get l ⊆ wider.get l)
    (hv : flagged? wider ctx u i = some v) : ∃ w, flagged? allowed ctx u i = some w ∧ told w = told v := by
  obtain ⟨importing, hlayer, hv⟩ := Option.bind_eq_some_iff.mp hv
  rw [flagged?, hlayer, Option.bind_some]
  unfold ofImport? at hv ⊢
  cases hclass : ctx.classifier.classify i.specifier with
  | none =>
    simp only [hclass] at hv
    cases hv
  | some imported =>
    simp only [hclass] at hv ⊢
    by_cases hwider : Config.permits wider importing imported = true
    · rw [if_pos hwider] at hv
      cases hv
    · have hnarrow : ¬ Config.permits allowed importing imported = true := fun hp => hwider (permits_of_subset h hp)
      rw [if_neg hwider] at hv
      cases hv
      exact ⟨_, if_neg hnarrow, rfl⟩

end Direction

/-! ## Packages -/

theorem Package.flagged?_of_subset {denied stricter : Config.Packages} (h : ∀ l, denied.get l ⊆ stricter.get l)
    (hv : Package.flagged? denied ctx u i = some v) : Package.flagged? stricter ctx u i = some v := by
  obtain ⟨layer, hlayer, hv⟩ := Option.bind_eq_some_iff.mp hv
  rw [Package.flagged?, hlayer, Option.bind_some]
  unfold Package.ofImport? at hv ⊢
  cases hs : Package.ofSpecifier? i.specifier with
  | none =>
    simp only [hs] at hv
    cases hv
  | some package =>
    simp only [hs] at hv ⊢
    by_cases hdenied : (denied.get layer).contains package = true
    · have hstricter : (stricter.get layer).contains package = true :=
        List.contains_iff_mem.mpr (h layer (List.contains_iff_mem.mp hdenied))
      rw [if_pos hdenied] at hv
      rw [if_pos hstricter]
      exact hv
    · rw [if_neg hdenied] at hv
      cases hv

/-! ## Aggregates -/

namespace Aggregate

variable {settings : Config.Aggregates} {folders : List String}

theorem listed_of_subset {names more : List String} (h : names ⊆ more) {seg : List Char}
    (hl : listed names seg = true) : listed more seg = true := by
  obtain ⟨name, hname, hsame⟩ := List.any_eq_true.mp hl
  exact List.any_eq_true.mpr ⟨name, h hname, hsame⟩

theorem passesShared_of_subset (h : settings.sharedFolders ⊆ folders) {target : String}
    (hp : passesShared settings target = true) :
    passesShared { settings with sharedFolders := folders } target = true := by
  have hmarker : afterMarker? { settings with sharedFolders := folders } = afterMarker? settings := rfl
  unfold passesShared at hp ⊢
  rw [hmarker]
  cases hdirs : afterMarker? settings (Path.segments target).dropLast with
  | none =>
    rw [hdirs] at hp
    cases hp
  | some dirs =>
    rw [hdirs] at hp
    obtain ⟨d, hd, hshared⟩ := List.any_eq_true.mp hp
    exact List.any_eq_true.mpr ⟨d, hd, listed_of_subset h hshared⟩

theorem flagged?_of_subset (h : settings.sharedFolders ⊆ folders)
    (hv : flagged? { settings with sharedFolders := folders } ctx u i = some v) : flagged? settings ctx u i = some v := by
  -- the aggregates are the same, so the shared folders are all that can make a difference
  have hinfer : infer? { settings with sharedFolders := folders } = infer? settings := rfl
  obtain ⟨importing, himporting, hv⟩ := Option.bind_eq_some_iff.mp hv
  rw [hinfer] at himporting
  rw [flagged?, himporting, Option.bind_some]
  unfold ofImport? at hv ⊢
  split at hv
  · cases hv
  rename_i hr
  obtain ⟨target, ht, hv⟩ := Option.bind_eq_some_iff.mp hv
  obtain ⟨imported, himported, hv⟩ := Option.bind_eq_some_iff.mp hv
  rw [hinfer] at himported
  split at hv
  · cases hv
  rename_i hkept
  have hkept' : ¬ (imported == importing || passesShared settings target || isInternal settings u i.specifier) = true := by
    simp only [Bool.or_eq_true, not_or] at hkept ⊢
    exact ⟨⟨hkept.1.1, fun hshared => hkept.1.2 (passesShared_of_subset h hshared)⟩, hkept.2⟩
  rw [if_neg hr, ht]
  show (infer? settings target >>= _) = _
  rw [himported]
  show (if _ then _ else _) = _
  rw [if_neg hkept']
  exact hv

end Aggregate

/-- A longer list of allowed layers or shared folders takes violations away, a longer list of denied packages adds some, and
    otherwise the reports are the same. -/
theorem policies_monotone (ctx : Context) {allowed wider : PerLayer (List Layer)}
    (hallowed : ∀ l, allowed.get l ⊆ wider.get l) {denied stricter : Config.Packages}
    (hdenied : ∀ l, denied.get l ⊆ stricter.get l) {settings : Config.Aggregates} {folders : List String}
    (hshared : settings.sharedFolders ⊆ folders) :
    (((direction wider).run ctx).map told).Sublist (((direction allowed).run ctx).map told) ∧
      (((package denied).run ctx).map told).Sublist (((package stricter).run ctx).map told) ∧
      (((aggregate { settings with sharedFolders := folders }).run ctx).map told).Sublist
        (((aggregate settings).run ctx).map told) := by
  refine ⟨?_, ?_, ?_⟩
  · show ((Direction.run wider ctx).map told).Sublist ((Direction.run allowed ctx).map told)
    simp only [Direction.run, Direction.ofUnit_eq]
    exact flatMap_imports_sublist (fun _ _ _ => Direction.flagged?_of_subset hallowed) ctx.units
  · show ((Package.run denied ctx).map told).Sublist ((Package.run stricter ctx).map told)
    simp only [Package.run, Package.ofUnit_eq]
    exact flatMap_imports_sublist (fun _ _ v hv => ⟨v, Package.flagged?_of_subset hdenied hv, rfl⟩) ctx.units
  · show ((Aggregate.run { settings with sharedFolders := folders } ctx).map told).Sublist
      ((Aggregate.run settings ctx).map told)
    simp only [Aggregate.run, Aggregate.ofUnit_eq]
    exact flatMap_imports_sublist (fun _ _ v hv => ⟨v, Aggregate.flagged?_of_subset hshared hv, rfl⟩) ctx.units

def hub : SourceUnit :=
  ⟨"src/domain/order/Order.ts", "",
   [⟨"../../infrastructure/Db", 1⟩, ⟨"../../application/Place", 2⟩, ⟨"typeorm", 3⟩, ⟨"axios", 4⟩, ⟨"../user/User", 5⟩,
    ⟨"../user/kernel/Id", 6⟩], [], some .domain, 0⟩

def hubContext : Context := ⟨[hub], .empty, .default, .default⟩

def opened : PerLayer (List Layer) := { Config.Layers.defaultAllowed with domain := [.application, .shared] }

def reportedLines (check : Check) : List (Option Nat) := (check.run hubContext).map (·.location.line)

/-- Each of the three lists, made longer by one entry, decides about one of the imports. -/
theorem policies_monotone_hub :
    (reportedLines (direction Config.Layers.defaultAllowed) = [some 1, some 2] ∧ reportedLines (direction opened) = [some 1]) ∧
      (reportedLines (package ⟨["axios"], [], [], []⟩) = [some 4] ∧
        reportedLines (package ⟨["typeorm", "axios"], [], [], []⟩) = [some 3, some 4]) ∧
      (reportedLines (aggregate .default) = [some 5, some 6] ∧
        reportedLines (aggregate { Config.Aggregates.default with
          sharedFolders := "kernel" :: Config.Aggregates.defaultSharedFolders }) = [some 5]) ∧
      (((direction opened).run hubContext).map told).Sublist
        (((direction Config.Layers.defaultAllowed).run hubContext).map told) ∧
      (((package ⟨["axios"], [], [], []⟩).run hubContext).map told).Sublist
        (((package ⟨["typeorm", "axios"], [], [], []⟩).run hubContext).map told) ∧
      (((aggregate { Config.Aggregates.default with
          sharedFolders := "kernel" :: Config.Aggregates.defaultSharedFolders }).run hubContext).map told).Sublist
        (((aggregate .default).run hubContext).map told) := by
  have hallowed : ∀ l, Config.Layers.defaultAllowed.get l ⊆ opened.get l := by
    intro l
    cases l <;> decide
  have hdenied : ∀ l, (PerLayer.mk ["axios"] [] [] []).get l ⊆ (PerLayer.mk ["typeorm", "axios"] [] [] []).get l := by
    intro l
    cases l <;> decide
  refine ⟨⟨by decide +kernel, by decide +kernel⟩, ⟨by decide +kernel, by decide +kernel⟩,
    ⟨by decide +kernel, by decide +kernel⟩, ?_⟩
  exact policies_monotone hubContext hallowed hdenied (List.subset_cons_self _ _)

end LayerLint.Check
