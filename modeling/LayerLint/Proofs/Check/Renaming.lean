/-
  LayerLint.Proofs.Check.Renaming: following the suggestions of the naming check.

  A suggestion keeps the extension and changes the stem in one of two ways (`improves_of_ofUnit?`): a vague ending is
  replaced, or the ending of the folder is added. With the default endings a suggested stem is never vague again
  (`not_vague_append`), and a stem that got the ending of its folder carries it (`carries_append`). So the first
  suggestion may still leave the ending of the folder to be added, and the second leaves nothing
  (`suggestions_converge`).
-/

import LayerLint.Proofs.Check.Endings
import LayerLint.Proofs.Path.FileName
import Mathlib.Logic.Function.Iterate

namespace LayerLint

def Finding.suggested? : Finding → Option String
  | naming _ suggested => some suggested
  | _ => none

def SourceUnit.renamed (u : SourceUnit) (name : String) : SourceUnit :=
  { u with path := Path.withFileName u.path name }

namespace Check.Naming

variable {settings : Config.Naming} {ctx : Context} {u u' : SourceUnit} {v : Violation}

/-! ## Violations -/

inductive Improves (settings : Config.Naming) (u : SourceUnit) : String → Prop
  | precise {base vague preferred : String} : (vague, preferred) ∈ settings.vagueSuffixes → u.stem = base ++ vague →
      base ≠ "" → Improves settings u (base ++ preferred)
  | complete {name suffix : String} : settings.suffixes.find? (·.1 == folder u) = some (name, suffix) →
      Improves settings u (u.stem ++ suffix)

theorem improves_of_ofUnit? (h : ofUnit? settings ctx u = some v) :
    ∃ stem message, Improves settings u stem ∧ v = violation ctx u (stem ++ "." ++ extension u.path) message := by
  unfold ofUnit? at h
  split at h
  · cases h
  · rename_i layer _
    split at h
    · cases h
    · split at h
      · rename_i suffix preferred base hvague
        obtain rfl := Option.some.inj h
        split at hvague
        · obtain ⟨hentry, hstem, hne⟩ := vague?_eq_some hvague
          exact ⟨base ++ preferred, _, .precise hentry hstem hne, rfl⟩
        · cases hvague
      · obtain ⟨suffix, hmissing, rfl⟩ := Option.map_eq_some_iff.mp h
        obtain ⟨key, hfind⟩ := exists_of_required? (missing?_eq_some_iff.mp hmissing).1
        exact ⟨u.stem ++ suffix, _, .complete hfind, rfl⟩

theorem ofUnit?_eq_none (hv : ¬ Vague settings u.stem) (hc : Carries settings (folder u) u.stem) :
    ofUnit? settings ctx u = none := by
  unfold ofUnit? ofMissing?
  rw [vague?_eq_none hv, missing?_eq_none hc]
  cases u.layer with
  | none => rfl
  | some layer => simp

/-! ## Following a suggestion -/

/-- The file as its violation suggests, or as it is if it has none. -/
def follow (settings : Config.Naming) (ctx : Context) (u : SourceUnit) : SourceUnit :=
  match (ofUnit? settings ctx u).bind (·.finding.suggested?) with
  | some name => u.renamed name
  | none => u

/-- A file gets the name that its violation suggests. It stays in its directory and its layer, and what follows the
    last dot of its name stays too. -/
structure Renames (settings : Config.Naming) (ctx : Context) (u u' : SourceUnit) : Prop where
  suggested : ∃ v, ofUnit? settings ctx u = some v ∧
    v.finding = .naming (Path.fileName u.path) (Path.fileName u'.path)
  dir : u'.dir = u.dir
  layer : u'.layer = u.layer
  extension : extension (Path.fileName u'.path) = extension (Path.fileName u.path)

theorem extension_eq {path stem ext : String} (h : Path.Named path stem ext) :
    extension path = ext ∧ extension (Path.fileName path) = ext := by
  obtain ⟨front, hcut⟩ := h.after_dot
  have hname : Text.cutLast? (· == '.') (Path.fileName path).toList = some (stem.toList, ext.toList) := by
    rw [h.toList_fileName]
    exact Text.cutLast?_append rfl (Text.not_mem_iff_beq.mp h.dot_not_mem)
  unfold extension
  rw [hcut, hname]
  exact ⟨String.ofList_toList, String.ofList_toList⟩

theorem Improves.stem_ne {stem : String} (h : Improves settings u stem) (hu : u.stem ≠ "") : stem ≠ "" := by
  cases h with
  | precise _ _ hne => simp [hne]
  | complete _ => simp [hu]

section

variable (hslash : ∀ entry ∈ settings.suffixes ++ settings.vagueSuffixes, '/' ∉ entry.2.toList)

include hslash

theorem Improves.slash_not_mem {stem : String} (h : Improves settings u stem) (hu : '/' ∉ u.stem.toList) :
    '/' ∉ stem.toList := by
  cases h with
  | precise hentry hbase _ =>
    have hnew := hslash _ (List.mem_append_right _ hentry)
    rw [hbase, String.toList_append, List.mem_append, not_or] at hu
    rw [String.toList_append, List.mem_append, not_or]
    exact ⟨hu.1, hnew⟩
  | complete hfind =>
    have hnew := hslash _ (List.mem_append_left _ (List.mem_of_find?_eq_some hfind))
    rw [String.toList_append, List.mem_append, not_or]
    exact ⟨hu, hnew⟩

/-- With endings that have no slash in them, a suggestion is followed by giving the file a better stem. -/
theorem follow_of_ofUnit? {stem ext : String} (hu : Path.Named u.path stem ext) (h : ofUnit? settings ctx u = some v) :
    Renames settings ctx u (follow settings ctx u) ∧
      ∃ better, Improves settings u better ∧ Path.Named (follow settings ctx u).path better ext := by
  have hstem : u.stem = stem := hu.stem_eq
  obtain ⟨better, message, himproves, hv⟩ := improves_of_ofUnit? h
  have hfinding : v.finding = .naming (Path.fileName u.path) (better ++ "." ++ extension u.path) := by rw [hv]; rfl
  have hbetter : '/' ∉ better.toList := himproves.slash_not_mem hslash (hstem ▸ hu.slash_not_mem_stem)
  have hne : better ≠ "" := himproves.stem_ne (hstem ▸ hu.stem_ne)
  have hnamed := hu.withStem hbetter hne
  have hfollow : follow settings ctx u = u.renamed (better ++ "." ++ ext) := by
    unfold follow
    rw [h, Option.bind_some, hfinding, (extension_eq hu).1]
    rfl
  rw [hfollow]
  refine ⟨⟨⟨v, h, ?_⟩, ?_, rfl, ?_⟩, better, himproves, hnamed⟩
  · rw [hfinding, (extension_eq hu).1, SourceUnit.renamed, hnamed.fileName_eq]
  · exact Path.dir_withFileName (hu.slash_not_mem_name hbetter) u.path
  · rw [SourceUnit.renamed, (extension_eq hnamed).2, (extension_eq hu).2]

end

/-! ## The default endings -/

def defaultEndings : List String := (Config.Naming.defaultSuffixes ++ Config.Naming.defaultVagueSuffixes).map (·.2)

/-- What ends as a suggestion does is not vague, since no vague ending is the end of such an ending or ends with one. -/
theorem not_vague_append {ending : String} (h : ending ∈ defaultEndings) (base : String) :
    ¬ Vague .default (base ++ ending) := by
  have hapart : ∀ ending ∈ defaultEndings, ∀ entry ∈ Config.Naming.default.vagueSuffixes,
      ¬ ending.toList <:+ entry.1.toList ∧ ¬ entry.1.toList <:+ ending.toList := by decide +kernel
  rintro ⟨entry, hentry, other, -, heq⟩
  have heq : base.toList ++ ending.toList = other.toList ++ entry.1.toList := by
    simpa using congrArg String.toList heq
  have hending : ending.toList <:+ base.toList ++ ending.toList := List.suffix_append _ _
  have hvague : entry.1.toList <:+ base.toList ++ ending.toList := heq ▸ List.suffix_append _ _
  obtain ⟨hshort, hlong⟩ := hapart ending h entry hentry
  rcases List.suffix_or_suffix_of_suffix hending hvague with hs | hs
  · exact hshort hs
  · exact hlong hs

theorem carries_append {folder name suffix : String}
    (h : Config.Naming.default.suffixes.find? (·.1 == folder) = some (name, suffix)) (stem : String) :
    Carries .default folder (stem ++ suffix) := by
  have hplain : ∀ entry ∈ Config.Naming.default.suffixes, Alphanumeric entry.2 := by decide +kernel
  have hrequired : required? .default folder = some suffix := by rw [required?, h, Option.map_some]
  refine carries_of_alphanumeric hrequired (hplain _ (List.mem_of_find?_eq_some h)) ?_
  rw [String.toList_append]
  exact List.suffix_append _ _

theorem Improves.not_vague {stem : String} (h : Improves .default u stem) : ¬ Vague .default stem := by
  cases h with
  | precise hentry _ _ =>
    exact not_vague_append (List.mem_map.mpr ⟨_, List.mem_append_right _ hentry, rfl⟩) _
  | complete hfind =>
    exact not_vague_append
      (List.mem_map.mpr ⟨_, List.mem_append_left _ (List.mem_of_find?_eq_some hfind), rfl⟩) _

theorem slash_not_mem_default :
    ∀ entry ∈ Config.Naming.default.suffixes ++ Config.Naming.default.vagueSuffixes, '/' ∉ entry.2.toList := by
  decide +kernel

/-- A suggestion for a stem that is not vague adds the ending of the folder, and leaves nothing to suggest. -/
theorem ofUnit?_follow_eq_none {stem ext : String} (hu : Path.Named u.path stem ext) (hv : ¬ Vague .default u.stem)
    (h : ofUnit? .default ctx u = some v) : ofUnit? .default ctx (follow .default ctx u) = none := by
  obtain ⟨hrenames, better, himproves, hnamed⟩ := follow_of_ofUnit? slash_not_mem_default hu h
  have hstem : (follow .default ctx u).stem = better := hnamed.stem_eq
  have hfolder : folder (follow .default ctx u) = folder u := by rw [folder, hrenames.dir, folder]
  refine ofUnit?_eq_none (hstem ▸ himproves.not_vague) ?_
  rw [hstem, hfolder]
  cases himproves with
  | precise hentry hbase hne => exact absurd ⟨_, hentry, _, hne, hbase⟩ hv
  | complete hfind => exact carries_append hfind u.stem

/-- With the default settings, a file whose name has an extension needs at most two renames to be without a naming
    violation, and each of them keeps the extension. -/
theorem suggestions_converge (ctx : Context) (u : SourceUnit) (h : '.' ∈ (Path.fileName u.path).toList.tail) :
    ∃ n ≤ 2, ofUnit? .default ctx ((follow .default ctx)^[n] u) = none ∧
      ∀ i < n, Renames .default ctx ((follow .default ctx)^[i] u) ((follow .default ctx)^[i + 1] u) := by
  obtain ⟨stem, ext, hu⟩ := Path.exists_named h
  cases hfirst : ofUnit? .default ctx u with
  | none =>
    refine ⟨0, by omega, hfirst, ?_⟩
    intro i hi
    omega
  | some v =>
    obtain ⟨hrenames, better, himproves, hnamed⟩ := follow_of_ofUnit? slash_not_mem_default hu hfirst
    cases hsecond : ofUnit? .default ctx (follow .default ctx u) with
    | none =>
      refine ⟨1, by omega, hsecond, ?_⟩
      intro i hi
      obtain rfl : i = 0 := by omega
      exact hrenames
    | some w =>
      have hstem : (follow .default ctx u).stem = better := hnamed.stem_eq
      refine ⟨2, by omega, ofUnit?_follow_eq_none hnamed (hstem ▸ himproves.not_vague) hsecond, ?_⟩
      intro i hi
      rcases (by omega : i = 0 ∨ i = 1) with rfl | rfl
      · exact hrenames
      · exact (follow_of_ofUnit? slash_not_mem_default hnamed hsecond).1

theorem vagueSuffixes_default :
    vagueSuffixes .default =
      [("Manager", "Service"), ("Helper", "Service"), ("Utils", "Service"), ("Util", "Service")] := by
  simp +decide [vagueSuffixes, Config.Naming.default, Config.Naming.defaultVagueSuffixes, List.mergeSort,
    List.MergeSort.Internal.splitInTwo, vagueBefore]

def managed : SourceUnit := ⟨"src/domain/repositories/OrderManager.ts", "", [], [], some .domain, 0⟩

def bare : Context := ⟨[], .empty, .default, .default⟩

/-- The two rules ask for one rename each. -/
theorem suggestions_converge_managed :
    '.' ∈ (Path.fileName managed.path).toList.tail ∧
      (∃ n ≤ 2, ofUnit? .default bare ((follow .default bare)^[n] managed) = none ∧
        ∀ i < n, Renames .default bare ((follow .default bare)^[i] managed) ((follow .default bare)^[i + 1] managed)) ∧
      follow .default bare managed = managed.renamed "OrderService.ts" ∧
      follow .default bare (managed.renamed "OrderService.ts") = managed.renamed "OrderServiceRepository.ts" := by
  have hdot : '.' ∈ (Path.fileName managed.path).toList.tail := by decide
  refine ⟨hdot, suggestions_converge _ managed hdot, ?_, ?_⟩
  · unfold follow ofUnit? vague?
    rw [vagueSuffixes_default]
    decide +kernel
  · unfold follow ofUnit? vague?
    rw [vagueSuffixes_default]
    decide +kernel

end Check.Naming

end LayerLint
