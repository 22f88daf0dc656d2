/-
  LayerLint.Proofs.Check.Naming: which file names the naming check accepts, and which it suggests.

  The check lower-cases the name of a folder but not the names in the settings, drops from a stem but not from an ending
  what is no letter or digit, and cuts the stem from the file name but the extension from the path. Each difference has
  a price:
  - An ending is accepted wherever it is carried if it is made of ASCII letters and digits, and no other ending is
    (`carried_accepted_iff`). One that has another character even in small letters is carried by no name at all.
  - The entry of a folder counts only if the settings have the same ending under the folder's name in small letters
    (`entry_effective_iff`).
  - The extension of a suggestion is cut from the whole path, so a file without a dot in its name that lies below a
    directory with one is told to take a name with a slash in it, and no other file is (`suggested_name_iff`).
-/

import LayerLint.Proofs.Check.Renaming

namespace LayerLint.Check.Naming

variable {settings : Config.Naming} {ctx : Context} {u u' : SourceUnit} {v : Violation} {name x : String}

/-! ## What the check says about a file -/

def Exempt (stem : String) : Prop := stem = "" ∨ Text.sameAscii stem "index" = true

/-- A file in a layer. If it is in the domain, its name is not vague or is passed over. -/
structure Precise (settings : Config.Naming) (u : SourceUnit) : Prop where
  layered : u.layer.isSome = true
  not_vague : u.layer = some .domain → ¬ Exempt u.stem → ¬ Vague settings u.stem

theorem exempt_iff {stem : String} : Exempt stem ↔ (stem.isEmpty || Text.sameAscii stem "index") = true := by
  simp [Exempt]

theorem ofUnit?_eq_none_of_exempt (h : Exempt u.stem) : ofUnit? settings ctx u = none := by
  unfold ofUnit?
  split
  · rfl
  · rw [if_pos (exempt_iff.mp h)]

theorem ofUnit?_eq_ofMissing? (hp : Precise settings u) (h : ¬ Exempt u.stem) :
    ofUnit? settings ctx u = ofMissing? settings ctx u := by
  obtain ⟨layer, hlayer⟩ := Option.isSome_iff_exists.mp hp.layered
  unfold ofUnit?
  rw [hlayer]
  simp only [if_neg (mt exempt_iff.mpr h)]
  by_cases hdomain : layer = .domain
  · rw [if_pos hdomain, vague?_eq_none (hp.not_vague (hdomain ▸ hlayer) h)]
  · rw [if_neg hdomain]

theorem ofMissing?_eq_none_iff : ofMissing? settings ctx u = none ↔ missing? settings u = none := by
  rw [ofMissing?, Option.map_eq_none_iff]

/-- Vague or not, a file that misses the ending of its folder is reported. -/
theorem ofUnit?_ne_none_of_missing (hl : u.layer.isSome = true) (h : ¬ Exempt u.stem)
    (hm : missing? settings u = some x) : ofUnit? settings ctx u ≠ none := by
  obtain ⟨layer, hlayer⟩ := Option.isSome_iff_exists.mp hl
  unfold ofUnit?
  rw [hlayer]
  simp only [if_neg (mt exempt_iff.mpr h)]
  split
  · simp
  · simp [ofMissing?_eq_none_iff, hm]

/-! ## Endings that are accepted -/

def withStem (u : SourceUnit) (stem : String) : SourceUnit :=
  { u.renamed (stem ++ ".ts") with layer := some .infrastructure }

section

variable {stem : String} (hs : '/' ∉ stem.toList) (hne : stem ≠ "")

include hs

theorem folder_withStem : folder (withStem u stem) = folder u := by
  have hname : '/' ∉ (stem ++ ".ts").toList := by simpa using hs
  rw [folder, folder, SourceUnit.dir, SourceUnit.dir, withStem, SourceUnit.renamed, Path.dir_withFileName hname]

include hne

theorem stem_withStem : (withStem u stem).stem = stem := by
  have hname : '/' ∉ (stem ++ ".ts").toList := by simpa using hs
  have hnamed : Path.Named (withStem u stem).path stem "ts" :=
    ⟨(Path.fileName_withFileName hname u.path).trans (String.toList_inj.mp (by simp)), hne, by decide⟩
  exact hnamed.stem_eq

end

theorem precise_withStem (u : SourceUnit) (stem : String) : Precise settings (withStem u stem) :=
  ⟨rfl, fun h => by cases h⟩

theorem slash_not_mem_of_carried (h : x.toList <:+ u.stem.toList) : '/' ∉ x.toList :=
  fun hm => Path.slash_not_mem_stem u.path (h.mem hm)

theorem Exempt.alphanumeric (h : Exempt x) : Alphanumeric x := by
  rcases h with rfl | h
  · decide
  · intro c hc
    have hsame : x.toList.map Text.lowerAscii = "index".toList.map Text.lowerAscii := eq_of_beq h
    have hindex : ∀ a ∈ "index".toList.map Text.lowerAscii, Text.isAsciiAlphanumeric a = true := by decide
    rw [← Text.isAsciiAlphanumeric_lowerAscii]
    apply hindex
    rw [← hsame]
    exact List.mem_map_of_mem hc

section

variable (hx : required? settings (folder u) = some x) (hs : '/' ∉ x.toList) (ha : ¬ Alphanumeric x)

include hx hs ha

/-- An ending with another character in it is not accepted of the file whose stem it is. -/
theorem ofUnit?_withStem : ofUnit? settings ctx (withStem u x) ≠ none := by
  have hexempt : ¬ Exempt x := fun h => ha h.alphanumeric
  have hstem : (withStem u x).stem = x := stem_withStem hs fun h => hexempt (.inl h)
  have hmissing : missing? settings (withStem u x) = some x := by
    rw [missing?_eq_some_iff, folder_withStem hs, hstem]
    exact ⟨hx, fun h => ha (alphanumeric_of_suffix h)⟩
  have hlook : ¬ Exempt (withStem u x).stem := by rwa [hstem]
  exact ofUnit?_ne_none_of_missing rfl hlook hmissing

/-- Nor is it accepted where it was added because it was missing. -/
theorem missing?_withStem_dash :
    missing? settings (withStem u "-") = some x ∧ missing? settings (withStem u ("-" ++ x)) = some x := by
  -- nothing of the dash is compared, so the ending is missing before and has to be found in itself after
  have hdash : normalized "-" = [] := by decide
  have hlong : '/' ∉ ("-" ++ x).toList := by simpa using hs
  constructor
  · rw [missing?_eq_some_iff, folder_withStem (by decide), stem_withStem (by decide) (by decide), hdash]
    exact ⟨hx, fun h => ha (alphanumeric_of_suffix (h.trans List.nil_suffix))⟩
  · rw [missing?_eq_some_iff, folder_withStem hlong, stem_withStem hlong (by simp), normalized_append, hdash,
      List.nil_append]
    exact ⟨hx, fun h => ha (alphanumeric_of_suffix h)⟩

end

def Carriable (name x : String) : Prop := ∃ u, folder u = name ∧ x.toList <:+ u.stem.toList

/-- Nothing is said about a file of the folder that carries the ending. -/
def Accepted (settings : Config.Naming) (name x : String) : Prop :=
  ∀ ctx u, Precise settings u → folder u = name → x.toList <:+ u.stem.toList → ofUnit? settings ctx u = none

/-- Where the ending was missing and has been added it is not missing again. -/
def Settled (settings : Config.Naming) (name x : String) : Prop :=
  ∀ u u', folder u = name → missing? settings u = some x → folder u' = name → u'.stem = u.stem ++ x →
    missing? settings u' = none

section

variable (hx : required? settings name = some x)

include hx

theorem accepted_iff : Accepted settings name x ↔ (Carriable name x → Alphanumeric x) := by
  constructor
  · intro haccepted hfile
    obtain ⟨u, rfl, hends⟩ := hfile
    have hs := slash_not_mem_of_carried hends
    by_contra ha
    have hstem : (withStem u x).stem = x := stem_withStem hs fun h => ha (Exempt.alphanumeric (.inl h))
    have hcarries : x.toList <:+ (withStem u x).stem.toList := ⟨[], (congrArg String.toList hstem).symm⟩
    exact ofUnit?_withStem hx hs ha (haccepted bare _ (precise_withStem u x) (folder_withStem hs) hcarries)
  · intro h ctx u hp hfolder hends
    by_cases hexempt : Exempt u.stem
    · exact ofUnit?_eq_none_of_exempt hexempt
    · rw [ofUnit?_eq_ofMissing? hp hexempt, ofMissing?_eq_none_iff]
      subst hfolder
      exact missing?_eq_none (carries_of_alphanumeric hx (h ⟨u, rfl, hends⟩) hends)

theorem settled_iff : Settled settings name x ↔ (Carriable name x → Alphanumeric x) := by
  constructor
  · intro hsettled hfile
    obtain ⟨u, rfl, hends⟩ := hfile
    have hs := slash_not_mem_of_carried hends
    have hlong : '/' ∉ ("-" ++ x).toList := by simpa using hs
    have hstem : (withStem u ("-" ++ x)).stem = (withStem u "-").stem ++ x := by
      rw [stem_withStem hlong (by simp), stem_withStem (by decide) (by decide)]
    by_contra ha
    obtain ⟨hfirst, hagain⟩ := missing?_withStem_dash hx hs ha
    have hnone := hsettled _ _ (folder_withStem (by decide)) hfirst (folder_withStem hlong) hstem
    rw [hagain] at hnone
    cases hnone
  · intro h u u' _ _ hfolder hstem
    have hends : x.toList <:+ u'.stem.toList := by
      rw [hstem, String.toList_append]
      exact List.suffix_append _ _
    subst hfolder
    exact missing?_eq_none (carries_of_alphanumeric hx (h ⟨u', rfl, hends⟩) hends)

/-- An ending is accepted of all files that carry it, and settles the matter where it is added, exactly if it is made of
    ASCII letters and digits, unless no file can carry it. One that has another character even in small letters is
    missed whatever the name is. -/
theorem carried_accepted_iff :
    (Accepted settings name x ↔ (Carriable name x → Alphanumeric x)) ∧
      (Settled settings name x ↔ (Carriable name x → Alphanumeric x)) ∧
      (¬ Alphanumeric (Text.lowercase x) →
        ∀ ctx u, u.layer.isSome = true → folder u = name → ¬ Exempt u.stem → ofUnit? settings ctx u ≠ none) := by
  refine ⟨accepted_iff hx, settled_iff hx, ?_⟩
  intro ha ctx u hl hfolder hexempt
  have hmissing : missing? settings u = some x := by
    refine missing?_eq_some_iff.mpr ⟨hfolder ▸ hx, fun hends => ha ?_⟩
    exact fun c hc => isAsciiAlphanumeric_of_mem_normalized (hends.mem hc)
  exact ofUnit?_ne_none_of_missing hl hexempt hmissing

end

-- The sign for kelvin is no ASCII letter but has one for its small letter, so it may be accepted of a name by chance.
example : ¬ Alphanumeric "\u212A" ∧ Alphanumeric (Text.lowercase "\u212A") := by decide +kernel

def dotted : Config.Naming := ⟨[("repositories", "Repository"), ("services", ".service")], []⟩

def service : SourceUnit := ⟨"src/domain/services/order.service.ts", "", [], [], some .domain, 0⟩

/-- The plain ending is accepted wherever it is carried, and with the other one no name is good enough. -/
theorem carried_accepted_iff_dotted :
    required? dotted "repositories" = some "Repository" ∧ Accepted dotted "repositories" "Repository" ∧
      Settled dotted "repositories" "Repository" ∧ required? dotted "services" = some ".service" ∧
      ∀ ctx u, u.layer.isSome = true → folder u = "services" → ¬ Exempt u.stem → ofUnit? dotted ctx u ≠ none := by
  have hplain : required? dotted "repositories" = some "Repository" := by decide
  have hdot : required? dotted "services" = some ".service" := by decide
  have hletters : Alphanumeric "Repository" := by decide
  obtain ⟨haccepted, hsettled, -⟩ := carried_accepted_iff hplain
  exact ⟨hplain, haccepted.mpr fun _ => hletters, hsettled.mpr fun _ => hletters, hdot,
    (carried_accepted_iff hdot).2.2 (by decide +kernel)⟩

/-- A file that carries the ending of its folder is reported for not carrying it. -/
theorem carried_ending_missed :
    required? dotted (folder service) = some ".service" ∧ Precise dotted service ∧
      ".service".toList <:+ service.stem.toList ∧
      ofUnit? dotted bare service =
        some (violation bare service "order.service.service.ts"
          "'order.service' in 'services' should end with '.service'") := by
  refine ⟨by decide +kernel, ⟨rfl, fun _ _ => ?_⟩, by decide, ?_⟩
  · intro hvague
    obtain ⟨entry, hentry, -⟩ := hvague
    cases hentry
  · decide +kernel

/-! ## Entries that count -/

theorem run_insert {before after : List SourceUnit} (hunits : ctx.units = before ++ u :: after) :
    run settings ctx = run settings { ctx with units := before } ++
      ((ofUnit? settings ctx u).toList ++ run settings { ctx with units := after }) := by
  unfold run
  rw [hunits, List.filterMap_append, List.filterMap_cons]
  cases ofUnit? settings ctx u with
  | none => rfl
  | some v => rfl

theorem ofUnit?_eq_some_iff (hp : Precise settings u) :
    ofUnit? settings ctx u = some v ↔
      ¬ Exempt u.stem ∧ ∃ y, missing? settings u = some y ∧
        violation ctx u (u.stem ++ y ++ "." ++ extension u.path)
          s!"'{u.stem}' in '{folder u}' should end with '{y}'" = v := by
  by_cases hexempt : Exempt u.stem
  · simp [ofUnit?_eq_none_of_exempt hexempt, hexempt]
  · rw [ofUnit?_eq_ofMissing? hp hexempt, ofMissing?, Option.map_eq_some_iff]
    simp only [hexempt, not_false_eq_true, true_and]

/-- An entry of the settings counts for the files of its folder exactly if the settings have the same ending under the
    folder's name in small letters. If they have none there, the files of the folder may have any name. -/
theorem entry_effective_iff {before after : List SourceUnit} (hx : required? settings name = some x)
    (hunits : ctx.units = before ++ u :: after) (hp : Precise settings u) (hi : Text.sameAscii u.stem "index" = false)
    (hdir : Path.fileName u.dir = name) (hm : ¬ (Text.lowercase x).toList <:+ normalized u.stem) :
    ((∃ v, run settings ctx =
            run settings { ctx with units := before } ++ v :: run settings { ctx with units := after } ∧
          v.finding = .naming (Path.fileName u.path) (u.stem ++ x ++ "." ++ extension u.path)) ↔
        required? settings (Text.lowercase name) = some x ∧ u.stem ≠ "") ∧
      (required? settings (Text.lowercase name) = none →
        run settings ctx = run settings { ctx with units := before } ++ run settings { ctx with units := after }) := by
  have hfolder : folder u = Text.lowercase name := by rw [folder, hdir]
  have hexempt : Exempt u.stem ↔ u.stem = "" := by simp [Exempt, hi]
  rw [run_insert hunits, ← hfolder]
  refine ⟨⟨?_, ?_⟩, ?_⟩
  · intro hone
    obtain ⟨v, hrun, hfinding⟩ := hone
    have hv : (ofUnit? settings ctx u).toList = [v] :=
      List.append_cancel_right ((List.append_cancel_left hrun).trans (List.singleton_append).symm)
    obtain ⟨hlook, y, hmissing, rfl⟩ := (ofUnit?_eq_some_iff hp).mp (Option.toList_eq_singleton_iff.mp hv)
    -- the violation may come from another entry, but then it suggests another name
    have hname : u.stem ++ y ++ "." ++ extension u.path = u.stem ++ x ++ "." ++ extension u.path := by
      simpa [violation, Violation.of] using hfinding
    obtain rfl : y = x := by
      apply String.toList_inj.mp
      simpa using congrArg String.toList hname
    exact ⟨(missing?_eq_some_iff.mp hmissing).1, fun h => hlook (hexempt.mpr h)⟩
  · intro hentry
    obtain ⟨hrequired, hne⟩ := hentry
    have hmissing := missing?_eq_some_iff.mpr ⟨hrequired, hm⟩
    rw [(ofUnit?_eq_some_iff hp).mpr ⟨fun h => hne (hexempt.mp h), x, hmissing, rfl⟩]
    exact ⟨_, rfl, rfl⟩
  · intro hrequired
    have hnone : ofUnit? settings ctx u = none := by
      rw [Option.eq_none_iff_forall_ne_some]
      intro v hv
      obtain ⟨-, y, hmissing, -⟩ := (ofUnit?_eq_some_iff hp).mp hv
      rw [(missing?_eq_some_iff.mp hmissing).1] at hrequired
      cases hrequired
    rw [hnone]
    rfl

def mixed : Config.Naming := ⟨[("Repositories", "Repository"), ("services", "Service")], []⟩

def store : SourceUnit := ⟨"src/domain/Repositories/Order.ts", "", [], [], some .domain, 0⟩

def pricing : SourceUnit := ⟨"src/domain/services/Pricing.ts", "", [], [], some .domain, 0⟩

def mixedContext : Context := ⟨[store, pricing], .empty, .default, .default⟩

theorem precise_mixed {u : SourceUnit} (h : u.layer.isSome = true) : Precise mixed u := by
  refine ⟨h, fun _ _ => ?_⟩
  intro hvague
  obtain ⟨entry, hentry, -⟩ := hvague
  cases hentry

/-- The entry for services counts, and the one for repositories does not. -/
theorem entry_effective_iff_mixed :
    (∃ v, run mixed mixedContext = run mixed { mixedContext with units := [store] } ++ v :: [] ∧
        v.finding = .naming "Pricing.ts" "PricingService.ts") ∧
      run mixed mixedContext = run mixed { mixedContext with units := [pricing] } := by
  have hservice : required? mixed "services" = some "Service" := by decide
  have hstore : required? mixed "Repositories" = some "Repository" := by decide
  constructor
  · have hunits : mixedContext.units = [store] ++ pricing :: [] := rfl
    exact (entry_effective_iff hservice hunits (precise_mixed rfl) (by decide) (by decide) (by decide +kernel)).1.mpr
      ⟨by decide +kernel, by decide⟩
  · have hunits : mixedContext.units = [] ++ store :: [pricing] := rfl
    exact (entry_effective_iff hstore hunits (precise_mixed rfl) (by decide) (by decide) (by decide +kernel)).2
      (by decide +kernel)

/-- A file in a folder that the settings name in capitals may miss the ending of the folder. -/
theorem capital_entry_ignored :
    required? mixed "Repositories" = some "Repository" ∧ Path.fileName store.dir = "Repositories" ∧
      Precise mixed store ∧ ¬ Exempt store.stem ∧ ¬ Vague mixed store.stem ∧
      ¬ (Text.lowercase "Repository").toList <:+ normalized store.stem ∧
      run mixed { mixedContext with units := [store] } = [] := by
  have hprecise : Precise mixed store := precise_mixed rfl
  have hlook : ¬ Exempt store.stem := by
    rw [exempt_iff]
    decide
  refine ⟨by decide, by decide, hprecise, hlook, hprecise.not_vague rfl hlook, by decide +kernel, ?_⟩
  decide +kernel

/-! ## Suggested names -/

/-- `ext` follows the last dot of a name. A dot at the start counts. -/
def HasExtension (name ext : String) : Prop := (∃ front, name = front ++ "." ++ ext) ∧ '.' ∉ ext.toList

/-- A name with the extension that another one has, or with `ts` if it has none. -/
def KeepsExtension (actual suggested : String) : Prop :=
  (∀ ext, HasExtension actual ext → HasExtension suggested ext) ∧
    ((∀ ext, ¬ HasExtension actual ext) → HasExtension suggested "ts")

theorem HasExtension.unique {ext ext' : String} (h : HasExtension name ext) (h' : HasExtension name ext') :
    ext = ext' := by
  obtain ⟨⟨front, rfl⟩, hext⟩ := h
  obtain ⟨⟨front', heq⟩, hext'⟩ := h'
  have hchars : front.toList ++ '.' :: ext.toList = front'.toList ++ '.' :: ext'.toList := by
    simpa using congrArg String.toList heq
  exact String.toList_inj.mp
    (Text.cutLast_inj (Text.not_mem_iff_beq.mp hext) (Text.not_mem_iff_beq.mp hext') rfl rfl hchars).2.2

theorem HasExtension.dot_mem {ext : String} (h : HasExtension name ext) : '.' ∈ name.toList := by
  obtain ⟨⟨front, rfl⟩, -⟩ := h
  simp

theorem HasExtension.subset {ext : String} (h : HasExtension name ext) {c : Char} (hc : c ∈ ext.toList) :
    c ∈ name.toList := by
  obtain ⟨⟨front, rfl⟩, -⟩ := h
  simp [hc]

theorem extension_eq_of_cut {path : String} {front ext : List Char} (hpath : path.toList = front ++ '.' :: ext)
    (hext : '.' ∉ ext) : extension path = String.ofList ext := by
  rw [extension, hpath, Text.cutLast?_append rfl (Text.not_mem_iff_beq.mp hext)]

theorem extension_of_no_dot {path : String} (h : '.' ∉ path.toList) : extension path = "ts" := by
  rw [extension, Text.cutLast?_eq_none (Text.not_mem_iff_beq.mp h)]

theorem hasExtension_fileName {path : String} (h : '.' ∈ (Path.fileName path).toList) :
    HasExtension (Path.fileName path) (extension path) := by
  obtain ⟨before, hpath⟩ := Path.exists_append_fileName path
  obtain ⟨front, ext, hname, hext⟩ := Text.exists_last_of_mem h
  rw [hname, ← List.append_assoc] at hpath
  rw [extension_eq_of_cut hpath hext]
  refine ⟨⟨String.ofList front, ?_⟩, by simpa using hext⟩
  apply String.toList_inj.mp
  simp [hname]

/-- What follows the last dot of a path goes past the last slash if the dot stands before it. -/
theorem slash_mem_extension {path : String} (hname : '.' ∉ (Path.fileName path).toList) (hdot : '.' ∈ path.toList) :
    '/' ∈ (extension path).toList := by
  rcases Path.fileName_cases path with heq | ⟨dirs, hpath⟩
  · rw [heq] at hname
    exact absurd hdot hname
  · have hdirs : '.' ∈ dirs := by
      rw [hpath] at hdot
      simpa [hname] using hdot
    obtain ⟨front, tail, rfl, htail⟩ := Text.exists_last_of_mem hdirs
    rw [List.append_assoc, List.cons_append] at hpath
    have hrest : '.' ∉ tail ++ '/' :: (Path.fileName path).toList := by simp [htail, hname]
    rw [extension_eq_of_cut hpath hrest]
    simp

/-- A suggestion is a name for a file, and keeps the extension of the file, exactly if the name of the file has a dot or
    its whole path has none. -/
theorem suggested_name_iff (hslash : ∀ entry ∈ settings.suffixes ++ settings.vagueSuffixes, '/' ∉ entry.2.toList)
    (h : v ∈ run settings ctx) :
    ∃ u ∈ ctx.units, v.location.file = u.path ∧ ∃ actual suggested, v.finding = .naming actual suggested ∧
      (Path.segments u.path).getLast? = some actual.toList ∧
      ('/' ∉ suggested.toList ∧ KeepsExtension actual suggested ↔ '.' ∈ actual.toList ∨ '.' ∉ u.path.toList) := by
  obtain ⟨u, hu, hv⟩ := List.mem_filterMap.mp h
  obtain ⟨stem, message, himproves, rfl⟩ := improves_of_ofUnit? hv
  have hstem := himproves.slash_not_mem hslash (Path.slash_not_mem_stem u.path)
  refine ⟨u, hu, rfl, _, _, rfl, ?_, ?_⟩
  · obtain ⟨front, last, hsegs⟩ := Path.segments_eq_snoc u.path
    rw [hsegs, (Path.dir_fileName_eq hsegs).2, String.toList_ofList, List.getLast?_concat]
  · constructor
    · intro hgood
      by_contra hdots
      obtain ⟨hname, hpath⟩ := not_or.mp hdots
      have hlong := slash_mem_extension hname (Decidable.not_not.mp hpath)
      exact hgood.1 (by simp [hlong])
    · intro hdots
      rcases hdots with hname | hpath
      · have hext := hasExtension_fileName hname
        have hshort : '/' ∉ (extension u.path).toList := fun hm => Path.slash_not_mem_fileName _ (hext.subset hm)
        refine ⟨by simp [hstem, hshort], fun ext h => ?_, fun h => absurd hext (h _)⟩
        rw [← hext.unique h]
        exact ⟨⟨stem, rfl⟩, hext.2⟩
      · have hname : '.' ∉ (Path.fileName u.path).toList := by
          obtain ⟨front, heq⟩ := Path.exists_append_fileName u.path
          rw [heq] at hpath
          exact fun hm => hpath (List.mem_append_right _ hm)
        rw [extension_of_no_dot hpath]
        exact ⟨by simpa using hstem, fun ext h => absurd h.dot_mem hname, fun _ => ⟨⟨stem, rfl⟩, by decide⟩⟩

def bareName : SourceUnit := { pricing with path := "src/domain/services/Pricing" }

def bareNameContext : Context := { mixedContext with units := [bareName] }

/-- Without a dot in the path the suggestion gets the extension of a file of code. -/
theorem suggested_name_iff_bareName :
    ∃ v ∈ run mixed bareNameContext, v.finding = .naming "Pricing" "PricingService.ts" ∧
      '/' ∉ "PricingService.ts".toList ∧ KeepsExtension "Pricing" "PricingService.ts" := by
  have hslash : ∀ entry ∈ mixed.suffixes ++ mixed.vagueSuffixes, '/' ∉ entry.2.toList := by decide
  have hv : violation bareNameContext bareName "PricingService.ts"
      "'Pricing' in 'services' should end with 'Service'" ∈ run mixed bareNameContext := by decide +kernel
  obtain ⟨u, hu, -, actual, suggested, hfinding, -, hiff⟩ := suggested_name_iff hslash hv
  obtain rfl : u = bareName := List.mem_singleton.mp hu
  obtain ⟨rfl, rfl⟩ : Path.fileName bareName.path = actual ∧ "PricingService.ts" = suggested :=
    Finding.naming.inj hfinding
  exact ⟨_, hv, hfinding, hiff.mpr (.inr (by decide))⟩

def release : SourceUnit := { pricing with path := "src/domain/v1.2/services/Order" }

/-- The suggestion for such a file is no name for a file. -/
theorem suggested_name_with_slash :
    (∀ entry ∈ mixed.suffixes ++ mixed.vagueSuffixes, '/' ∉ entry.2.toList) ∧
      run mixed { mixedContext with units := [release] } =
        [violation mixedContext release "OrderService.2/services/Order"
          "'Order' in 'services' should end with 'Service'"] := by
  refine ⟨by decide, ?_⟩
  decide +kernel

end LayerLint.Check.Naming
