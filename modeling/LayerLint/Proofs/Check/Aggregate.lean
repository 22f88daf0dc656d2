/-
  LayerLint.Proofs.Check.Aggregate: which imports cross the border of an aggregate.

  The aggregate of a path is told by its directories alone: the first root marker, the structural folders
  right after it, and then the name (`infer?_eq_some_iff`). So directories that are added further in change
  nothing (`Belongs.of_prefix`), and neither does a structural folder that is taken away at the end
  (`Belongs.of_snoc`).

  An import that stays among the structural folders of its file goes up one directory and down into at most
  one structural folder, so it cannot come to another aggregate (`importing_eq_imported`). The exception for
  such imports therefore hides nothing: the check reports exactly the imports that lead to a `Foreign` file
  (`run_flags_foreign`), and none between two sibling aggregates is missed (`run_flags_sibling`).
-/

import LayerLint.Check.Aggregate
import LayerLint.Proofs.Check.Imports
import LayerLint.Proofs.Path.Join

namespace LayerLint.Check.Aggregate

/-! ## Where a path belongs -/

section

variable (settings : Config.Aggregates)

/-- `inner` are the directories after the first root marker. -/
def Below (dirs inner : List (List Char)) : Prop :=
  ∃ outer marker, dirs = outer ++ marker :: inner ∧ (∀ d ∈ outer, listed settings.rootMarkers d = false) ∧
    listed settings.rootMarkers marker = true

/-- The first directory after the first root marker that is not a structural folder is `name`. -/
def Belongs (dirs : List (List Char)) (name : List Char) : Prop :=
  ∃ folders rest, Below settings dirs (folders ++ name :: rest) ∧
    (∀ d ∈ folders, listed settings.structuralFolders d = true) ∧ listed settings.structuralFolders name = false

def Closed (dirs : List (List Char)) : Prop :=
  ∀ inner, Below settings dirs inner → ∀ d ∈ inner, listed settings.sharedFolders d = false

/-- A path `outer/marker/folders/name/rest/file`, made of plain segments, in the aggregate `name`. -/
structure Lies (path : String) (outer : List (List Char)) (marker : List Char) (folders : List (List Char))
    (name : List Char) (rest : List (List Char)) (file : List Char) : Prop where
  written : path = Path.ofSegments (outer ++ marker :: (folders ++ name :: rest) ++ [file])
  plain : ∀ seg ∈ outer ++ marker :: (folders ++ name :: rest) ++ [file], Path.Plain seg
  first : ∀ d ∈ outer, listed settings.rootMarkers d = false
  isMarker : listed settings.rootMarkers marker = true
  structural : ∀ d ∈ folders, listed settings.structuralFolders d = true
  isName : listed settings.structuralFolders name = false

structure Apart (path target a b : String) : Prop where
  importing : infer? settings path = some a
  imported : infer? settings target = some b
  differ : a ≠ b
  closed : Closed settings (Path.directories target)

/-- A file may not import another one: their aggregates are known and differ, and the imported one is not in a
    shared folder. -/
def Foreign (path target : String) : Prop := ∃ a b, Apart settings path target a b

end

variable {settings : Config.Aggregates} {dirs : List (List Char)}

theorem afterMarker?_cons (d : List Char) (dirs : List (List Char)) :
    afterMarker? settings (d :: dirs) =
      if listed settings.rootMarkers d then some dirs else afterMarker? settings dirs := by
  unfold afterMarker?
  rw [List.findIdx?_cons]
  by_cases h : listed settings.rootMarkers d = true
  · simp [h]
  · simp [h, Function.comp_def]

theorem afterMarker?_eq_some_iff {inner : List (List Char)} :
    afterMarker? settings dirs = some inner ↔ Below settings dirs inner := by
  induction dirs with
  | nil => simp [afterMarker?, Below]
  | cons d dirs ih =>
    rw [afterMarker?_cons]
    by_cases h : listed settings.rootMarkers d = true
    · rw [if_pos h]
      constructor
      · intro e
        exact ⟨[], d, by rw [Option.some.inj e, List.nil_append], by simp, h⟩
      · rintro ⟨outer, marker, hdirs, houter, -⟩
        cases outer with
        | nil => rw [(List.cons.inj hdirs).2]
        | cons first outer =>
          have hfirst := houter first List.mem_cons_self
          rw [← (List.cons.inj hdirs).1, h] at hfirst
          cases hfirst
    · rw [if_neg h, ih]
      constructor
      · rintro ⟨outer, marker, rfl, houter, hmarker⟩
        refine ⟨d :: outer, marker, rfl, ?_, hmarker⟩
        intro x hx
        rcases List.mem_cons.mp hx with rfl | hx
        · simpa using h
        · exact houter x hx
      · rintro ⟨outer, marker, hdirs, houter, hmarker⟩
        cases outer with
        | nil =>
          rw [← (List.cons.inj hdirs).1] at hmarker
          exact absurd hmarker h
        | cons first outer =>
          refine ⟨outer, marker, (List.cons.inj hdirs).2, ?_, hmarker⟩
          intro x hx
          exact houter x (List.mem_cons_of_mem first hx)

theorem Below.unique {inner inner' : List (List Char)} (h : Below settings dirs inner)
    (h' : Below settings dirs inner') : inner = inner' :=
  Option.some.inj ((afterMarker?_eq_some_iff.mpr h).symm.trans (afterMarker?_eq_some_iff.mpr h'))

theorem belongs_iff {name : List Char} :
    Belongs settings dirs name ↔
      (afterMarker? settings dirs).bind (fun inner => inner.find? (!listed settings.structuralFolders ·)) =
        some name := by
  simp only [Option.bind_eq_some_iff, afterMarker?_eq_some_iff, List.find?_eq_some_iff_append, Belongs]
  constructor
  · rintro ⟨folders, rest, hinner, hfolders, hname⟩
    exact ⟨_, hinner, by simpa using hname, folders, rest, rfl, by simpa using hfolders⟩
  · rintro ⟨inner, hinner, hname, folders, rest, rfl, hfolders⟩
    exact ⟨folders, rest, hinner, by simpa using hfolders, by simpa using hname⟩

theorem Belongs.unique {a b : List Char} (h : Belongs settings dirs a) (h' : Belongs settings dirs b) : a = b :=
  Option.some.inj ((belongs_iff.mp h).symm.trans (belongs_iff.mp h'))

/-- The aggregate of a path is the one that its directories belong to. -/
theorem infer?_eq_some_iff {path a : String} :
    infer? settings path = some a ↔ Belongs settings (Path.directories path) a.toList := by
  have hinfer : infer? settings path =
      ((afterMarker? settings (Path.directories path)).bind fun inner =>
        inner.find? (!listed settings.structuralFolders ·)).map String.ofList := by
    show ((afterMarker? settings (Path.directories path)).bind fun inner =>
      (inner.find? (!listed settings.structuralFolders ·)).bind fun name => some (String.ofList name)) = _
    cases afterMarker? settings (Path.directories path) with
    | none => rfl
    | some inner => exact Option.map_eq_bind.symm
  rw [hinfer, Option.map_eq_some_iff]
  constructor
  · rintro ⟨name, hname, rfl⟩
    rw [String.toList_ofList]
    exact belongs_iff.mpr hname
  · intro h
    exact ⟨a.toList, belongs_iff.mp h, String.ofList_toList⟩

theorem closed_iff : Closed settings dirs ↔
    ∀ inner ∈ afterMarker? settings dirs, ∀ d ∈ inner, listed settings.sharedFolders d = false := by
  simp only [Closed, Option.mem_def, afterMarker?_eq_some_iff]

instance : Decidable (Closed settings dirs) := decidable_of_iff _ closed_iff.symm

section

variable {path : String} {outer folders rest : List (List Char)} {marker name file : List Char}

theorem Lies.below (h : Lies settings path outer marker folders name rest file) :
    Below settings (Path.directories path) (folders ++ name :: rest) := by
  refine ⟨outer, marker, ?_, h.first, h.isMarker⟩
  rw [h.written, Path.directories_ofSegments fun seg hseg => (h.plain seg hseg).part, List.dropLast_concat]

theorem Lies.infer?_eq (h : Lies settings path outer marker folders name rest file) :
    infer? settings path = some (String.ofList name) := by
  rw [infer?_eq_some_iff, String.toList_ofList]
  exact ⟨folders, rest, h.below, h.structural, h.isName⟩

end

/-! ## More directories and fewer -/

theorem Below.append {inner : List (List Char)} (h : Below settings dirs inner) (more : List (List Char)) :
    Below settings (dirs ++ more) (inner ++ more) := by
  obtain ⟨outer, marker, rfl, houter, hmarker⟩ := h
  exact ⟨outer, marker, by simp, houter, hmarker⟩

theorem Belongs.of_prefix {dirs' : List (List Char)} {name : List Char} (h : Belongs settings dirs name)
    (hp : dirs <+: dirs') : Belongs settings dirs' name := by
  obtain ⟨more, rfl⟩ := hp
  obtain ⟨folders, rest, hbelow, hfolders, hname⟩ := h
  refine ⟨folders, rest ++ more, ?_, hfolders, hname⟩
  simpa using hbelow.append more

theorem Belongs.of_snoc {d name : List Char} (h : Belongs settings (dirs ++ [d]) name)
    (hd : listed settings.structuralFolders d = true) : Belongs settings dirs name := by
  obtain ⟨folders, rest, ⟨outer, marker, hdirs, houter, hmarker⟩, hfolders, hname⟩ := h
  rcases List.eq_nil_or_concat rest with rfl | ⟨rest, last, rfl⟩
  · have hsplit : dirs ++ [d] = (outer ++ marker :: folders) ++ [name] := by simpa using hdirs
    obtain rfl : d = name := by simpa using (List.append_inj' hsplit rfl).2
    rw [hd] at hname
    cases hname
  · have hsplit : dirs ++ [d] = (outer ++ marker :: (folders ++ name :: rest)) ++ [last] := by simpa using hdirs
    exact ⟨folders, rest, ⟨outer, marker, (List.append_inj' hsplit rfl).1, houter, hmarker⟩, hfolders, hname⟩

/-! ## Imports that stay inside -/

/-- An internal reference goes up one directory, and then takes one or two steps, the first of two along the
    name of a structural folder. -/
theorem segments_of_isInternal {u : SourceUnit} {specifier : String} (h : isInternal settings u specifier = true) :
    (∃ name, Path.segments specifier = [['.', '.'], name]) ∨
      ∃ folder name, Path.segments specifier = [['.', '.'], folder, name] ∧
        listed settings.structuralFolders folder = true := by
  obtain ⟨-, h⟩ := Bool.and_eq_true_iff.mp h
  split at h
  · cases h
  · rename_i rest hrest
    have hsegs : Path.segments specifier = ['.', '.'] :: Text.split Path.isSlash rest := by
      rw [Path.segments, Text.after?_eq_some_iff.mp hrest]
      exact Text.split_append (c := '/') rfl ['.', '.'] rest
    split at h
    · rename_i name hname
      exact .inl ⟨name, by rw [hsegs, hname]⟩
    · rename_i folder name hname
      exact .inr ⟨folder, name, by rw [hsegs, hname], (Bool.and_eq_true_iff.mp h).1⟩
    · cases h

/-- Where an internal reference leads to, seen from above the directory it is written in. -/
theorem directories_of_isInternal {u : SourceUnit} {specifier target : String}
    (h : isInternal settings u specifier = true) (ht : Path.join? u.dir specifier = some target) :
    ∃ d dirs, Path.ancestry u.dir = d :: dirs ∧
      (Path.directories target <+: dirs.reverse ∨
        ∃ folder, Path.directories target = dirs.reverse ++ [folder] ∧
          listed settings.structuralFolders folder = true) := by
  obtain ⟨reached, hwalk, rfl⟩ := Path.join?_eq_some_iff.mp ht
  rw [Path.directories_ofSegments (Path.part_of_walk hwalk), List.dropLast_reverse]
  cases hup : Path.ancestry u.dir with
  | nil =>
    rcases segments_of_isInternal h with ⟨name, hsegs⟩ | ⟨folder, name, hsegs, -⟩
    · rw [hsegs, hup] at hwalk
      cases hwalk
    · rw [hsegs, hup] at hwalk
      cases hwalk
  | cons d dirs =>
    refine ⟨d, dirs, rfl, ?_⟩
    have hstep : Path.step? (d :: dirs) ['.', '.'] = some dirs := rfl
    rcases segments_of_isInternal h with ⟨name, hsegs⟩ | ⟨folder, name, hsegs, hfolder⟩
    · rw [hsegs, hup, Path.walk_cons hstep, Path.walk_single] at hwalk
      exact .inl (List.reverse_prefix.mpr (Path.tail_suffix_of_step? hwalk))
    · rw [hsegs, hup, Path.walk_cons hstep, List.foldlM_cons] at hwalk
      obtain ⟨next, hnext, hlast⟩ := Option.bind_eq_some_iff.mp hwalk
      rw [Path.walk_single] at hlast
      have htail := Path.tail_suffix_of_step? hlast
      rcases Path.step?_cases hnext with rfl | ⟨up, rfl⟩ | ⟨-, rfl⟩
      · exact .inl (List.reverse_prefix.mpr htail)
      · exact .inl (List.reverse_prefix.mpr (htail.trans (List.suffix_cons up next)))
      · rcases List.suffix_cons_iff.mp htail with heq | htail
        · exact .inr ⟨folder, by rw [heq, List.reverse_cons], hfolder⟩
        · exact .inl (List.reverse_prefix.mpr htail)

/-- An internal reference does not leave the aggregate of its file. -/
theorem importing_eq_imported {u : SourceUnit} {specifier target a b : String}
    (h : isInternal settings u specifier = true) (ht : Path.join? u.dir specifier = some target)
    (ha : infer? settings u.path = some a) (hb : infer? settings target = some b) : a = b := by
  obtain ⟨d, dirs, hup, hdirs⟩ := directories_of_isInternal h ht
  have hb := infer?_eq_some_iff.mp hb
  -- the aggregate of the target is already told above the directory of the file
  have habove : Belongs settings dirs.reverse b.toList := by
    rcases hdirs with hp | ⟨folder, heq, hfolder⟩
    · exact hb.of_prefix hp
    · rw [heq] at hb
      exact hb.of_snoc hfolder
  have hown := habove.of_prefix (Path.prefix_directories hup)
  exact String.toList_inj.mp ((infer?_eq_some_iff.mp ha).unique hown)

/-! ## What is flagged -/

variable {ctx : Context} {u : SourceUnit} {i : Import} {target a b : String}

theorem passesShared_eq_false_iff (ht : Path.join? u.dir i.specifier = some target) :
    passesShared settings target = false ↔ Closed settings (Path.directories target) := by
  obtain ⟨reached, hwalk, rfl⟩ := Path.join?_eq_some_iff.mp ht
  have hparts := Path.part_of_walk hwalk
  rw [Path.directories_ofSegments hparts, closed_iff, passesShared, Path.dropLast_segments_ofSegments hparts]
  cases afterMarker? settings reached.reverse.dropLast with
  | none => simp
  | some inner => simp

theorem flagged?_of_apart (ctx : Context) (hr : i.isRelative = true) (ht : Path.join? u.dir i.specifier = some target)
    (h : Apart settings u.path target a b) :
    ∃ v, flagged? settings ctx u i = some v ∧ v.finding = .aggregateBoundary a b i.specifier ∧
      v.location = ⟨u.path, some i.line⟩ := by
  have hinternal : isInternal settings u i.specifier = false := by
    rw [← Bool.not_eq_true]
    intro hin
    exact h.differ (importing_eq_imported hin ht h.importing h.imported)
  have hshared := (passesShared_eq_false_iff ht).mpr h.closed
  simp [flagged?, ofImport?, h.importing, hr, ht, h.imported, Ne.symm h.differ, hshared, hinternal, Violation.of]

theorem foreign_of_flagged? {v : Violation} (h : flagged? settings ctx u i = some v) :
    i.isRelative = true ∧ ∃ target, Path.join? u.dir i.specifier = some target ∧ Foreign settings u.path target := by
  obtain ⟨a, ha, h⟩ := Option.bind_eq_some_iff.mp h
  unfold ofImport? at h
  split at h
  · cases h
  rename_i hr
  obtain ⟨target, ht, h⟩ := Option.bind_eq_some_iff.mp h
  obtain ⟨b, hb, h⟩ := Option.bind_eq_some_iff.mp h
  split at h
  · cases h
  rename_i hkept
  simp only [Bool.or_eq_true, beq_iff_eq, not_or, Bool.not_eq_true] at hkept
  obtain ⟨⟨hne, hshared⟩, -⟩ := hkept
  refine ⟨by simpa using hr, target, ht, a, b, ha, hb, Ne.symm hne, ?_⟩
  exact (passesShared_eq_false_iff ht).mp hshared

theorem flagged?_isSome_iff :
    (flagged? settings ctx u i).isSome = true ↔
      i.isRelative = true ∧ ∃ target, Path.join? u.dir i.specifier = some target ∧ Foreign settings u.path target := by
  constructor
  · intro h
    obtain ⟨v, hv⟩ := Option.isSome_iff_exists.mp h
    exact foreign_of_flagged? hv
  · rintro ⟨hr, target, ht, a, b, h⟩
    obtain ⟨v, hv, -⟩ := flagged?_of_apart ctx hr ht h
    rw [hv]
    rfl

/-- Internal references never lead to another aggregate. So the check goes through the imports one by one and
    flags those that are relative and lead to a foreign file. -/
theorem run_flags_foreign (settings : Config.Aggregates) :
    (∀ (u : SourceUnit) (specifier target a b : String), isInternal settings u specifier = true →
      Path.join? u.dir specifier = some target → infer? settings u.path = some a → infer? settings target = some b →
      a = b) ∧
      ∀ ctx : Context,
        run settings ctx = (ctx.units.flatMap fun u => u.imports.filterMap (flagged? settings ctx u)) ∧
          ∀ u i, (flagged? settings ctx u i).isSome = true ↔
            i.isRelative = true ∧
              ∃ target, Path.join? u.dir i.specifier = some target ∧ Foreign settings u.path target :=
  ⟨fun _ _ _ _ _ => importing_eq_imported, fun ctx => ⟨by rw [run, ofUnit_eq], fun _ _ => flagged?_isSome_iff⟩⟩

def upwards : Config.Aggregates := ⟨["domain"], ["ports", ".."], ["events"]⟩

/-- A file with an import of its own aggregate, two directories up, and one of another. -/
def inlet : SourceUnit :=
  ⟨"src/domain/order/deep/ports/In.ts", "", [⟨"../../Order", 1⟩, ⟨"../../../user/User", 2⟩], [], none, 0⟩

theorem run_flags_foreign_inlet :
    (isInternal upwards inlet "../../Order" = true ∧
        Path.join? inlet.dir "../../Order" = some "src/domain/order/Order" ∧
        infer? upwards inlet.path = some "order" ∧
        ∃ b, infer? upwards "src/domain/order/Order" = some b ∧ "order" = b) ∧
      ∀ ctx, (flagged? upwards ctx inlet ⟨"../../../user/User", 2⟩).isSome = true := by
  obtain ⟨hsame, hrun⟩ := run_flags_foreign upwards
  have hinternal : isInternal upwards inlet "../../Order" = true := by decide
  have hjoin : Path.join? inlet.dir "../../Order" = some "src/domain/order/Order" := by decide
  have hinfer : infer? upwards inlet.path = some "order" := by decide
  have hother : infer? upwards "src/domain/order/Order" = some "order" := by decide
  refine ⟨⟨hinternal, hjoin, hinfer, "order", hother, hsame _ _ _ _ _ hinternal hjoin hinfer hother⟩, fun ctx => ?_⟩
  have hapart : Apart upwards inlet.path "src/domain/user/User" "order" "user" :=
    ⟨hinfer, by decide, by decide, by decide⟩
  exact ((hrun ctx).2 _ _).mpr ⟨by decide, _, by decide, _, _, hapart⟩

/-! ## Siblings -/

/-- An import adds to the report what the check says about it, whatever the other imports are. -/
theorem run_insert (settings : Config.Aggregates) {before after : List SourceUnit} {imports more : List Import}
    (hunits : ctx.units = before ++ u :: after) (himports : u.imports = imports ++ i :: more) :
    ∃ front back, run settings ctx = front ++ ((flagged? settings ctx u i).toList ++ back) ∧
      run settings { ctx with units := before ++ { u with imports := imports ++ more } :: after } = front ++ back := by
  obtain ⟨front, back, hwith, hwithout⟩ :=
    flatMap_imports_insert (f := flagged? settings ctx) (fun _ _ => rfl) before after himports
  exact ⟨front, back, by rw [run, ofUnit_eq, hunits]; exact hwith, by rw [run, ofUnit_eq]; exact hwithout⟩

/-- An import that leads from one aggregate into another, past no shared folder, is worth exactly one violation:
    with it the check reports one more than without it, which names both aggregates and the line. -/
theorem run_flags_sibling {before after : List SourceUnit} {imports more : List Import}
    {P P' S S' R T : List (List Char)} {m m' a b file name : List Char} (hunits : ctx.units = before ++ u :: after)
    (himports : u.imports = imports ++ i :: more) (hu : Lies settings u.path P m S a R file)
    (hr : i.isRelative = true) (ht : Path.join? u.dir i.specifier = some target)
    (hl : Lies settings target P' m' S' b T name) (hne : a ≠ b)
    (hclosed : ∀ d ∈ S' ++ b :: T, listed settings.sharedFolders d = false) :
    ∃ v front back, run settings ctx = front ++ v :: back ∧
      run settings { ctx with units := before ++ { u with imports := imports ++ more } :: after } = front ++ back ∧
      v.finding = .aggregateBoundary (String.ofList a) (String.ofList b) i.specifier ∧
      v.location = ⟨u.path, some i.line⟩ := by
  have hapart : Apart settings u.path target (String.ofList a) (String.ofList b) := by
    refine ⟨hu.infer?_eq, hl.infer?_eq, fun e => hne (String.ofList_inj.mp e), ?_⟩
    intro inner hinner
    rw [hinner.unique hl.below]
    exact hclosed
  obtain ⟨v, hv, hfinding, hplace⟩ := flagged?_of_apart ctx hr ht hapart
  obtain ⟨front, back, hrun, hwithout⟩ := run_insert settings hunits himports
  rw [hv] at hrun
  exact ⟨v, front, back, hrun, hwithout, hfinding, hplace⟩

def place : SourceUnit :=
  ⟨"src/Domain/entities/order/services/Place.ts", "",
   [⟨"./Tax", 1⟩, ⟨"../../../aggregates/./user/model/User", 4⟩], [], none, 0⟩

def placeContext : Context := ⟨[place], .empty, .default, .default⟩

theorem run_flags_sibling_place :
    Lies .default place.path ["src".toList] "Domain".toList ["entities".toList] "order".toList ["services".toList]
        "Place.ts".toList ∧
      Path.join? place.dir "../../../aggregates/./user/model/User" = some "src/Domain/aggregates/user/model/User" ∧
      Lies .default "src/Domain/aggregates/user/model/User" ["src".toList] "Domain".toList ["aggregates".toList]
        "user".toList ["model".toList] "User".toList ∧
      ∃ v front back, run .default placeContext = front ++ v :: back ∧
        run .default { placeContext with units := [{ place with imports := [⟨"./Tax", 1⟩] }] } = front ++ back ∧
        v.finding = .aggregateBoundary "order" "user" "../../../aggregates/./user/model/User" ∧
        v.location = ⟨"src/Domain/entities/order/services/Place.ts", some 4⟩ := by
  have hu : Lies .default place.path ["src".toList] "Domain".toList ["entities".toList] "order".toList
      ["services".toList] "Place.ts".toList :=
    ⟨by decide, by decide, by decide, by decide, by decide, by decide⟩
  have ht : Path.join? place.dir "../../../aggregates/./user/model/User" =
      some "src/Domain/aggregates/user/model/User" := by decide
  have hl : Lies .default "src/Domain/aggregates/user/model/User" ["src".toList] "Domain".toList
      ["aggregates".toList] "user".toList ["model".toList] "User".toList :=
    ⟨by decide, by decide, by decide, by decide, by decide, by decide⟩
  have hunits : placeContext.units = [] ++ place :: [] := rfl
  have himports : place.imports = [⟨"./Tax", 1⟩] ++ ⟨"../../../aggregates/./user/model/User", 4⟩ :: [] := rfl
  exact ⟨hu, ht, hl, run_flags_sibling hunits himports hu (by decide) ht hl (by decide) (by decide)⟩

end LayerLint.Check.Aggregate
