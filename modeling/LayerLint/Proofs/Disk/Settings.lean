/-
  LayerLint.Proofs.Disk.Settings: the nearest settings file wins.

  A directory that a path leads to has names that an absolute path can write, and only directories above it
  (`rooted_of_resolve`). So the paths that are tried for it are those of the directory itself and of the directories
  above it, one name shorter each time (`upwards_absolute_snoc`), and the settings file of each is looked for where
  it would stand (`has_settingsIn`). The first one found is therefore in the nearest directory that has any
  (`firstSettings?_spec`), and the settings of the directory are what that file holds, or the defaults if it holds none
  (`findConfig?_nearest`).

  All of this is about disks without links and permissions: the directory above an address is the address without its
  last name, and a settings file that is there can be read.
-/

import LayerLint.Disk.Settings
import LayerLint.Proofs.Disk.Tree
import Mathlib.Data.List.Induction

namespace LayerLint.Disk

theorem isName_fileName : IsName Config.fileName := by decide

variable {d : Disk} {l : Address}

/-! ## Directories that paths lead to -/

structure Rooted (d : Disk) (l : Address) : Prop where
  names : ∀ name ∈ l, IsName name
  above : ∀ a, a <+: l → a ≠ l → d.entry? a = some .dir

theorem Rooted.of_above {a : Address} (h : Rooted d l) (ha : a <+: l) : Rooted d a where
  names name hname := h.names name (ha.subset hname)
  above b hb hne := by
    refine h.above b (hb.trans ha) ?_
    rintro rfl
    exact hne (hb.eq_of_length_le ha.length_le)

theorem rooted_cwd (hcwd : ∀ name ∈ d.cwd, IsName name) : Rooted d d.cwd := ⟨hcwd, fun _ ha _ => entry?_of_above ha⟩

theorem Rooted.step {l' : Address} {name : String} (h : Rooted d l) (hs : d.step l name = .ok l')
    (hname : '/' ∉ name.toList) : Rooted d l' := by
  obtain ⟨hdir, rfl | rfl | ⟨hempty, hdot, hup, rfl⟩⟩ := step_inv hs
  · exact h
  · exact h.of_above (List.dropLast_prefix l)
  · refine ⟨?_, ?_⟩
    · intro other ho
      rcases List.mem_append.mp ho with ho | ho
      · exact h.names other ho
      · rw [List.mem_singleton.mp ho]
        exact ⟨hempty, hdot, hup, hname⟩
    · intro a ha hne
      rcases List.prefix_concat_iff.mp ha with rfl | ha
      · exact absurd rfl hne
      · by_cases hl : a = l
        · exact hl ▸ hdir
        · exact h.above a ha hl

theorem Rooted.foldlM_step {l' : Address} {ns : List String} (h : Rooted d l) (hs : ns.foldlM d.step l = .ok l')
    (hns : ∀ name ∈ ns, '/' ∉ name.toList) : Rooted d l' := by
  induction ns generalizing l with
  | nil => exact Except.ok.inj hs ▸ h
  | cons name ns ih =>
    cases hstep : d.step l name with
    | error e =>
      rw [List.foldlM_cons, hstep] at hs
      cases hs
    | ok next =>
      rw [foldlM_step_cons hstep] at hs
      exact ih (h.step hstep (hns name List.mem_cons_self)) hs fun other ho => hns other (List.mem_cons_of_mem name ho)

theorem rooted_of_resolve (hcwd : ∀ name ∈ d.cwd, IsName name) {path : String} (h : d.resolve path = .ok l) :
    Rooted d l := by
  have hnames : ∀ name ∈ names path, '/' ∉ name.toList := by
    intro name hname
    obtain ⟨seg, hseg, rfl⟩ := List.mem_map.mp hname
    rw [String.toList_ofList]
    exact Path.slash_not_mem_of_mem_segments hseg
  have hstart : Rooted d (d.start path) := by
    unfold start
    split
    · exact (rooted_cwd hcwd).of_above List.nil_prefix
    · exact rooted_cwd hcwd
  unfold resolve at h
  split at h
  · cases h
  · exact hstart.foldlM_step h hnames

/-! ## Absolute paths -/

theorem toList_absolute (l : Address) : (absolute l).toList = '/' :: ['/'].intercalate (l.map String.toList) := by
  rw [absolute, String.toList_append, String.toList_intercalate]
  rfl

theorem absolute_ne_empty (l : Address) : absolute l ≠ "" := by
  intro h
  have := congrArg String.toList h
  rw [toList_absolute] at this
  cases this

theorem absolute_snoc (hl : l ≠ []) (name : String) : absolute (l ++ [name]) = absolute l ++ "/" ++ name := by
  rw [← String.toList_inj, String.toList_append, String.toList_append, toList_absolute, toList_absolute,
    List.map_append, List.map_singleton, Text.intercalate_snoc _ (by simpa using hl)]
  simp

theorem names_absolute (hl : l ≠ []) (h : ∀ name ∈ l, IsName name) : names (absolute l) = "" :: l := by
  have hslash : ∀ p ∈ l.map String.toList, ∀ c ∈ p, Path.isSlash c = false := by
    intro p hp
    obtain ⟨name, hname, rfl⟩ := List.mem_map.mp hp
    exact Path.slash_not_mem_iff.mp (h name hname).2.2.2
  have hsplit : Path.segments (absolute l) = [] :: l.map String.toList := by
    rw [Path.segments, toList_absolute, Text.split_cons_of_sep rfl,
      Text.split_intercalate rfl (by simpa using hl) hslash]
  rw [names, hsplit, List.map_cons, List.map_map]
  exact congrArg ("" :: ·) ((List.map_congr_left fun name _ => String.ofList_toList).trans (List.map_id l))

theorem resolve_absolute (h : Rooted d l) (he : d.entry? l = some .dir) : d.resolve (absolute l) = .ok l := by
  have hstart : d.start (absolute l) = [] := by
    refine if_pos (String.startsWith_string_iff.mpr ?_)
    rw [toList_absolute]
    exact ⟨_, rfl⟩
  have hroot : d.entry? [] = some .dir := entry?_of_above List.nil_prefix
  have hstay : d.step [] "" = .ok [] := by simp [step, hroot]
  rw [resolve, if_neg (absolute_ne_empty l), hstart]
  by_cases hl : l = []
  · subst hl
    rfl
  · rw [names_absolute hl h.names, foldlM_step_cons hstay]
    refine foldlM_step_down h.names (fun n hn => ?_) (by rw [List.nil_append, he]; rfl)
    refine h.above _ (List.take_prefix n l) fun hsame => ?_
    have := congrArg List.length hsame
    rw [List.nil_append, List.length_take] at this
    omega

theorem join_absolute (h : ∀ name ∈ l, IsName name) {name : String} (hn : IsName name) :
    join (absolute l) name = absolute (l ++ [name]) := by
  unfold join
  simp only [hn.startsWith, absolute_ne_empty, decide_false, Bool.or_false, Bool.false_eq_true, if_false]
  by_cases hl : l = []
  · subst hl
    have hroot : (absolute []).endsWith "/" = true := by
      rw [String.endsWith_eq_endsWith_toSlice, String.Slice.endsWith_string_iff, String.copy_toSlice, toList_absolute]
      exact ⟨[], rfl⟩
    rw [if_pos hroot]
    rfl
  · rw [absolute_snoc hl, if_neg]
    intro hslash
    obtain ⟨above, habove⟩ := exists_of_endsWith hslash
    have hlast : "" :: l = names above ++ [""] := by
      rw [← names_absolute hl h, habove, ← names_empty, ← names_slash, String.append_empty]
    have hmem : "" ∈ l := by
      have := congrArg List.getLast? hlast
      rw [List.getLast?_concat, List.getLast?_cons_of_ne_nil hl] at this
      exact List.mem_of_getLast? this
    exact (h "" hmem).1 rfl

/-! ## The paths that are tried -/

theorem trimNames_eq_self (h : ∀ name ∈ l, IsName name) : trimNames ("" :: l) = "" :: l := by
  have hdrop : (l.reverse.dropWhile fun n => n == "" || n == ".") = l.reverse := by
    cases hl : l.reverse with
    | nil => rfl
    | cons name ns =>
      obtain ⟨hempty, hdot, -⟩ := h name (List.mem_reverse.mp (hl ▸ List.mem_cons_self))
      simp [hempty, hdot]
  rw [trimNames, hdrop, List.reverse_reverse]

theorem pathOf_eq_absolute (l : Address) : pathOf ("" :: l) = absolute l := by
  cases l with
  | nil => rfl
  | cons name ns =>
    rw [pathOf, if_neg (by simp), ← String.toList_inj, toList_absolute, String.toList_intercalate, List.map_cons,
      List.map_cons, List.intercalate_cons_cons]
    rfl

theorem pathsAbove_snoc {name : String} (h : ∀ n ∈ l ++ [name], IsName n) (n : Nat) :
    pathsAbove (n + 1) ("" :: (l ++ [name])) = absolute l :: pathsAbove n ("" :: l) := by
  have hl : trimNames (("" :: (l ++ [name])).dropLast) = "" :: l := by
    rw [← List.cons_append, List.dropLast_concat, trimNames_eq_self fun n hn => h n (List.mem_append_left _ hn)]
  have hne : l ++ [name] ≠ [] := by simp
  rw [pathsAbove, trimNames_eq_self h]
  split
  · rename_i heq
    cases heq
  · rename_i heq
    exact absurd (List.cons.inj heq).2 hne
  · rename_i heq
    exact absurd (List.cons.inj heq).2 hne
  · rw [hl]
    exact congrArg (· :: _) (pathOf_eq_absolute l)

theorem upwards_absolute (h : ∀ name ∈ l, IsName name) :
    upwards (absolute l) = absolute l :: pathsAbove (l.length + 1) ("" :: l) := by
  rw [upwards, if_neg (absolute_ne_empty l)]
  by_cases hl : l = []
  · subst hl
    rfl
  · rw [names_absolute hl h, List.length_cons]

theorem upwards_absolute_snoc {name : String} (h : ∀ n ∈ l ++ [name], IsName n) :
    upwards (absolute (l ++ [name])) = absolute (l ++ [name]) :: upwards (absolute l) := by
  rw [upwards_absolute h, upwards_absolute fun n hn => h n (List.mem_append_left _ hn), List.length_append,
    pathsAbove_snoc h]
  rfl

/-! ## The nearest settings file -/

def settingsIn (a : Address) : Address := a ++ [Config.fileName]

/-- The nearest of a directory and those above it that have an entry of the settings file's name: every other one of
    them with such an entry lies above it. -/
structure Nearest (d : Disk) (l a : Address) : Prop where
  above : a <+: l
  settled : (d.entry? (settingsIn a)).isSome
  nearest : ∀ b, b <+: l → (d.entry? (settingsIn b)).isSome → b <+: a

theorem nearest_self (h : (d.entry? (settingsIn l)).isSome) : Nearest d l l :=
  ⟨List.prefix_refl l, h, fun _ hb _ => hb⟩

theorem Nearest.unique {a b : Address} (ha : Nearest d l a) (hb : Nearest d l b) : a = b :=
  (hb.nearest a ha.above ha.settled).eq_of_length_le (ha.nearest b hb.above hb.settled).length_le

/-- The nearest of the directories above is also that of a directory without an entry of its own. -/
theorem Nearest.snoc {a : Address} (h : Nearest d l a) {name : String}
    (hnone : d.entry? (settingsIn (l ++ [name])) = none) : Nearest d (l ++ [name]) a := by
  refine ⟨h.above.trans (List.prefix_append _ _), h.settled, fun b hb hsome => ?_⟩
  rcases List.prefix_concat_iff.mp hb with rfl | hb
  · rw [hnone] at hsome
    cases hsome
  · exact h.nearest b hb hsome

theorem resolve_settingsIn (h : Rooted d l) (he : d.entry? l = some .dir) :
    d.resolve (absolute (settingsIn l)) =
      if (d.entry? (settingsIn l)).isSome then .ok (settingsIn l) else .error .notFound := by
  rw [settingsIn, ← join_absolute h.names isName_fileName]
  exact resolve_join_name (resolve_absolute h he) he isName_fileName

theorem has_settingsIn (h : Rooted d l) (he : d.entry? l = some .dir) :
    d.has (absolute (settingsIn l)) = (d.entry? (settingsIn l)).isSome := by
  rw [has, find?, resolve_settingsIn h he]
  cases hs : d.entry? (settingsIn l) with
  | some e => simp [Except.toOption, hs]
  | none => simp [Except.toOption]

def firstSettings? (d : Disk) (l : Address) : Option String :=
  ((upwards (absolute l)).map fun p => join p Config.fileName).find? d.has

/-- The first one is in the directory itself, or else the first one on the rest of the way. -/
theorem firstSettings?_eq (h : Rooted d l) (he : d.entry? l = some .dir) {rest : List String}
    (hrest : upwards (absolute l) = absolute l :: rest) :
    d.firstSettings? l =
      if (d.entry? (settingsIn l)).isSome then some (absolute (settingsIn l))
      else (rest.map fun p => join p Config.fileName).find? d.has := by
  have hjoin : join (absolute l) Config.fileName = absolute (settingsIn l) := join_absolute h.names isName_fileName
  rw [firstSettings?, hrest, List.map_cons, hjoin, List.find?_cons, has_settingsIn h he]
  cases (d.entry? (settingsIn l)).isSome with
  | true => rfl
  | false => rfl

/-- Going up from a directory finds the nearest settings file, or comes past the root if there is none. -/
theorem firstSettings?_spec (h : Rooted d l) (he : d.entry? l = some .dir) :
    (∃ a, Nearest d l a ∧ d.firstSettings? l = some (absolute (settingsIn a))) ∨
      (∀ a, a <+: l → d.entry? (settingsIn a) = none) ∧ d.firstSettings? l = none := by
  induction l using List.reverseRecOn with
  | nil =>
    rw [firstSettings?_eq h he (upwards_absolute h.names)]
    cases hs : d.entry? (settingsIn []) with
    | some e => exact .inl ⟨[], nearest_self (by rw [hs]; rfl), rfl⟩
    | none =>
      refine .inr ⟨fun a ha => ?_, rfl⟩
      rw [List.prefix_nil.mp ha, hs]
  | append_singleton l name ih =>
    rw [firstSettings?_eq h he (upwards_absolute_snoc h.names)]
    cases hs : d.entry? (settingsIn (l ++ [name])) with
    | some e => exact .inl ⟨l ++ [name], nearest_self (by rw [hs]; rfl), rfl⟩
    | none =>
      have hl : l <+: l ++ [name] := List.prefix_append _ _
      have hdir : d.entry? l = some .dir := h.above l hl (by simp)
      rcases ih (h.of_above hl) hdir with ⟨a, ha, hfirst⟩ | ⟨hnone, hfirst⟩
      · exact .inl ⟨a, ha.snoc hs, hfirst⟩
      · refine .inr ⟨fun a ha => ?_, hfirst⟩
        rcases List.prefix_concat_iff.mp ha with rfl | ha
        · exact hs
        · exact hnone a ha

theorem Nearest.not_none {a : Address} (h : Nearest d l a) : ¬∀ b, b <+: l → d.entry? (settingsIn b) = none := by
  intro hnone
  have hsome := h.settled
  rw [hnone a h.above] at hsome
  cases hsome

theorem firstSettings?_eq_some_iff (h : Rooted d l) (he : d.entry? l = some .dir) {path : String} :
    d.firstSettings? l = some path ↔ ∃ a, Nearest d l a ∧ path = absolute (settingsIn a) := by
  rcases firstSettings?_spec h he with ⟨a, ha, hfirst⟩ | ⟨hnone, hfirst⟩
  · rw [hfirst, Option.some_inj]
    constructor
    · rintro rfl
      exact ⟨a, ha, rfl⟩
    · rintro ⟨b, hb, rfl⟩
      rw [ha.unique hb]
  · rw [hfirst]
    constructor
    · intro hsome
      cases hsome
    · rintro ⟨a, ha, -⟩
      exact absurd hnone ha.not_none

theorem firstSettings?_eq_none_iff (h : Rooted d l) (he : d.entry? l = some .dir) :
    d.firstSettings? l = none ↔ ∀ a, a <+: l → d.entry? (settingsIn a) = none := by
  rcases firstSettings?_spec h he with ⟨a, ha, hfirst⟩ | ⟨hnone, hfirst⟩
  · rw [hfirst]
    exact ⟨fun hnone => absurd hnone (Option.some_ne_none _), fun hnone => absurd hnone ha.not_none⟩
  · exact ⟨fun _ => hnone, fun _ => hfirst⟩

/-! ## The settings of a directory -/

/-- The settings in an entry: those of its text, or the defaults if it has none that can be read. -/
def configIn : Option Entry → Config
  | some (.file (some text)) => (Config.ofText? text).getD .default
  | _ => .default

theorem loadConfig_eq {path : String} {a : Address} (hr : d.resolve path = .ok a) :
    (d.loadConfig path).toOption.getD .default = configIn (d.entry? a) := by
  unfold loadConfig read
  rw [hr]
  cases he : d.entry? a with
  | none => simp [bind, Except.bind, he, configIn, Except.toOption]
  | some e =>
    cases e with
    | dir => simp [bind, Except.bind, he, configIn, Except.toOption]
    | file content =>
      cases content with
      | none => simp [bind, Except.bind, he, configIn, Except.toOption]
      | some text => cases hc : Config.ofText? text <;> simp [bind, Except.bind, he, configIn, Except.toOption, hc]

/-- The settings file of an existing directory is the one in the nearest directory, among it and those above it, that
    has an entry of that name, and there is none only if none of them has one. Its path leads to that entry, and the
    settings are what the entry holds: if it cannot be read they are the defaults, and never those of a directory
    further up. -/
theorem findConfig?_nearest (d : Disk) (hcwd : ∀ name ∈ d.cwd, IsName name) {dir : String} {l : Address}
    (hr : d.resolve dir = .ok l) (hd : d.entry? l = some .dir) :
    (∀ path, d.findConfig? dir = some path ↔ ∃ a, Nearest d l a ∧ path = absolute (settingsIn a)) ∧
      (d.findConfig? dir = none ↔ ∀ a, a <+: l → d.entry? (settingsIn a) = none) ∧
      (∀ a, Nearest d l a → d.resolve (absolute (settingsIn a)) = .ok (settingsIn a) ∧
        d.configOf dir = configIn (d.entry? (settingsIn a))) ∧
      (d.findConfig? dir = none → d.configOf dir = .default) := by
  have hroot := rooted_of_resolve hcwd hr
  have hfind : d.findConfig? dir = d.firstSettings? l := by rw [findConfig?, hr]; rfl
  have hleads : ∀ a, Nearest d l a → d.resolve (absolute (settingsIn a)) = .ok (settingsIn a) := by
    intro a ha
    have hdir : d.entry? a = some .dir := by
      by_cases hl : a = l
      · exact hl ▸ hd
      · exact hroot.above a ha.above hl
    rw [resolve_settingsIn (hroot.of_above ha.above) hdir, if_pos ha.settled]
  refine ⟨fun path => ?_, ?_, fun a ha => ⟨hleads a ha, ?_⟩, fun hnone => ?_⟩
  · rw [hfind]
    exact firstSettings?_eq_some_iff hroot hd
  · rw [hfind]
    exact firstSettings?_eq_none_iff hroot hd
  · rw [configOf, hfind, (firstSettings?_eq_some_iff hroot hd).mpr ⟨a, ha, rfl⟩]
    exact loadConfig_eq (hleads a ha)
  · rw [configOf, hnone]

def nested : Disk where
  entries :=
    [(["work", ".strata.toml"], .file (some "[rules]\nfail_on = \"low\"\n")), (["work", "a"], .dir),
      (["work", "a", ".strata.toml"], .file (some "[rules\n")), (["work", "a", "b"], .dir)]
  cwd := ["work"]

theorem findConfig?_nearest_nested :
    (∀ name ∈ nested.cwd, IsName name) ∧ nested.resolve "a/b" = .ok ["work", "a", "b"] ∧
      nested.entry? ["work", "a", "b"] = some .dir ∧ Nearest nested ["work", "a", "b"] ["work", "a"] ∧
      nested.findConfig? "a/b" = some "/work/a/.strata.toml" ∧ nested.configOf "a/b" = .default ∧
      (configIn (nested.entry? (settingsIn ["work"]))).rules.failOn = .low := by
  have hr : nested.resolve "a/b" = .ok ["work", "a", "b"] := by decide +kernel
  have hnone : nested.entry? (settingsIn (["work", "a"] ++ ["b"])) = none := by decide
  have hnear : Nearest nested ["work", "a"] ["work", "a"] := nearest_self (by decide)
  have hmine := hnear.snoc hnone
  have hcwd : ∀ name ∈ nested.cwd, IsName name := by decide
  have hdir : nested.entry? ["work", "a", "b"] = some .dir := by decide
  obtain ⟨hfound, -, hconfig, -⟩ := findConfig?_nearest nested hcwd hr hdir
  refine ⟨hcwd, hr, hdir, hmine, (hfound _).mpr ⟨_, hmine, by decide⟩, (hconfig _ hmine).2.trans ?_, ?_⟩
  · decide +kernel
  · decide +kernel

end LayerLint.Disk
