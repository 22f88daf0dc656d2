/-
  LayerLint.Proofs.Disk.Scan: whether a listed path leads back to its file.

  A scan lists a backslash as a slash, and reading takes the listed path as it is. As long as no name has a
  backslash, the listed path of a file is its names joined by slashes (`names_listed`), so that it leads
  back to the file and to no other, and no path is listed twice. But a name with a backslash is listed as
  if it were several names, and these lead to another place or nowhere, since no walk adds a name with a
  backslash to an address (`portable_of_resolve`). So listed paths are unique and lead back to their files
  exactly when no listed file has a backslash in its names (`scan_agrees_iff`), and two files can be listed
  under one path (`scan_lists_twins_alike`).
-/

import LayerLint.Disk.Scan
import LayerLint.Proofs.Analysis.Units
import LayerLint.Proofs.Disk.Tree
import Mathlib.Data.List.Nodup

namespace LayerLint.Disk

def Portable (ns : List String) : Prop := ∀ name ∈ ns, '\\' ∉ name.toList

instance (ns : List String) : Decidable (Portable ns) := inferInstanceAs (Decidable (∀ name ∈ ns, _))

/-! ## The listed path of a file -/

theorem portable_names_listed (ns : List String) : Portable (names (listed ns)) := by
  intro name hm hc
  obtain ⟨segment, hs, rfl⟩ := List.mem_map.mp hm
  rw [String.toList_ofList] at hc
  have hlisted := (Text.mem_of_mem_split hs hc).1
  rw [listed, String.toList_ofList] at hlisted
  obtain ⟨c, -, hc⟩ := List.mem_map.mp hlisted
  split at hc
  · cases hc
  · rename_i hne
    exact hne hc

theorem toList_listed {ns : List String} (h : Portable ns) :
    (listed ns).toList = ['/'].intercalate (ns.map String.toList) := by
  rw [listed, String.toList_ofList, String.toList_intercalate]
  refine (List.map_congr_left fun c hc => ?_).trans (List.map_id _)
  refine if_neg ?_
  rintro rfl
  obtain hslash | ⟨p, hp, hc⟩ := Text.mem_intercalate hc
  · cases hslash
  · obtain ⟨name, hn, rfl⟩ := List.mem_map.mp hp
    exact h name hn hc

/-- Names without a backslash can be read off the listed path. -/
theorem names_listed {ns : List String} (hp : Portable ns) (hne : ns ≠ []) (hn : ∀ name ∈ ns, IsName name) :
    names (listed ns) = ns := by
  have hsplit : Path.segments (listed ns) = ns.map String.toList := by
    rw [Path.segments, toList_listed hp]
    refine Text.split_intercalate rfl (by simpa using hne) ?_
    intro p hp c hc
    obtain ⟨name, hname, rfl⟩ := List.mem_map.mp hp
    refine beq_false_of_ne ?_
    rintro rfl
    exact (hn name hname).2.2.2 hc
  rw [names, hsplit, List.map_map]
  exact (List.map_congr_left fun name _ => String.ofList_toList).trans (List.map_id ns)

/-! ## The files below a directory -/

variable {d : Disk} {dir : Address}

def below? (dir : Address) (x : Address × Entry) : Option (List String) :=
  match x.2 with
  | .file _ => if dir.isPrefixOf x.1 then some (x.1.drop dir.length) else none
  | .dir => none

theorem filesBelow_eq (d : Disk) (dir : Address) : d.filesBelow dir = d.entries.filterMap (below? dir) := rfl

theorem below?_eq_some {x : Address × Entry} {ns : List String} :
    below? dir x = some ns ↔ ∃ text, x = (dir ++ ns, .file text) := by
  obtain ⟨l, e⟩ := x
  cases e with
  | dir => simp [below?]
  | file text =>
    simp only [below?, Option.ite_none_right_eq_some, Option.some.injEq, List.isPrefixOf_iff_prefix,
      List.prefix_iff_eq_append, Prod.mk.injEq, Entry.file.injEq]
    constructor
    · rintro ⟨hp, rfl⟩
      exact ⟨_, hp.symm, rfl⟩
    · rintro ⟨_, rfl, rfl⟩
      simp

theorem mem_filesBelow {ns : List String} :
    ns ∈ d.filesBelow dir ↔ ∃ text, (dir ++ ns, .file text) ∈ d.entries := by
  rw [filesBelow_eq, List.mem_filterMap]
  constructor
  · rintro ⟨x, hm, hx⟩
    obtain ⟨text, rfl⟩ := below?_eq_some.mp hx
    exact ⟨text, hm⟩
  · rintro ⟨text, hm⟩
    exact ⟨_, hm, below?_eq_some.mpr ⟨text, rfl⟩⟩

theorem IsTree.filesBelow_nodup (ht : d.IsTree) (dir : Address) : (d.filesBelow dir).Nodup := by
  refine List.pairwise_filterMap.mpr ((List.pairwise_map.mp ht.nodup).imp ?_)
  intro x y hne ns hx ns' hy hns
  obtain ⟨_, rfl⟩ := below?_eq_some.mp hx
  obtain ⟨_, rfl⟩ := below?_eq_some.mp hy
  exact hne (by rw [hns])

/-- Below a directory there is no file without a name. -/
theorem IsTree.ne_nil_of_mem (ht : d.IsTree) (hd : d.entry? dir = some .dir) {ns : List String} {text : Option String}
    (h : (dir ++ ns, .file text) ∈ d.entries) : ns ≠ [] := by
  rintro rfl
  rw [← List.append_nil dir, ht.entry?_of_mem h] at hd
  cases hd

/-! ## A scan -/

theorem directory_eq_ok {root : String} (h : d.directory root = .ok dir) :
    d.resolve root = .ok dir ∧ d.entry? dir = some .dir := by
  unfold directory at h
  split at h
  · cases h
  · rename_i l hr
    split at h
    · rename_i hd
      obtain rfl := Except.ok.inj h
      exact ⟨hr, hd⟩
    · cases h

theorem scan_eq_ok {root : String} {includes excludes paths : List String}
    (h : d.scan root includes excludes = .ok paths) :
    ∃ dir wanted unwanted, d.directory root = .ok dir ∧ paths = d.listing dir wanted unwanted := by
  unfold scan at h
  cases hd : d.directory root with
  | error causes =>
    rw [hd] at h
    cases h
  | ok dir =>
    cases hi : Glob.parseAll includes with
    | error causes =>
      rw [hd, hi] at h
      cases h
    | ok wanted =>
      cases he : Glob.parseAll excludes with
      | error causes =>
        rw [hd, hi, he] at h
        cases h
      | ok unwanted =>
        rw [hd, hi, he] at h
        exact ⟨dir, wanted, unwanted, rfl, (Except.ok.inj h).symm⟩

theorem mem_listing {includes excludes : List Glob} {path : String} :
    path ∈ d.listing dir includes excludes ↔
      (∃ ns text, (dir ++ ns, .file text) ∈ d.entries ∧ listed ns = path) ∧ wanted includes excludes path = true := by
  simp only [listing, List.mem_mergeSort, List.mem_filter, List.mem_map, mem_filesBelow]
  constructor
  · rintro ⟨⟨ns, ⟨text, hm⟩, hl⟩, hw⟩
    exact ⟨⟨ns, text, hm, hl⟩, hw⟩
  · rintro ⟨⟨ns, text, hm, hl⟩, hw⟩
    exact ⟨⟨ns, ⟨text, hm⟩, hl⟩, hw⟩

/-- The listed paths are those of the wanted files, one for each. -/
theorem listing_perm (includes excludes : List Glob) :
    (d.listing dir includes excludes).Perm
      (((d.filesBelow dir).filter fun ns => wanted includes excludes (listed ns)).map listed) := by
  have hmap : ((d.filesBelow dir).map listed).filter (wanted includes excludes) =
      ((d.filesBelow dir).filter fun ns => wanted includes excludes (listed ns)).map listed := List.filter_map
  rw [← hmap]
  exact List.mergeSort_perm _ _

/-! ## There and back -/

/-- A path on which reading opens the file at an address, with this text or none. -/
structure Opens (d : Disk) (root path : String) (l : Address) (text : Option String) : Prop where
  address : d.resolve (join root path) = .ok l
  content : d.readListed root path = contentOf text

/-- Names without a backslash lead back to their file. -/
theorem IsTree.opens_listed (ht : d.IsTree) {root : String} (hd : d.directory root = .ok dir) {ns : List String}
    {text : Option String} (h : (dir ++ ns, .file text) ∈ d.entries) (hp : Portable ns) :
    d.Opens root (listed ns) (dir ++ ns) text := by
  obtain ⟨hroot, hdir⟩ := directory_eq_ok hd
  have hnames : ∀ name ∈ ns, IsName name := fun name hn => ht.names _ h name (by simp [hn])
  have hback := names_listed hp (ht.ne_nil_of_mem hdir h) hnames
  have hrelative : (listed ns).startsWith "/" = false := by
    rw [Bool.eq_false_iff]
    intro hslash
    obtain ⟨rest, hrest⟩ := names_of_startsWith hslash
    rw [hback] at hrest
    exact (hnames "" (by simp [hrest])).1 rfl
  have haddress : d.resolve (join root (listed ns)) = .ok (dir ++ ns) := by
    rw [resolve_join hroot hrelative, hback, ht.foldlM_step h]
  exact ⟨haddress, read_of_resolve haddress (ht.entry?_of_mem h)⟩

/-- If the listed path leads back to the file, no name on the way has a backslash. -/
theorem portable_of_resolve {root : String} (hd : d.directory root = .ok dir) {ns : List String}
    (h : d.resolve (join root (listed ns)) = .ok (dir ++ ns)) : Portable ns := by
  -- wherever the walk starts, nothing stands yet below the directory
  have hwalk : ∃ l, (∀ name ∈ l.drop dir.length, '\\' ∉ name.toList) ∧
      (names (listed ns)).foldlM d.step l = .ok (dir ++ ns) := by
    cases hslash : (listed ns).startsWith "/" with
    | true =>
      have hjoin : join root (listed ns) = listed ns := by simp [join, hslash]
      rw [hjoin, resolve] at h
      split at h
      · cases h
      · rw [start, if_pos hslash] at h
        exact ⟨[], by simp, h⟩
    | false =>
      rw [resolve_join (directory_eq_ok hd).1 hslash] at h
      exact ⟨dir, by simp, h⟩
  obtain ⟨l, hl, hwalk⟩ := hwalk
  have hdrop := drop_of_foldlM_step hwalk hl (portable_names_listed ns)
  rwa [List.drop_left] at hdrop

/-- The file that these names lead to from a directory is behind one of these paths. -/
def Lists (d : Disk) (dir : Address) (paths ns : List String) (text : Option String) : Prop :=
  (dir ++ ns, .file text) ∈ d.entries ∧ listed ns ∈ paths

/-- Names without backslashes are listed under different paths. -/
theorem IsTree.listing_nodup (ht : d.IsTree) (hd : d.entry? dir = some .dir) {includes excludes : List Glob}
    (hp : ∀ ns text, d.Lists dir (d.listing dir includes excludes) ns text → Portable ns) :
    (d.listing dir includes excludes).Nodup := by
  rw [(listing_perm includes excludes).nodup_iff]
  have hback : ∀ ns ∈ (d.filesBelow dir).filter fun ns => wanted includes excludes (listed ns),
      Disk.names (listed ns) = ns := by
    intro ns hm
    obtain ⟨hfile, hwanted⟩ := List.mem_filter.mp hm
    obtain ⟨text, hfile⟩ := mem_filesBelow.mp hfile
    have hportable := hp ns text ⟨hfile, mem_listing.mpr ⟨⟨ns, text, hfile, rfl⟩, hwanted⟩⟩
    exact names_listed hportable (ht.ne_nil_of_mem hd hfile) fun name hn => ht.names _ hfile name (by simp [hn])
  refine ((ht.filesBelow_nodup dir).filter _).map_on fun ns hns ns' hns' he => ?_
  rw [← hback ns hns, ← hback ns' hns', he]

/-- Every listed path is that of a file. The listed paths are unique, and so are the paths of the units, and each leads
    back to its file, if and only if no listed file has a name with a backslash on its way. -/
theorem scan_agrees_iff (ht : d.IsTree) {root : String} {includes excludes paths : List String}
    (hs : d.scan root includes excludes = .ok paths) :
    ∃ dir, d.directory root = .ok dir ∧
      (∀ path ∈ paths, ∃ ns text, d.Lists dir paths ns text ∧ listed ns = path) ∧
      ((paths.Nodup ∧ (∀ a : Analysis, ((a.units (d.access root) paths).map (·.path)).Nodup) ∧
          ∀ ns text, d.Lists dir paths ns text → d.Opens root (listed ns) (dir ++ ns) text) ↔
        ∀ ns text, d.Lists dir paths ns text → Portable ns) := by
  obtain ⟨dir, includes, excludes, hd, rfl⟩ := scan_eq_ok hs
  refine ⟨dir, hd, fun path hm => ?_, fun h ns text hl => ?_, fun hp => ?_⟩
  · obtain ⟨⟨ns, text, hfile, rfl⟩, -⟩ := mem_listing.mp hm
    exact ⟨ns, text, ⟨hfile, hm⟩, rfl⟩
  · exact portable_of_resolve hd (h.2.2 ns text hl).address
  · have hnodup := ht.listing_nodup (directory_eq_ok hd).2 hp
    refine ⟨hnodup, fun a => ?_, fun ns text hl => ht.opens_listed hd hl.1 (hp ns text hl)⟩
    exact (a.map_path_units_perm _ _).nodup_iff.mpr (hnodup.filter _)

theorem scan_without_patterns {root : String} {dir : Address} {paths : List String} (hd : d.directory root = .ok dir)
    (hpaths : (d.filesBelow dir).map listed = paths) (hsorted : paths.Pairwise fun a b => a ≤ b) :
    d.scan root [] [] = .ok paths := by
  have hall : paths.filter (wanted [] []) = paths := List.filter_eq_self.mpr fun _ _ => rfl
  have hlisting : d.listing dir [] [] = paths := by
    rw [listing, hpaths, hall]
    exact List.mergeSort_of_pairwise (hsorted.imp decide_eq_true)
  rw [scan, hd, ← hlisting]
  rfl

def shop : Disk :=
  ((empty ["work"]).addFile ["work", "shop", "Order.ts"] (some "one")).addFile
    ["work", "shop", "order", "Order.ts"] (some "two")

/-- Without backslashes both files are found again. -/
theorem scan_agrees_iff_shop :
    shop.IsTree ∧ shop.scan "shop/" [] [] = .ok ["Order.ts", "order/Order.ts"] ∧ ["Order.ts", "order/Order.ts"].Nodup ∧
      shop.Opens "shop/" "Order.ts" ["work", "shop", "Order.ts"] (some "one") ∧
      shop.Opens "shop/" "order/Order.ts" ["work", "shop", "order", "Order.ts"] (some "two") := by
  have ht : shop.IsTree := ⟨by decide, by decide, by decide, by decide⟩
  have hdir : shop.directory "shop/" = .ok ["work", "shop"] := by decide +kernel
  have hs : shop.scan "shop/" [] [] = .ok ["Order.ts", "order/Order.ts"] :=
    scan_without_patterns hdir (by decide) (by decide)
  obtain ⟨dir, hd, -, hiff⟩ := scan_agrees_iff ht hs
  obtain rfl : ["work", "shop"] = dir := Except.ok.inj (hdir.symm.trans hd)
  have hportable : ∀ ns text, shop.Lists ["work", "shop"] ["Order.ts", "order/Order.ts"] ns text → Portable ns := by
    rintro ns text ⟨hm, -⟩
    have hentries : shop.entries = [(["work", "shop"], .dir), (["work", "shop", "Order.ts"], .file (some "one")),
        (["work", "shop", "order"], .dir), (["work", "shop", "order", "Order.ts"], .file (some "two"))] := by decide
    simp only [hentries, List.mem_cons, Prod.mk.injEq, List.cons_append, List.nil_append, List.cons.injEq, true_and,
      reduceCtorEq, and_false, false_or, List.not_mem_nil, or_false] at hm
    rcases hm with ⟨rfl, -⟩ | ⟨rfl, -⟩
    · decide
    · decide
  obtain ⟨hnodup, -, hopens⟩ := hiff.mpr hportable
  exact ⟨ht, hs, hnodup, hopens ["Order.ts"] _ ⟨by decide, by decide⟩, hopens ["order", "Order.ts"] _ ⟨by decide, by decide⟩⟩

def twins : Disk :=
  ((empty ["work"]).addFile ["work", "a\\b.ts"] (some "one")).addFile ["work", "a", "b.ts"] (some "two")

/-- Two files can be listed under one path, on which only one of them is opened. -/
theorem scan_lists_twins_alike :
    twins.IsTree ∧ twins.scan "." [] [] = .ok ["a/b.ts", "a/b.ts"] ∧ ¬["a/b.ts", "a/b.ts"].Nodup ∧
      twins.Lists ["work"] ["a/b.ts", "a/b.ts"] ["a\\b.ts"] (some "one") ∧
      twins.readListed "." (listed ["a\\b.ts"]) = .ok "two" := by
  have ht : twins.IsTree := ⟨by decide, by decide, by decide, by decide⟩
  have hdir : twins.directory "." = .ok ["work"] := by decide +kernel
  have hs : twins.scan "." [] [] = .ok ["a/b.ts", "a/b.ts"] := scan_without_patterns hdir (by decide) (by decide)
  have hread : twins.readListed "." (listed ["a\\b.ts"]) = .ok "two" := by decide +kernel
  exact ⟨ht, hs, by decide, ⟨by decide, by decide⟩, hread⟩

end LayerLint.Disk
