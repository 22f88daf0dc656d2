/-
  LayerLint.Proofs.Disk.Tree: disks that are trees, and where paths lead on them.

  On a tree every entry has a place of its own, with directories above it, and a name that a path can
  write. So the names of an entry lead to it from any directory above it (`IsTree.foldlM_step`). A path
  that is joined to the path of a directory leads on from that directory (`resolve_join`). Whatever a walk
  adds to an address are names that it was given (`drop_of_foldlM_step`).
-/

import LayerLint.Disk.Basic
import LayerLint.Proofs.Path.Join

namespace LayerLint.Disk

/-! ## Trees -/

def IsName (name : String) : Prop := name ≠ "" ∧ name ≠ "." ∧ name ≠ ".." ∧ '/' ∉ name.toList

instance (name : String) : Decidable (IsName name) := inferInstanceAs (Decidable (_ ∧ _))

/-- The entries are the directories and files of a tree. -/
structure IsTree (d : Disk) : Prop where
  /-- No two entries are in one place. -/
  nodup : (d.entries.map (·.1)).Nodup
  names : ∀ x ∈ d.entries, ∀ name ∈ x.1, IsName name
  /-- There are directories above each entry. -/
  above : ∀ x ∈ d.entries, ∀ n < x.1.length, d.entry? (x.1.take n) = some .dir
  /-- There are only directories on the way to the working directory. -/
  cwd : ∀ x ∈ d.entries, x.1 <+: d.cwd → x.2 = .dir

variable {d : Disk}

theorem entry?_of_above {l : Address} (h : l <+: d.cwd) : d.entry? l = some .dir := by
  simp [List.isPrefixOf_iff_prefix.mpr h, entry?]

theorem IsTree.entry?_of_mem (ht : d.IsTree) {l : Address} {e : Entry} (h : (l, e) ∈ d.entries) :
    d.entry? l = some e := by
  unfold entry?
  split
  · rename_i hp
    rw [← ht.cwd _ h (List.isPrefixOf_iff_prefix.mp hp)]
  · obtain ⟨before, after, hsplit⟩ := List.append_of_mem h
    refine List.lookup_eq_some_iff.mpr ⟨before, after, hsplit, fun x hx => bne_iff_ne.mpr fun hne => ?_⟩
    have hnodup := ht.nodup
    rw [hsplit, List.map_append, List.nodup_append] at hnodup
    exact hnodup.2.2 x.1 (List.mem_map_of_mem hx) l (by simp) hne.symm

def contentOf : Option String → Except DiskError String
  | some text => .ok text
  | none => .error .notText

theorem read_of_resolve {path : String} {l : Address} {text : Option String} (hr : d.resolve path = .ok l)
    (he : d.entry? l = some (.file text)) : d.read path = contentOf text := by
  rw [read, hr]
  cases text with
  | some text => simp only [bind, Except.bind, he, contentOf]
  | none => simp only [bind, Except.bind, he, contentOf]

/-! ## Steps -/

/-- A name leads down to its entry, if there is one. -/
theorem step_name {l : Address} {name : String} (hn : IsName name) (hl : d.entry? l = some .dir) :
    d.step l name = if (d.entry? (l ++ [name])).isSome then .ok (l ++ [name]) else .error .notFound := by
  obtain ⟨hempty, hdot, hup, -⟩ := hn
  cases he : d.entry? (l ++ [name]) with
  | some e => simp [step, hl, he, hempty, hdot, hup]
  | none => simp [step, hl, he, hempty, hdot, hup]

theorem step_down {l : Address} {name : String} (hn : IsName name) (hl : d.entry? l = some .dir)
    (he : (d.entry? (l ++ [name])).isSome) : d.step l name = .ok (l ++ [name]) := by
  rw [step_name hn hl, if_pos he]

/-- A step is made from a directory. It stays, goes up, or goes down to the name, which is then none of those that do
    not go down. -/
theorem step_inv {l l' : Address} {name : String} (h : d.step l name = .ok l') :
    d.entry? l = some .dir ∧
      (l' = l ∨ l' = l.dropLast ∨ name ≠ "" ∧ name ≠ "." ∧ name ≠ ".." ∧ l' = l ++ [name]) := by
  unfold step at h
  split at h
  · rename_i hdir
    refine ⟨hdir, ?_⟩
    split at h
    · exact .inl (Except.ok.inj h).symm
    · rename_i hstay
      split at h
      · exact .inr (.inl (Except.ok.inj h).symm)
      · rename_i hup
        split at h
        · exact .inr (.inr ⟨fun he => hstay (.inl he), fun he => hstay (.inr he), hup, (Except.ok.inj h).symm⟩)
        · cases h
  · cases h
  · cases h

/-- The empty name stays. -/
theorem step_empty {l l' : Address} (h : d.step l "" = .ok l') : l' = l := by
  unfold step at h
  split at h
  · simpa using h.symm
  · cases h
  · cases h

/-! ## Walks -/

theorem foldlM_step_cons {l l' : Address} {name : String} {ns : List String} (h : d.step l name = .ok l') :
    (name :: ns).foldlM d.step l = ns.foldlM d.step l' := by
  rw [List.foldlM_cons, h]
  rfl

theorem foldlM_step_append {l l' : Address} {ns : List String} (h : ns.foldlM d.step l = .ok l') (more : List String) :
    (ns ++ more).foldlM d.step l = more.foldlM d.step l' := by
  rw [List.foldlM_append, h]
  rfl

/-- Names lead down from a directory, if only directories come before the last of them. -/
theorem foldlM_step_down {dir : Address} {ns : List String} (hn : ∀ name ∈ ns, IsName name)
    (habove : ∀ n < ns.length, d.entry? (dir ++ ns.take n) = some .dir) (he : (d.entry? (dir ++ ns)).isSome) :
    ns.foldlM d.step dir = .ok (dir ++ ns) := by
  induction ns generalizing dir with
  | nil => rw [List.append_nil]; rfl
  | cons name ns ih =>
    have hassoc : ∀ rest, dir ++ name :: rest = dir ++ [name] ++ rest := by simp
    have hdir : d.entry? dir = some .dir := by simpa using habove 0 (by simp)
    have hbelow : ∀ n < ns.length, d.entry? (dir ++ [name] ++ ns.take n) = some .dir := by
      intro n hlt
      rw [← hassoc, ← List.take_succ_cons]
      exact habove (n + 1) (by simpa using hlt)
    have hnext : (d.entry? (dir ++ [name])).isSome := by
      cases ns with
      | nil => exact he
      | cons other rest => simpa using congrArg Option.isSome (hbelow 0 (by simp))
    rw [foldlM_step_cons (step_down (hn name List.mem_cons_self) hdir hnext), hassoc ns]
    exact ih (fun other ho => hn other (List.mem_cons_of_mem name ho)) hbelow (hassoc ns ▸ he)

/-- The names of an entry lead to it from any directory above it. -/
theorem IsTree.foldlM_step (ht : d.IsTree) {dir : Address} {ns : List String} {e : Entry}
    (h : (dir ++ ns, e) ∈ d.entries) : ns.foldlM d.step dir = .ok (dir ++ ns) := by
  refine foldlM_step_down (fun name hname => ht.names _ h name (List.mem_append_right dir hname)) ?_ ?_
  · intro n hn
    rw [← List.take_length_add_append]
    exact ht.above _ h _ (by rw [List.length_append]; omega)
  · rw [ht.entry?_of_mem h]
    rfl

/-- The names that a walk adds to an address are among those it takes. -/
theorem drop_of_foldlM_step {l l' : Address} {ns : List String} (h : ns.foldlM d.step l = .ok l') {n : Nat}
    {p : String → Prop} (hl : ∀ name ∈ l.drop n, p name) (hns : ∀ name ∈ ns, p name) : ∀ name ∈ l'.drop n, p name := by
  induction ns generalizing l with
  | nil =>
    obtain rfl : l = l' := Except.ok.inj h
    exact hl
  | cons name ns ih =>
    cases hs : d.step l name with
    | error e =>
      rw [List.foldlM_cons, hs] at h
      cases h
    | ok next =>
      rw [foldlM_step_cons hs] at h
      refine ih h ?_ fun other ho => hns other (List.mem_cons_of_mem name ho)
      intro other ho
      obtain ⟨-, rfl | rfl | ⟨-, -, -, rfl⟩⟩ := step_inv hs
      · exact hl other ho
      · rw [List.dropLast_eq_take, List.drop_take] at ho
        exact hl other (List.mem_of_mem_take ho)
      · rw [List.drop_append] at ho
        rcases List.mem_append.mp ho with ho | ho
        · exact hl other ho
        · obtain rfl : other = name := by simpa using List.mem_of_mem_drop ho
          exact hns other List.mem_cons_self

/-! ## Joined paths -/

theorem names_slash (s t : String) : names (s ++ "/" ++ t) = names s ++ names t := by
  rw [names, names, names, Path.segments_slash, List.map_append]

theorem names_empty : names "" = [""] := by decide

theorem names_name {name : String} (hn : IsName name) : names name = [name] := by
  rw [names, Path.segments, Text.split_eq_singleton (Path.slash_not_mem_iff.mp hn.2.2.2), List.map_singleton,
    String.ofList_toList]

theorem IsName.startsWith {name : String} (hn : IsName name) : name.startsWith "/" = false := by
  rw [Bool.eq_false_iff]
  intro h
  obtain ⟨rest, hrest⟩ := String.startsWith_string_iff.mp h
  exact hn.2.2.2 (hrest ▸ List.mem_cons_self)

theorem names_of_startsWith {path : String} (h : path.startsWith "/" = true) : ∃ ns, names path = "" :: ns := by
  obtain ⟨rest, hrest⟩ := String.startsWith_string_iff.mp h
  refine ⟨(Text.split Path.isSlash rest).map String.ofList, ?_⟩
  rw [names, Path.segments, ← hrest]
  exact congrArg (List.map String.ofList) (Text.split_cons_of_sep rfl rest)

theorem exists_of_endsWith {root : String} (h : root.endsWith "/" = true) : ∃ above, root = above ++ "/" := by
  rw [String.endsWith_eq_endsWith_toSlice, String.Slice.endsWith_string_iff, String.copy_toSlice] at h
  obtain ⟨above, habove⟩ := h
  refine ⟨String.ofList above, String.toList_inj.mp ?_⟩
  simp [← habove]

theorem start_append {root : String} (hr : root ≠ "") (rest : String) : d.start (root ++ rest) = d.start root := by
  obtain ⟨c, cs, hc⟩ : ∃ c cs, root.toList = c :: cs := by
    cases hl : root.toList with
    | nil => exact absurd (String.toList_eq_nil_iff.mp hl) hr
    | cons c cs => exact ⟨c, cs, rfl⟩
  have hsame : (root ++ rest).startsWith "/" = root.startsWith "/" := by
    rw [Bool.eq_iff_iff, String.startsWith_string_iff, String.startsWith_string_iff, String.toList_append, hc]
    simp
  rw [start, start, hsame]

/-- A path that is joined to the path of a directory leads on from there. -/
theorem resolve_join {root path : String} {dir : Address} (hr : d.resolve root = .ok dir)
    (hp : path.startsWith "/" = false) : d.resolve (join root path) = (names path).foldlM d.step dir := by
  unfold resolve at hr
  split at hr
  · cases hr
  rename_i hne
  -- the walk of the joined path is one to the directory and then that of the path
  have hwalk : ∀ {s : String}, (names s).foldlM d.step (d.start root) = .ok dir →
      d.start (s ++ "/" ++ path) = d.start root → d.resolve (s ++ "/" ++ path) = (names path).foldlM d.step dir := by
    intro s hdir hstart
    rw [resolve, if_neg (by simp), hstart, names_slash, foldlM_step_append hdir]
  unfold join
  simp only [hp, hne, decide_false, Bool.or_false, Bool.false_eq_true, if_false]
  split
  · rename_i hslash
    obtain ⟨above, rfl⟩ := exists_of_endsWith hslash
    refine hwalk ?_ (start_append hne path)
    have hempty : names (above ++ "/") = names above ++ [""] := by
      simpa [names_empty] using names_slash above ""
    cases hl : (names above).foldlM d.step (d.start (above ++ "/")) with
    | error e =>
      rw [hempty, List.foldlM_append, hl] at hr
      cases hr
    | ok l =>
      rw [hempty, foldlM_step_append hl] at hr
      simp only [List.foldlM_cons, List.foldlM_nil, bind_pure] at hr
      rw [step_empty hr]
  · refine hwalk hr ?_
    rw [String.append_assoc]
    exact start_append hne _

/-- A name that is joined to the path of a directory leads to its entry there, if there is one. -/
theorem resolve_join_name {root name : String} {dir : Address} (hr : d.resolve root = .ok dir)
    (hd : d.entry? dir = some .dir) (hn : IsName name) :
    d.resolve (join root name) =
      if (d.entry? (dir ++ [name])).isSome then .ok (dir ++ [name]) else .error .notFound := by
  rw [resolve_join hr hn.startsWith, names_name hn, List.foldlM_cons, step_name hn hd]
  split
  · rfl
  · rfl

end LayerLint.Disk
