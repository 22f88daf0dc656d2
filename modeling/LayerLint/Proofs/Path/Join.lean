/-
  LayerLint.Proofs.Path.Join: specifiers act on directories.

  To follow `s/t` is to follow `s` and then `t` from there (`join?_slash`). The path in between is written
  down and taken apart again, which loses nothing: a walk only holds segments that were given to it
  (`walk_keeps`), and segments that a path can hold come back as they were (`ancestry_ofSegments`).
  A walk fails exactly where it has gone up more often than there were directories to leave
  (`walk_eq_none_iff`).
-/

import LayerLint.Path
import LayerLint.Proofs.Text.Split

namespace LayerLint.Path

/-! ## Segments -/

/-- A segment that leads down. The others stay or go up. -/
def Ordinary (seg : List Char) : Prop := seg ≠ [] ∧ seg ≠ ['.'] ∧ seg ≠ ['.', '.']

instance (seg : List Char) : Decidable (Ordinary seg) := inferInstanceAs (Decidable (_ ∧ _))

/-- A segment that comes back when a path is written down and taken apart. -/
def Part (seg : List Char) : Prop := seg ≠ [] ∧ '/' ∉ seg

def Plain (seg : List Char) : Prop := Ordinary seg ∧ '/' ∉ seg

instance (seg : List Char) : Decidable (Plain seg) := inferInstanceAs (Decidable (_ ∧ _))

theorem Plain.part {seg : List Char} (h : Plain seg) : Part seg := ⟨h.1.1, h.2⟩

def parts (path : String) : List (List Char) := if path = "" then [] else segments path

theorem slash_not_mem_iff {seg : List Char} : '/' ∉ seg ↔ ∀ a ∈ seg, isSlash a = false := Text.not_mem_iff_beq

theorem slash_not_mem_of_mem_segments {path : String} {seg : List Char} (h : seg ∈ segments path) : '/' ∉ seg :=
  slash_not_mem_iff.mpr fun _ ha => (Text.mem_of_mem_split h ha).2

theorem segments_slash (s t : String) : segments (s ++ "/" ++ t) = segments s ++ segments t := by
  have hchars : (s ++ "/" ++ t).toList = s.toList ++ '/' :: t.toList := by simp
  rw [segments, hchars, Text.split_append rfl]
  rfl

theorem segments_ofSegments {segs : List (List Char)} (hne : segs ≠ []) (h : ∀ seg ∈ segs, Part seg) :
    segments (ofSegments segs) = segs := by
  rw [segments, ofSegments, String.toList_ofList]
  exact Text.split_intercalate rfl hne fun seg hseg => slash_not_mem_iff.mp (h seg hseg).2

/-- A path is made of its segments. -/
theorem ofSegments_segments (path : String) : ofSegments (segments path) = path := by
  have hslash : ∀ c, isSlash c = true → c = '/' := fun c h => beq_iff_eq.mp h
  rw [ofSegments, segments, Text.intercalate_split hslash, String.ofList_toList]

theorem segments_ne_nil (path : String) : segments path ≠ [] := by
  obtain ⟨p, ps, hs⟩ := Text.exists_split_eq isSlash path.toList
  intro h
  rw [segments, hs] at h
  cases h

theorem parts_ofSegments {segs : List (List Char)} (h : ∀ seg ∈ segs, Part seg) : parts (ofSegments segs) = segs := by
  by_cases hne : segs = []
  · subst hne
    rfl
  · have hsegs := segments_ofSegments hne h
    unfold parts
    split
    · rename_i hempty
      rw [hempty] at hsegs
      have hnil : [] ∈ segs := by rw [← hsegs]; decide
      exact absurd rfl (h [] hnil).1
    · exact hsegs

theorem filter_segments_ofSegments {segs : List (List Char)} (h : ∀ seg ∈ segs, Part seg) :
    (segments (ofSegments segs)).filter (!·.isEmpty) = segs := by
  by_cases hne : segs = []
  · subst hne
    decide
  · rw [segments_ofSegments hne h, List.filter_eq_self]
    intro seg hseg
    simp [(h seg hseg).1]

theorem ancestry_ofSegments {dirs : List (List Char)} (h : ∀ d ∈ dirs.reverse, Part d) :
    ancestry (ofSegments dirs.reverse) = dirs := by
  rw [ancestry, filter_segments_ofSegments h, List.reverse_reverse]

theorem mem_ancestry {path : String} {d : List Char} : d ∈ ancestry path ↔ d ∈ segments path ∧ d ≠ [] := by
  simp [ancestry]

theorem part_of_mem_ancestry {path : String} {d : List Char} (h : d ∈ ancestry path) : Part d := by
  obtain ⟨hseg, hne⟩ := mem_ancestry.mp h
  exact ⟨hne, slash_not_mem_of_mem_segments hseg⟩

/-! ## Directories -/

/-- The directories of a path, outermost first. Its last segment is the file. -/
def directories (path : String) : List (List Char) := ((segments path).filter (!·.isEmpty)).dropLast

theorem directories_ofSegments {segs : List (List Char)} (h : ∀ seg ∈ segs, Part seg) :
    directories (ofSegments segs) = segs.dropLast := by
  rw [directories, filter_segments_ofSegments h]

theorem dropLast_segments_ofSegments {segs : List (List Char)} (h : ∀ seg ∈ segs, Part seg) :
    (segments (ofSegments segs)).dropLast = segs.dropLast := by
  by_cases hne : segs = []
  · subst hne
    rfl
  · rw [segments_ofSegments hne h]

section

variable {base : String} (h : ∀ seg ∈ segments base, seg ≠ [])

include h

theorem filter_segments : (segments base).filter (!·.isEmpty) = segments base := by
  rw [List.filter_eq_self]
  intro seg hseg
  simp [h seg hseg]

/-- An ending without slashes belongs to the file. -/
theorem directories_append {ending : String} (he : '/' ∉ ending.toList) :
    directories (base ++ ending) = directories base := by
  obtain ⟨front, last, hbase, hlonger⟩ := Text.split_append_plain base.toList (slash_not_mem_iff.mp he)
  have hsegs : segments base = front ++ [last] := hbase
  have hlonger : segments (base ++ ending) = front ++ [last ++ ending.toList] := by
    rw [segments, String.toList_append, hlonger]
  have hlast : last ++ ending.toList ≠ [] := by
    intro hnil
    exact h last (by simp [hsegs]) (List.append_eq_nil_iff.mp hnil).1
  have hnonempty : ∀ seg ∈ segments (base ++ ending), seg ≠ [] := by
    rw [hlonger]
    intro seg hseg
    rcases List.mem_append.mp hseg with hseg | hseg
    · exact h seg (by simp [hsegs, hseg])
    · rw [List.mem_singleton.mp hseg]
      exact hlast
  rw [directories, directories, filter_segments h, filter_segments hnonempty, hsegs, hlonger, List.dropLast_concat,
    List.dropLast_concat]

/-- All segments of a path are directories of the files in it. -/
theorem directories_slash {name : String} (hn : Part name.toList) :
    ∃ d, directories (base ++ "/" ++ name) = directories base ++ [d] := by
  have hname : segments name = [name.toList] := Text.split_eq_singleton (slash_not_mem_iff.mp hn.2)
  obtain ⟨front, last, hsegs, -⟩ := @Text.split_append_plain isSlash base.toList [] (by simp)
  have hsegs : segments base = front ++ [last] := hsegs
  refine ⟨last, ?_⟩
  rw [directories, segments_slash, List.filter_append, filter_segments h, hname, directories, filter_segments h, hsegs]
  simp [hn.1]

end

theorem dir_cases (path : String) : dir path = "" ∨ ∃ name, '/' ∉ name.toList ∧ path = dir path ++ "/" ++ name := by
  unfold dir
  split
  · rename_i front name hcut
    obtain ⟨⟨c, hc, hpath⟩, hname⟩ := Text.cutLast?_eq_some hcut
    obtain rfl : c = '/' := beq_iff_eq.mp hc
    refine .inr ⟨String.ofList name, ?_, String.toList_inj.mp ?_⟩
    · rw [String.toList_ofList]
      exact slash_not_mem_iff.mpr hname
    · simpa using hpath
  · exact .inl rfl

/-- The last segment of a path is its file, and the ones before it are its directory. -/
theorem dir_fileName_eq {path : String} {front : List (List Char)} {last : List Char}
    (h : segments path = front ++ [last]) : dir path = ofSegments front ∧ fileName path = String.ofList last := by
  have hlast : ∀ a ∈ last, isSlash a = false :=
    slash_not_mem_iff.mp (slash_not_mem_of_mem_segments (by rw [h]; simp))
  have hpath : path = ofSegments (front ++ [last]) := by rw [← h, ofSegments_segments]
  have hchars : path.toList = ['/'].intercalate (front ++ [last]) := by rw [hpath, ofSegments, String.toList_ofList]
  unfold dir fileName
  rw [hchars]
  by_cases hfront : front = []
  · subst hfront
    rw [List.nil_append, List.intercalate_singleton, Text.cutLast?_eq_none hlast]
    rw [List.nil_append, ofSegments, List.intercalate_singleton] at hpath
    exact ⟨rfl, hpath⟩
  · rw [Text.intercalate_snoc '/' hfront, Text.cutLast?_append rfl hlast]
    exact ⟨rfl, rfl⟩

theorem segments_eq_snoc (path : String) : ∃ front last, segments path = front ++ [last] :=
  ⟨_, _, (List.dropLast_concat_getLast (segments_ne_nil path)).symm⟩

theorem dir_eq (path : String) : dir path = ofSegments (segments path).dropLast := by
  obtain ⟨front, last, h⟩ := segments_eq_snoc path
  rw [(dir_fileName_eq h).1, h, List.dropLast_concat]

theorem ancestry_dir {path : String} (h : ∀ seg ∈ segments path, seg ≠ []) :
    ancestry (dir path) = (segments path).dropLast.reverse := by
  have hparts : ∀ seg ∈ (segments path).dropLast, Part seg := by
    intro seg hseg
    have hmem := List.dropLast_subset _ hseg
    exact ⟨h seg hmem, slash_not_mem_of_mem_segments hmem⟩
  rw [dir_eq, ancestry, filter_segments_ofSegments hparts]

/-- The directories above the one that a file is in are directories of the file. -/
theorem prefix_directories {path : String} {d : List Char} {dirs : List (List Char)}
    (h : ancestry (dir path) = d :: dirs) : dirs.reverse <+: directories path := by
  rcases dir_cases path with hdir | ⟨name, hname, hpath⟩
  · rw [hdir] at h
    cases h
  · have hname : segments name = [name.toList] := Text.split_eq_singleton (slash_not_mem_iff.mp hname)
    have hsegs : segments path = segments (dir path) ++ [name.toList] :=
      calc segments path = segments (dir path ++ "/" ++ name) := congrArg segments hpath
        _ = segments (dir path) ++ [name.toList] := by rw [segments_slash, hname]
    have habove : (segments (dir path)).filter (!·.isEmpty) = dirs.reverse ++ [d] := by
      rw [← List.reverse_cons, ← h, ancestry, List.reverse_reverse]
    rw [directories, hsegs, List.filter_append, habove]
    by_cases hempty : name.toList = []
    · simp [hempty]
    · simp [hempty, List.append_assoc]

/-! ## Steps -/

theorem stays_or_up_or_ordinary (seg : List Char) : (seg = [] ∨ seg = ['.']) ∨ seg = ['.', '.'] ∨ Ordinary seg := by
  unfold Ordinary
  by_cases h : seg = []
  · exact .inl (.inl h)
  by_cases h' : seg = ['.']
  · exact .inl (.inr h')
  by_cases h'' : seg = ['.', '.']
  · exact .inr (.inl h'')
  · exact .inr (.inr ⟨h, h', h''⟩)

theorem step?_of_stays {seg : List Char} (h : seg = [] ∨ seg = ['.']) (dirs : List (List Char)) :
    step? dirs seg = some dirs := by
  rcases h with rfl | rfl
  · rfl
  · rfl

theorem step?_of_ordinary {seg : List Char} (h : Ordinary seg) (dirs : List (List Char)) :
    step? dirs seg = some (seg :: dirs) := by
  obtain ⟨hempty, hdot, hup⟩ := h
  simp [step?, hempty, hdot, hup]

/-- A step stays, goes up, or goes down. -/
theorem step?_cases {dirs dirs' : List (List Char)} {seg : List Char} (h : step? dirs seg = some dirs') :
    dirs' = dirs ∨ (∃ d, dirs = d :: dirs') ∨ (Ordinary seg ∧ dirs' = seg :: dirs) := by
  rcases stays_or_up_or_ordinary seg with hs | rfl | ho
  · rw [step?_of_stays hs] at h
    exact .inl (Option.some.inj h).symm
  · cases dirs with
    | nil => cases h
    | cons d dirs =>
      obtain rfl : dirs = dirs' := Option.some.inj h
      exact .inr (.inl ⟨d, rfl⟩)
  · rw [step?_of_ordinary ho] at h
    exact .inr (.inr ⟨ho, (Option.some.inj h).symm⟩)

/-- A step adds at most one directory, at the inner end. -/
theorem tail_suffix_of_step? {dirs next : List (List Char)} {seg : List Char} (h : step? dirs seg = some next) :
    next.tail <:+ dirs := by
  rcases step?_cases h with rfl | ⟨d, rfl⟩ | ⟨-, rfl⟩
  · exact List.tail_suffix next
  · exact (List.tail_suffix next).trans (List.suffix_cons d next)
  · exact List.suffix_rfl

/-! ## Walks -/

theorem walk_cons {dirs next : List (List Char)} {seg : List Char} (h : step? dirs seg = some next)
    (segs : List (List Char)) : (seg :: segs).foldlM step? dirs = segs.foldlM step? next := by
  rw [List.foldlM_cons, h]
  rfl

theorem walk_single (dirs : List (List Char)) (seg : List Char) : [seg].foldlM step? dirs = step? dirs seg := by
  cases h : step? dirs seg with
  | none =>
    rw [List.foldlM_cons, h]
    rfl
  | some next => exact walk_cons h []

/-- What holds of the directories at the start and of the segments that lead down holds at the end. -/
theorem walk_keeps {p : List Char → Prop} {segs dirs dirs' : List (List Char)}
    (h : segs.foldlM step? dirs = some dirs') (hd : ∀ d ∈ dirs, p d) (hs : ∀ seg ∈ segs, Ordinary seg → p seg) :
    ∀ d ∈ dirs', p d := by
  induction segs generalizing dirs with
  | nil =>
    obtain rfl : dirs = dirs' := Option.some.inj h
    exact hd
  | cons seg segs ih =>
    cases hstep : step? dirs seg with
    | none =>
      rw [List.foldlM_cons, hstep] at h
      cases h
    | some next =>
      rw [walk_cons hstep] at h
      refine ih h ?_ fun other ho => hs other (List.mem_cons_of_mem seg ho)
      intro d hnext
      rcases step?_cases hstep with rfl | ⟨up, rfl⟩ | ⟨ho, rfl⟩
      · exact hd d hnext
      · exact hd d (List.mem_cons_of_mem up hnext)
      · rcases List.mem_cons.mp hnext with rfl | hnext
        · exact hs d List.mem_cons_self ho
        · exact hd d hnext

/-- A walk fails if the segments up to some point go up more often than there are directories to leave,
    counting those it went down to on its way. -/
theorem walk_eq_none_iff (segs dirs : List (List Char)) :
    segs.foldlM step? dirs = none ↔
      ∃ front, front <+: segs ∧ dirs.length + front.countP (Ordinary ·) < front.count ['.', '.'] := by
  induction segs generalizing dirs with
  | nil => simp [pure]
  | cons seg segs ih =>
    -- a front that fails is not empty, so it is the segment with a front of the rest
    have hfront : (∃ front, front <+: seg :: segs ∧ dirs.length + front.countP (Ordinary ·) < front.count ['.', '.']) ↔
        ∃ front, front <+: segs ∧
          dirs.length + (seg :: front).countP (Ordinary ·) < (seg :: front).count ['.', '.'] := by
      constructor
      · rintro ⟨front, hp, hlt⟩
        cases front with
        | nil => simp at hlt
        | cons other front =>
          obtain ⟨rfl, hrest⟩ := List.cons_prefix_cons.mp hp
          exact ⟨front, hrest, hlt⟩
      · rintro ⟨front, hp, hlt⟩
        exact ⟨seg :: front, List.cons_prefix_cons.mpr ⟨rfl, hp⟩, hlt⟩
    rw [hfront]
    rcases stays_or_up_or_ordinary seg with hs | rfl | ho
    · have hup : ¬ seg = ['.', '.'] := by rcases hs with rfl | rfl <;> decide
      have ho : ¬ Ordinary seg := by rcases hs with rfl | rfl <;> decide
      rw [walk_cons (step?_of_stays hs dirs), ih]
      simp [hup, ho]
    · have ho : ¬ Ordinary ['.', '.'] := by decide
      cases dirs with
      | nil =>
        constructor
        · intro _
          exact ⟨[], List.nil_prefix, by decide⟩
        · intro _
          rfl
      | cons d dirs =>
        have hstep : step? (d :: dirs) ['.', '.'] = some dirs := rfl
        rw [walk_cons hstep, ih]
        refine exists_congr fun front => and_congr_right fun _ => ?_
        simp only [List.countP_cons, List.count_cons, ho, List.length_cons, beq_self_eq_true, decide_false,
          Bool.false_eq_true, if_true, if_false]
        omega
    · rw [walk_cons (step?_of_ordinary ho dirs), ih]
      refine exists_congr fun front => and_congr_right fun _ => ?_
      have hup : ¬ seg = ['.', '.'] := ho.2.2
      simp only [List.countP_cons, List.count_cons, ho, List.length_cons, beq_eq_false_iff_ne.mpr hup, decide_true,
        Bool.false_eq_true, if_true, if_false]
      omega

/-! ## Joining -/

theorem join?_eq_some_iff {dir s path : String} :
    join? dir s = some path ↔
      ∃ dirs, (segments s).foldlM step? (ancestry dir) = some dirs ∧ ofSegments dirs.reverse = path :=
  Option.map_eq_some_iff

/-- A walk from the directories of a path along the segments of another holds only what a path can hold. -/
theorem part_of_walk {dir s : String} {dirs : List (List Char)}
    (h : (segments s).foldlM step? (ancestry dir) = some dirs) : ∀ d ∈ dirs.reverse, Part d := by
  have hkept := walk_keeps h (fun _ => part_of_mem_ancestry) fun _ hseg ho => ⟨ho.1, slash_not_mem_of_mem_segments hseg⟩
  intro d hd
  exact hkept d (List.mem_reverse.mp hd)

theorem join?_slash (dir s t : String) : join? dir (s ++ "/" ++ t) = (join? dir s).bind (join? · t) := by
  rw [join?, segments_slash, List.foldlM_append]
  cases h : (segments s).foldlM step? (ancestry dir) with
  | none =>
    rw [join?, h]
    rfl
  | some dirs =>
    have hjoin : join? dir s = some (ofSegments dirs.reverse) := join?_eq_some_iff.mpr ⟨dirs, h, rfl⟩
    rw [hjoin, Option.bind_some, join?, ancestry_ofSegments (part_of_walk h)]
    rfl

theorem join?_dot {dir s path : String} (h : join? dir s = some path) : join? path "." = some path := by
  obtain ⟨dirs, hwalk, rfl⟩ := join?_eq_some_iff.mp h
  have hdot : (segments ".").foldlM step? dirs = some dirs := rfl
  rw [join?, ancestry_ofSegments (part_of_walk hwalk), hdot]
  rfl

/-- A path that was joined has no empty segments, unless it is the root. -/
theorem segments_ne_nil_of_join? {dir s path : String} (h : join? dir s = some path) (hne : path ≠ "") :
    ∀ seg ∈ segments path, seg ≠ [] := by
  obtain ⟨dirs, hwalk, rfl⟩ := join?_eq_some_iff.mp h
  have hparts := part_of_walk hwalk
  rw [segments_ofSegments (fun hnil => hne (by rw [hnil]; rfl)) hparts]
  intro seg hseg
  exact (hparts seg hseg).1

/-- Joining is an action of specifiers on directories, it is undefined exactly where a specifier climbs
    above the root, and from a directory without dots it leads to a path without them. -/
theorem join?_acts (dir s t : String) :
    join? dir (s ++ "/" ++ t) = (join? dir s).bind (join? · t) ∧
      (join? dir s = none ↔
        ∃ front, front <+: segments s ∧
          (segments dir).countP (· ≠ []) + front.countP (Ordinary ·) < front.count ['.', '.']) ∧
      ((∀ seg ∈ segments dir, seg ≠ ['.'] ∧ seg ≠ ['.', '.']) →
        ∀ path, join? dir s = some path → (∀ seg ∈ parts path, Ordinary seg) ∧ join? path "." = some path) := by
  refine ⟨join?_slash dir s t, ?_, ?_⟩
  · have hlength : (segments dir).countP (· ≠ []) = (ancestry dir).length := by
      rw [ancestry, List.length_reverse, ← List.countP_eq_length_filter]
      refine List.countP_congr fun seg _ => ?_
      simp
    rw [join?, Option.map_eq_none_iff, walk_eq_none_iff, hlength]
  · intro hdir path hjoin
    refine ⟨?_, join?_dot hjoin⟩
    obtain ⟨dirs, hwalk, rfl⟩ := join?_eq_some_iff.mp hjoin
    have hordinary : ∀ d ∈ dirs, Ordinary d := by
      refine walk_keeps hwalk ?_ fun _ _ ho => ho
      intro d hd
      obtain ⟨hseg, hne⟩ := mem_ancestry.mp hd
      exact ⟨hne, hdir d hseg⟩
    rw [parts_ofSegments (part_of_walk hwalk)]
    intro seg hseg
    exact hordinary seg (List.mem_reverse.mp hseg)

/-- Slashes without names between them, and a way up past what the specifier went down to. -/
theorem join?_acts_upwards :
    (∀ seg ∈ segments "src//app/", seg ≠ ['.'] ∧ seg ≠ ['.', '.']) ∧
      join? "src//app/" "./user/../../lib//" = some "src/lib" ∧
      (∀ seg ∈ parts "src/lib", Ordinary seg) ∧ join? "src/lib" "." = some "src/lib" ∧
      join? "src//app/" "../x/../../.." = none := by
  have hdir : ∀ seg ∈ segments "src//app/", seg ≠ ['.'] ∧ seg ≠ ['.', '.'] := by decide
  have hjoin : join? "src//app/" "./user/../../lib//" = some "src/lib" := by decide
  obtain ⟨-, -, hclean⟩ := join?_acts "src//app/" "./user/../../lib//" ""
  obtain ⟨-, hnone, -⟩ := join?_acts "src//app/" "../x/../../.." ""
  exact ⟨hdir, hjoin, (hclean hdir _ hjoin).1, (hclean hdir _ hjoin).2,
    hnone.mpr ⟨segments "../x/../../..", List.prefix_rfl, by decide⟩⟩

end LayerLint.Path
