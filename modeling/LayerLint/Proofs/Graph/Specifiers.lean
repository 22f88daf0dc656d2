/-
  LayerLint.Proofs.Graph.Specifiers: every registered file can be named from every other one.

  The way from a file to a path climbs to a directory that both are in and goes down from there (`wayTo`). Whichever
  of the common directories it climbs to, it leads to the path (`join?_wayTo`), so a registered path is found. If the
  extension is left out the path is one of several that are tried, and a registered one that is tried earlier is
  found in its place (`resolve?_wayTo`).
-/

import LayerLint.Graph.Resolve
import LayerLint.Proofs.Path.Join

namespace LayerLint.Path

/-! ## Ways from a file -/

def up : Nat → String
  | 0 => ""
  | n + 1 => "../" ++ up n

def climb (n : Nat) : String := if n = 0 then "./" else up n

/-- The specifier that leads from a file up to one of the directories it is in, and from there down to a path. -/
def wayTo (file : String) (above : List (List Char)) (path : String) : String :=
  climb ((segments file).dropLast.length - above.length) ++ ofSegments ((segments path).drop above.length)

theorem segments_up (n : Nat) (s : String) : segments (up n ++ s) = .replicate n ['.', '.'] ++ segments s := by
  induction n with
  | zero => rw [up, String.empty_append]; rfl
  | succ n ih =>
    have hsplit : up (n + 1) ++ s = ".." ++ "/" ++ (up n ++ s) := by
      rw [up, String.append_assoc]
      rfl
    rw [hsplit, segments_slash, ih, List.replicate_succ]
    rfl

/-- Each step up leaves a directory. -/
theorem walk_up (left dirs : List (List Char)) :
    (List.replicate left.length ['.', '.']).foldlM step? (left ++ dirs) = some dirs := by
  induction left with
  | nil => rfl
  | cons d left ih =>
    have hstep : step? (d :: left ++ dirs) ['.', '.'] = some (left ++ dirs) := rfl
    rw [List.length_cons, List.replicate_succ, walk_cons hstep, ih]

/-- A climb leaves as many directories as it has steps, and then the rest is followed. -/
theorem walk_climb (left dirs : List (List Char)) (s : String) :
    (segments (climb left.length ++ s)).foldlM step? (left ++ dirs) = (segments s).foldlM step? dirs := by
  unfold climb
  by_cases hl : left.length = 0
  · have hstay : segments ("./" ++ s) = ['.'] :: segments s := segments_slash "." s
    rw [if_pos hl, hstay, List.length_eq_zero_iff.mp hl]
    exact walk_cons (step?_of_stays (.inr rfl) dirs) _
  · rw [if_neg hl, segments_up, List.foldlM_append, walk_up]
    rfl

/-- Ordinary segments lead down. -/
theorem walk_down {segs : List (List Char)} (h : ∀ seg ∈ segs, Ordinary seg) (dirs : List (List Char)) :
    segs.foldlM step? dirs = some (segs.reverse ++ dirs) := by
  induction segs generalizing dirs with
  | nil => rfl
  | cons seg segs ih =>
    rw [walk_cons (step?_of_ordinary (h seg (by simp)) dirs), ih fun other ho => h other (by simp [ho])]
    simp

theorem head?_wayTo (file : String) (above : List (List Char)) (path : String) :
    (wayTo file above path).toList.head? = some '.' := by
  unfold wayTo climb
  split
  · simp
  · rename_i hn
    obtain ⟨n, hn⟩ := Nat.exists_eq_succ_of_ne_zero hn
    rw [hn, up]
    simp

/-- A path leads from a file to where it is, whichever of the common directories is climbed to. -/
theorem join?_wayTo {file path : String} {above : List (List Char)} (hfile : ∀ seg ∈ segments file, Ordinary seg)
    (hpath : ∀ seg ∈ segments path, Ordinary seg) (hup : above <+: (segments file).dropLast)
    (hdown : above <+: (segments path).dropLast) : join? (dir file) (wayTo file above path) = some path := by
  obtain ⟨left, hleft⟩ := hup
  have habove : above <+: segments path := hdown.trans (List.dropLast_prefix _)
  obtain ⟨down, hsegs⟩ := habove
  have hdrop : (segments path).drop above.length = down := by rw [← hsegs, List.drop_left]
  have hne : down ≠ [] := by
    intro hnil
    have hlen := hdown.length_le
    have hpos := List.length_pos_iff.mpr (segments_ne_nil path)
    rw [hnil, List.append_nil] at hsegs
    rw [hsegs, List.length_dropLast] at hlen
    omega
  have hsub : ∀ seg ∈ down, seg ∈ segments path := by
    intro seg hseg
    rw [← hsegs]
    exact List.mem_append_right above hseg
  have hparts : ∀ seg ∈ down, Part seg :=
    fun seg hseg => ⟨(hpath seg (hsub seg hseg)).1, slash_not_mem_of_mem_segments (hsub seg hseg)⟩
  have hstart : ancestry (dir file) = left.reverse ++ above.reverse := by
    rw [ancestry_dir fun seg hseg => (hfile seg hseg).1, ← hleft, List.reverse_append]
  have hlength : (segments file).dropLast.length - above.length = left.reverse.length := by
    rw [← hleft, List.length_append, List.length_reverse]
    omega
  refine join?_eq_some_iff.mpr ⟨down.reverse ++ above.reverse, ?_, ?_⟩
  · rw [wayTo, hdrop, hlength, hstart, walk_climb, segments_ofSegments hne hparts]
    exact walk_down (fun seg hseg => hpath seg (hsub seg hseg)) _
  · rw [List.reverse_append, List.reverse_reverse, List.reverse_reverse, hsegs, ofSegments_segments]

end LayerLint.Path

namespace LayerLint.Graph

open LayerLint.Path (Ordinary segments wayTo)

theorem resolve?_of_target? {file specifier base : String} (g : Graph) (h : target? file specifier = some base)
    (hne : base ≠ "") : g.resolve? file specifier = (candidates base).find? g.contains := by
  unfold resolve?
  rw [h]
  simp [hne]

theorem slash_not_mem_extension {e : String} (he : e ∈ extensions) : '/' ∉ e.toList := by
  revert e
  decide

/-- An extension belongs to the last segment. -/
theorem segments_extension (base : String) {e : String} (he : e ∈ extensions) :
    ∃ front last, segments base = front ++ [last] ∧ segments (base ++ "." ++ e) = front ++ [last ++ ("." ++ e).toList] := by
  have hending : '/' ∉ ("." ++ e).toList := by
    have hslash := slash_not_mem_extension he
    simpa using hslash
  obtain ⟨front, last, hbase, hlonger⟩ := Text.split_append_plain base.toList (Path.slash_not_mem_iff.mp hending)
  refine ⟨front, last, hbase, ?_⟩
  rw [String.append_assoc, segments, String.toList_append, hlonger]

/-! ## Tried earlier -/

def earlier (base e : String) : List String :=
  base :: (extensions.takeWhile (· != e)).map fun other => base ++ "." ++ other

theorem candidates_split (base : String) {e : String} (he : e ∈ extensions) :
    ∃ later, candidates base = earlier base e ++ (base ++ "." ++ e) :: later := by
  have hhead : ∀ e ∈ extensions, (extensions.dropWhile (· != e)).head? = some e := by decide
  obtain ⟨rest, hrest⟩ := List.head?_eq_some_iff.mp (hhead e he)
  have hexts : extensions = extensions.takeWhile (· != e) ++ e :: rest := by
    rw [← hrest, List.takeWhile_append_dropWhile]
  refine ⟨rest.map (fun other => base ++ "." ++ other) ++ extensions.map fun other => base ++ "/index." ++ other, ?_⟩
  have hnamed : extensions.map (fun other => base ++ "." ++ other) =
      (extensions.takeWhile (· != e)).map (fun other => base ++ "." ++ other) ++
        (base ++ "." ++ e) :: rest.map fun other => base ++ "." ++ other := by
    rw [← List.map_cons, ← List.map_append, ← hexts]
  rw [candidates, hnamed, earlier]
  simp

theorem not_mem_earlier (base e : String) : base ++ "." ++ e ∉ earlier base e := by
  intro h
  rcases List.mem_cons.mp h with h | h
  · simp [String.append_assoc] at h
  · obtain ⟨other, hother, heq⟩ := List.mem_map.mp h
    obtain rfl : other = e := by simpa using heq
    simpa using List.all_eq_true.mp List.all_takeWhile other hother

/-- What is tried first is found first. -/
theorem find?_eq_self_iff {α : Type} {p : α → Bool} {front rest : List α} {x : α} (hx : p x = true) (hfront : x ∉ front) :
    (front ++ x :: rest).find? p = some x ↔ ∀ y ∈ front, p y = false := by
  rw [List.find?_append]
  cases hf : front.find? p with
  | none =>
    have hnone : ∀ y ∈ front, p y = false := by simpa using hf
    exact iff_of_true (by simp [hx]) hnone
  | some y =>
    have hy : y ∈ front := List.mem_of_find?_eq_some hf
    constructor
    · intro h
      obtain rfl : y = x := by simpa using h
      exact absurd hy hfront
    · intro h
      have hpy := List.find?_some hf
      rw [h y hy] at hpy
      cases hpy

/-! ## Registered files -/

theorem target?_wayTo {file path : String} {above : List (List Char)} (hfile : ∀ seg ∈ segments file, Ordinary seg)
    (hpath : ∀ seg ∈ segments path, Ordinary seg) (hup : above <+: (segments file).dropLast)
    (hdown : above <+: (segments path).dropLast) : target? file (wayTo file above path) = some path := by
  rw [target?, if_pos (by rw [Path.head?_wayTo]; rfl), Path.join?_wayTo hfile hpath hup hdown]

theorem ne_empty_of_ordinary {path : String} (h : ∀ seg ∈ segments path, Ordinary seg) : path ≠ "" := by
  intro hempty
  subst hempty
  exact (h [] (by decide)).1 rfl

/-- A registered file is found by each way that climbs from another one to a directory that both are in. Without
    its extension such a way still finds a registered file, and this one unless the path without an extension, or
    the one with an extension that is tried earlier, is registered too. -/
theorem resolve?_wayTo (g : Graph) {file path : String} {above : List (List Char)}
    (hfile : ∀ seg ∈ segments file, Ordinary seg) (hpath : ∀ seg ∈ segments path, Ordinary seg)
    (hup : above <+: (segments file).dropLast) (hdown : above <+: (segments path).dropLast)
    (hregistered : g.contains path = true) :
    g.resolve? file (wayTo file above path) = some path ∧
      ∀ base, ∀ e ∈ extensions, path = base ++ "." ++ e → Ordinary (Path.fileName base).toList →
        (∃ found, g.resolve? file (wayTo file above base) = some found ∧ g.contains found = true) ∧
          (g.resolve? file (wayTo file above base) = some path ↔
            g.contains base = false ∧
              ∀ other ∈ extensions.takeWhile (· != e), g.contains (base ++ "." ++ other) = false) := by
  constructor
  · rw [resolve?_of_target? g (target?_wayTo hfile hpath hup hdown) (ne_empty_of_ordinary hpath), candidates,
      List.find?_cons_of_pos hregistered]
  · intro base e he hsplit hname
    obtain ⟨front, last, hbase, hlonger⟩ := segments_extension base he
    -- the extension belongs to the last segment, so the directories are the same
    rw [← hsplit] at hlonger
    have hdirs : (segments path).dropLast = (segments base).dropLast := by
      rw [hbase, hlonger, List.dropLast_concat, List.dropLast_concat]
    have hplain : ∀ seg ∈ segments base, Ordinary seg := by
      rw [(Path.dir_fileName_eq hbase).2, String.toList_ofList] at hname
      intro seg hseg
      rw [hbase] at hseg
      rcases List.mem_append.mp hseg with hseg | hseg
      · exact hpath seg (by rw [hlonger]; exact List.mem_append_left _ hseg)
      · rw [List.mem_singleton.mp hseg]
        exact hname
    have hresolve : g.resolve? file (wayTo file above base) = (candidates base).find? g.contains :=
      resolve?_of_target? g (target?_wayTo hfile hplain hup (hdirs ▸ hdown)) (ne_empty_of_ordinary hplain)
    obtain ⟨later, hsplits⟩ := candidates_split base he
    rw [← hsplit] at hsplits
    rw [hresolve, hsplits]
    constructor
    · cases hfind : (earlier base e ++ path :: later).find? g.contains with
      | none =>
        have hnone := List.find?_eq_none.mp hfind path (by simp)
        exact absurd hregistered hnone
      | some found => exact ⟨found, rfl, List.find?_some hfind⟩
    · rw [find?_eq_self_iff hregistered (hsplit ▸ not_mem_earlier base e)]
      simp [earlier]

def neighbours : Graph :=
  ofFiles [⟨"src/app/View.tsx", "", [], [], none, 0⟩, ⟨"src/lib/user.mjs", "", [], [], none, 0⟩,
    ⟨"src/lib/user.js", "", [], [], none, 0⟩]

/-- One climb leads to the directory nearest to both, another to the root. Of two files that differ in their
    extensions the one whose extension is tried first is found, not the one that was registered first. -/
theorem resolve?_wayTo_neighbours :
    (wayTo "src/app/View.tsx" ["src".toList] "src/lib/user.js" = "../lib/user.js" ∧
        neighbours.resolve? "src/app/View.tsx" "../lib/user.js" = some "src/lib/user.js") ∧
      (wayTo "src/app/View.tsx" [] "src/lib/user" = "../../src/lib/user" ∧
        neighbours.resolve? "src/app/View.tsx" "../../src/lib/user" = some "src/lib/user.js") := by
  have hfile : ∀ seg ∈ segments "src/app/View.tsx", Ordinary seg := by decide
  have hpath : ∀ seg ∈ segments "src/lib/user.js", Ordinary seg := by decide
  have hregistered : neighbours.contains "src/lib/user.js" = true := by decide
  have hnear : wayTo "src/app/View.tsx" ["src".toList] "src/lib/user.js" = "../lib/user.js" := by decide
  have hroot : wayTo "src/app/View.tsx" [] "src/lib/user" = "../../src/lib/user" := by decide
  refine ⟨⟨hnear, ?_⟩, hroot, ?_⟩
  · rw [← hnear]
    exact (resolve?_wayTo neighbours hfile hpath (by decide) (by decide) hregistered).1
  · rw [← hroot]
    have hshort := (resolve?_wayTo neighbours hfile hpath List.nil_prefix List.nil_prefix hregistered).2
    exact (hshort "src/lib/user" "js" (by decide) rfl (by decide)).2.mpr ⟨by decide, by decide⟩

end LayerLint.Graph
