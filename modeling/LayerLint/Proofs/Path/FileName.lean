/-
  LayerLint.Proofs.Path.FileName: file names, their stems and extensions, and renamed files.

  A path is what its directory leaves, then its file name (`exists_append_fileName`), so a file can be given another
  name and stay where it is (`fileName_withFileName`, `dir_withFileName`). A name with a dot past its first character
  is a stem, a dot and an extension (`exists_named`), and no other stem and extension make up that name
  (`Named.stem_eq`, `Named.after_dot`).
-/

import LayerLint.Proofs.Path.Join

namespace LayerLint.Path

def withFileName (path name : String) : String :=
  match Text.cutLast? isSlash path.toList with
  | some (front, _) => String.ofList front ++ "/" ++ name
  | none => name

theorem slash_not_mem_fileName (path : String) : '/' ∉ (fileName path).toList := by
  obtain ⟨front, last, hsegs⟩ := segments_eq_snoc path
  rw [(dir_fileName_eq hsegs).2, String.toList_ofList]
  exact slash_not_mem_of_mem_segments (by rw [hsegs]; simp)

theorem fileName_cases (path : String) :
    fileName path = path ∨ ∃ front, path.toList = front ++ '/' :: (fileName path).toList := by
  unfold fileName
  split
  · rename_i front name hcut
    obtain ⟨⟨c, hc, hpath⟩, -⟩ := Text.cutLast?_eq_some hcut
    obtain rfl : c = '/' := beq_iff_eq.mp hc
    exact .inr ⟨front, by simp [hpath]⟩
  · exact .inl rfl

theorem exists_append_fileName (path : String) : ∃ front, path.toList = front ++ (fileName path).toList := by
  rcases fileName_cases path with hname | ⟨front, hpath⟩
  · exact ⟨[], by simp [hname]⟩
  · exact ⟨front ++ ['/'], by simp [← hpath]⟩

theorem slash_not_mem_stem (path : String) : '/' ∉ (stem path).toList := by
  have hname := slash_not_mem_fileName path
  unfold stem
  split
  · rename_i c front ext hcut
    obtain ⟨⟨dot, -, hchars⟩, -⟩ := Text.cutLast?_eq_some hcut
    rw [hchars] at hname
    rw [String.toList_ofList]
    exact fun hm => hname (List.mem_append_left _ hm)
  · exact hname

section

variable {name : String} (h : '/' ∉ name.toList) (path : String)

include h

theorem cutLast?_withFileName :
    Text.cutLast? isSlash (withFileName path name).toList =
      (Text.cutLast? isSlash path.toList).map fun parts => (parts.1, name.toList) := by
  unfold withFileName
  cases Text.cutLast? isSlash path.toList with
  | none => exact Text.cutLast?_eq_none (slash_not_mem_iff.mp h)
  | some parts =>
    have hchars : (String.ofList parts.1 ++ "/" ++ name).toList = parts.1 ++ '/' :: name.toList := by simp
    rw [hchars, Text.cutLast?_append rfl (slash_not_mem_iff.mp h)]
    rfl

theorem fileName_withFileName : fileName (withFileName path name) = name := by
  rw [fileName, cutLast?_withFileName h]
  cases hcut : Text.cutLast? isSlash path.toList with
  | none => simp [withFileName, hcut]
  | some parts => simp

theorem dir_withFileName : dir (withFileName path name) = dir path := by
  rw [dir, dir, cutLast?_withFileName h]
  cases Text.cutLast? isSlash path.toList with
  | none => rfl
  | some parts => rfl

end

/-! ## Stems and extensions -/

structure Named (path stem ext : String) : Prop where
  fileName_eq : fileName path = stem ++ "." ++ ext
  stem_ne : stem ≠ ""
  dot_not_mem : '.' ∉ ext.toList

/-- The last dot of a name is the mark of its extension, unless it is the first character. -/
theorem exists_named {path : String} (h : '.' ∈ (fileName path).toList.tail) : ∃ stem ext, Named path stem ext := by
  obtain ⟨first, rest, hname⟩ : ∃ first rest, (fileName path).toList = first :: rest := by
    cases hname : (fileName path).toList with
    | nil => rw [hname] at h; cases h
    | cons first rest => exact ⟨first, rest, rfl⟩
  rw [hname, List.tail_cons] at h
  obtain ⟨front, ext, hrest, hext⟩ := Text.exists_last_of_mem h
  refine ⟨String.ofList (first :: front), String.ofList ext, ?_, ?_, ?_⟩
  · apply String.toList_inj.mp
    rw [hname, hrest]
    simp
  · intro hempty
    have hnil := congrArg String.toList hempty
    simp at hnil
  · rw [String.toList_ofList]
    exact hext

namespace Named

variable {path stem ext : String} (h : Named path stem ext)

include h

theorem toList_fileName : (fileName path).toList = stem.toList ++ '.' :: ext.toList := by
  rw [h.fileName_eq]
  simp

theorem stem_eq : Path.stem path = stem := by
  obtain ⟨c, front, hstem⟩ : ∃ c front, stem.toList = c :: front := by
    cases hstem : stem.toList with
    | nil => exact absurd (String.toList_inj.mp hstem) h.stem_ne
    | cons c front => exact ⟨c, front, rfl⟩
  have hcut : Text.cutLast? (· == '.') (fileName path).toList = some (c :: front, ext.toList) := by
    rw [h.toList_fileName, ← hstem]
    exact Text.cutLast?_append rfl (Text.not_mem_iff_beq.mp h.dot_not_mem)
  rw [Path.stem, hcut]
  show String.ofList (c :: front) = stem
  rw [← hstem, String.ofList_toList]

/-- The extension is what follows the last dot of the whole path, too. -/
theorem after_dot : ∃ front, Text.cutLast? (· == '.') path.toList = some (front, ext.toList) := by
  obtain ⟨front, hpath⟩ := exists_append_fileName path
  refine ⟨front ++ stem.toList, ?_⟩
  rw [hpath, h.toList_fileName, ← List.append_assoc]
  exact Text.cutLast?_append rfl (Text.not_mem_iff_beq.mp h.dot_not_mem)

theorem slash_not_mem_stem : '/' ∉ stem.toList := by
  intro hm
  apply slash_not_mem_fileName path
  rw [h.toList_fileName]
  exact List.mem_append_left _ hm

theorem slash_not_mem_name {stem' : String} (hs : '/' ∉ stem'.toList) : '/' ∉ (stem' ++ "." ++ ext).toList := by
  have hchars : (stem' ++ "." ++ ext).toList = stem'.toList ++ '.' :: ext.toList := by simp
  rw [hchars]
  intro hm
  rcases List.mem_append.mp hm with hm | hm
  · exact hs hm
  · apply slash_not_mem_fileName path
    rw [h.toList_fileName]
    exact List.mem_append_right _ hm

/-- The file with another stem and the same extension. -/
theorem withStem {stem' : String} (hs : '/' ∉ stem'.toList) (hne : stem' ≠ "") :
    Named (withFileName path (stem' ++ "." ++ ext)) stem' ext where
  fileName_eq := fileName_withFileName (h.slash_not_mem_name hs) path
  stem_ne := hne
  dot_not_mem := h.dot_not_mem

end Named

end LayerLint.Path
