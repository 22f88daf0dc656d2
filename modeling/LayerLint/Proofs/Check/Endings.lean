/-
  LayerLint.Proofs.Check.Endings: the endings of file names that the naming check looks for.

  A stem is vague if a vague ending and something before it make it up (`vague?_eq_none`). The ending of a folder is
  missing if, in small letters, it is not an end of the letters and digits of the stem (`missing?_eq_some_iff`). So a stem
  carries an ending of ASCII letters and digits wherever it ends with it (`carries_of_alphanumeric`). No other ending is
  even carried by itself (`alphanumeric_of_suffix`).
-/

import LayerLint.Check.Naming
import LayerLint.Proofs.Text.Lowercase

namespace LayerLint.Check.Naming

variable {settings : Config.Naming} {u : SourceUnit} {stem x : String}

/-! ## Vague endings -/

theorem beforeSuffix?_eq_some {suffix base : String} (h : beforeSuffix? stem suffix = some base) :
    stem = base ++ suffix ∧ base ≠ "" := by
  unfold beforeSuffix? at h
  simp only at h
  split at h
  · rename_i hends
    obtain ⟨hlength, hends⟩ := Bool.and_eq_true_iff.mp hends
    have hlength : suffix.toList.length < stem.toList.length := of_decide_eq_true hlength
    obtain ⟨front, hfront⟩ := List.isSuffixOf_iff_suffix.mp hends
    obtain rfl := Option.some.inj h
    have htake : stem.toList.take (stem.toList.length - suffix.toList.length) = front := by
      rw [← hfront, List.length_append, Nat.add_sub_cancel, List.take_left]
    rw [htake]
    refine ⟨String.toList_inj.mp (by simp [hfront]), ?_⟩
    intro hempty
    have hnil : front = [] := by simpa using congrArg String.toList hempty
    rw [← hfront, hnil, List.nil_append] at hlength
    omega
  · cases h

def Vague (settings : Config.Naming) (stem : String) : Prop :=
  ∃ entry ∈ settings.vagueSuffixes, ∃ base, base ≠ "" ∧ stem = base ++ entry.1

theorem vague?_eq_some {suffix preferred base : String} (h : vague? settings stem = some (suffix, preferred, base)) :
    (suffix, preferred) ∈ settings.vagueSuffixes ∧ stem = base ++ suffix ∧ base ≠ "" := by
  obtain ⟨entry, hentry, hfound⟩ := List.exists_of_findSome?_eq_some h
  obtain ⟨base', hbase, heq⟩ := Option.map_eq_some_iff.mp hfound
  obtain ⟨rfl, rfl, rfl⟩ : entry.1 = suffix ∧ entry.2 = preferred ∧ base' = base := by simpa using heq
  exact ⟨List.mem_mergeSort.mp hentry, beforeSuffix?_eq_some hbase⟩

theorem vague?_eq_none (h : ¬ Vague settings stem) : vague? settings stem = none := by
  refine List.findSome?_eq_none_iff.mpr fun entry hentry => ?_
  rw [Option.map_eq_none_iff]
  cases hbase : beforeSuffix? stem entry.1 with
  | none => rfl
  | some base =>
    obtain ⟨hstem, hne⟩ := beforeSuffix?_eq_some hbase
    exact absurd ⟨entry, List.mem_mergeSort.mp hentry, base, hne, hstem⟩ h

/-! ## Endings of folders -/

def required? (settings : Config.Naming) (name : String) : Option String :=
  (settings.suffixes.find? (·.1 == name)).map (·.2)

theorem exists_of_required? {name : String} (h : required? settings name = some x) :
    ∃ key, settings.suffixes.find? (·.1 == name) = some (key, x) := by
  obtain ⟨entry, hfind, rfl⟩ := Option.map_eq_some_iff.mp h
  exact ⟨entry.1, hfind⟩

theorem missing?_eq_some_iff :
    missing? settings u = some x ↔
      required? settings (folder u) = some x ∧ ¬ (Text.lowercase x).toList <:+ normalized u.stem := by
  unfold missing? required?
  cases settings.suffixes.find? (·.1 == folder u) with
  | none => simp
  | some entry =>
    by_cases hends : Text.endsWith (normalized u.stem) (Text.lowercase entry.2).toList = true
    · have hcarried := List.isSuffixOf_iff_suffix.mp hends
      simp only [if_pos hends, Option.map_some, reduceCtorEq, false_iff, Option.some.injEq]
      intro h
      obtain ⟨rfl, hno⟩ := h
      exact hno hcarried
    · have hno : ¬ (Text.lowercase entry.2).toList <:+ normalized u.stem :=
        fun hs => hends (List.isSuffixOf_iff_suffix.mpr hs)
      simp only [if_neg hends, Option.map_some, Option.some.injEq]
      constructor
      · intro h
        subst h
        exact ⟨rfl, hno⟩
      · exact fun h => h.1

/-- A stem that ends as a folder asks for, if the folder asks for anything. -/
def Carries (settings : Config.Naming) (folder stem : String) : Prop :=
  ∀ entry, settings.suffixes.find? (·.1 == folder) = some entry →
    Text.endsWith (normalized stem) (Text.lowercase entry.2).toList = true

theorem missing?_eq_none (h : Carries settings (folder u) u.stem) : missing? settings u = none := by
  rw [Option.eq_none_iff_forall_ne_some]
  intro x hx
  obtain ⟨hrequired, hno⟩ := missing?_eq_some_iff.mp hx
  obtain ⟨key, hfind⟩ := exists_of_required? hrequired
  have hends : Text.endsWith (normalized u.stem) (Text.lowercase x).toList = true := h (key, x) hfind
  exact hno (List.isSuffixOf_iff_suffix.mp hends)

/-! ## Letters and digits -/

def Alphanumeric (s : String) : Prop := ∀ c ∈ s.toList, Text.isAsciiAlphanumeric c = true

instance (s : String) : Decidable (Alphanumeric s) := inferInstanceAs (Decidable (∀ c ∈ s.toList, _))

theorem normalized_append (s t : String) : normalized (s ++ t) = normalized s ++ normalized t := by simp [normalized]

theorem isAsciiAlphanumeric_of_mem_normalized {s : String} {c : Char} (h : c ∈ normalized s) :
    Text.isAsciiAlphanumeric c = true := by
  obtain ⟨a, ha, rfl⟩ := List.mem_map.mp h
  rw [Text.isAsciiAlphanumeric_lowerAscii]
  exact (List.mem_filter.mp ha).2

theorem Alphanumeric.normalized_eq (h : Alphanumeric x) : normalized x = (Text.lowercase x).toList := by
  rw [normalized, List.filter_eq_self.mpr h, Text.lowercase, String.toList_ofList]
  exact (Text.lowerAfter_of_isAscii (fun c hc => Text.isAscii_of_isAsciiAlphanumeric (h c hc)) []).symm

/-- Lower-casing loses no character and normalizing loses those that are no letter or digit, so the one is an end of
    the other only if there are none to lose. -/
theorem alphanumeric_of_suffix (h : (Text.lowercase x).toList <:+ normalized x) : Alphanumeric x := by
  have hlower : x.toList.length ≤ (Text.lowercase x).toList.length := by
    rw [Text.lowercase, String.toList_ofList]
    exact Text.length_le_length_lowerAfter [] x.toList
  have hle := h.length_le
  rw [normalized, List.length_map] at hle
  have hfilter := List.length_filter_le Text.isAsciiAlphanumeric x.toList
  exact List.length_filter_eq_length_iff.mp (by omega)

theorem carries_of_alphanumeric {name : String} (hx : required? settings name = some x) (ha : Alphanumeric x)
    (hends : x.toList <:+ stem.toList) : Carries settings name stem := by
  intro entry hentry
  obtain ⟨key, hfind⟩ := exists_of_required? hx
  obtain rfl := Option.some.inj (hfind.symm.trans hentry)
  obtain ⟨base, hbase⟩ := hends
  have hstem : stem = String.ofList base ++ x := String.toList_inj.mp (by simp [hbase])
  rw [hstem, normalized_append, ← ha.normalized_eq]
  exact List.isSuffixOf_iff_suffix.mpr (List.suffix_append _ _)

end LayerLint.Check.Naming
