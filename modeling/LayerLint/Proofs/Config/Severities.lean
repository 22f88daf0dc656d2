/-
  LayerLint.Proofs.Config.Severities: what a table of overrides makes of the severities.

  The entries of a table are laid over the defaults one by one, so of several entries for one rule the last wins
  (`get_withOverrides`). A table has no order of its own. It needs none if no two of its keys name the same
  rule: then there is at most one entry for each rule, wherever it stands, and every order of the table gives the same
  map (`withOverrides_perm`). A key names the rule whose name it is in lower case with hyphens for low lines
  (`Rule.parse?_eq_some_iff`), so keys that differ as texts can name the same rule; keys that name none do no harm.
-/

import LayerLint.Proofs.Json.Records

namespace LayerLint

theorem Rule.ofName?_eq_some_iff {s : String} {rule : Rule} : ofName? s = some rule ↔ s = rule.name := by
  constructor
  · intro h
    have hname : (rule.name == s) = true := List.find?_some (p := fun r : Rule => r.name == s) h
    exact (beq_iff_eq.mp hname).symm
  · rintro rfl
    exact ofName?_name rule

theorem Rule.parse?_eq_some_iff {key : String} {rule : Rule} :
    parse? key = some rule ↔ hyphenated (Text.lowercase key) = rule.name :=
  ofName?_eq_some_iff

namespace SeverityMap

theorem ext_get {m m' : SeverityMap} (h : ∀ rule, m.get rule = m'.get rule) : m = m' := by
  obtain ⟨get⟩ := m
  obtain ⟨get'⟩ := m'
  exact congrArg mk (funext h)

def given (table : List (String × Severity)) (rule : Rule) : List Severity :=
  (table.filter (Rule.parse? ·.1 = some rule)).map (·.2)

/-- No two keys of a table name the same rule. -/
def Unambiguous (table : List (String × Severity)) : Prop :=
  table.Pairwise fun e e' => Rule.parse? e.1 = Rule.parse? e'.1 → Rule.parse? e.1 = none

instance (table : List (String × Severity)) : Decidable (Unambiguous table) :=
  inferInstanceAs (Decidable (List.Pairwise _ table))

variable {table order : List (String × Severity)} {e : String × Severity} {rule : Rule}

theorem given_cons_of_named (h : Rule.parse? e.1 = some rule) :
    given (e :: table) rule = e.2 :: given table rule := by
  simp [given, h]

theorem given_cons_of_not_named (h : Rule.parse? e.1 ≠ some rule) :
    given (e :: table) rule = given table rule := by
  simp [given, h]

theorem given_eq_nil (h : ∀ e ∈ table, Rule.parse? e.1 ≠ some rule) : given table rule = [] := by
  simpa [given] using h

theorem get_override_of_named (m : SeverityMap) (h : Rule.parse? e.1 = some rule) :
    (m.override e).get rule = e.2 := by
  simp [override, h, set]

theorem get_override_of_not_named (m : SeverityMap) (h : Rule.parse? e.1 ≠ some rule) :
    (m.override e).get rule = m.get rule := by
  unfold override
  cases hkey : Rule.parse? e.1 with
  | none => rfl
  | some other =>
    have hne : rule ≠ other := by
      rintro rfl
      exact h hkey
    exact if_neg hne

theorem get_foldl_override (m : SeverityMap) :
    (table.foldl override m).get rule = (given table rule).getLastD (m.get rule) := by
  induction table generalizing m with
  | nil => rfl
  | cons e table ih =>
    rw [List.foldl_cons, ih]
    by_cases h : Rule.parse? e.1 = some rule
    · rw [given_cons_of_named h, get_override_of_named m h, List.getLastD_cons]
    · rw [given_cons_of_not_named h, get_override_of_not_named m h]

/-- The last entry for a rule wins. -/
theorem get_withOverrides : (withOverrides table).get rule = (given table rule).getLastD rule.severity :=
  get_foldl_override default

theorem given_perm (h : order.Perm table) : (given order rule).Perm (given table rule) :=
  (h.filter _).map _

theorem Unambiguous.given_eq (h : Unambiguous table) (he : e ∈ table) (hkey : Rule.parse? e.1 = some rule) :
    given table rule = [e.2] := by
  induction table with
  | nil => cases he
  | cons first table ih =>
    obtain ⟨hfirst, htable⟩ := List.pairwise_cons.mp h
    rcases List.mem_cons.mp he with rfl | hmem
    · have hothers : ∀ e' ∈ table, Rule.parse? e'.1 ≠ some rule := by
        intro e' he' hkey'
        have hnone := hfirst e' he' (hkey.trans hkey'.symm)
        rw [hkey] at hnone
        cases hnone
      rw [given_cons_of_named hkey, given_eq_nil hothers]
    · have hother : Rule.parse? first.1 ≠ some rule := by
        intro hkey'
        have hnone := hfirst e hmem (hkey'.trans hkey.symm)
        rw [hkey'] at hnone
        cases hnone
      rw [given_cons_of_not_named hother, ih htable hmem]

theorem get_withOverrides_of_named (h : Unambiguous table) (hperm : order.Perm table) (he : e ∈ table)
    (hkey : Rule.parse? e.1 = some rule) : (withOverrides order).get rule = e.2 := by
  have hgiven : given order rule = [e.2] := by
    rw [← List.perm_singleton, ← h.given_eq he hkey]
    exact given_perm hperm
  rw [get_withOverrides, hgiven]
  rfl

theorem get_withOverrides_of_not_named (hperm : order.Perm table)
    (h : ∀ e ∈ table, Rule.parse? e.1 ≠ some rule) : (withOverrides order).get rule = rule.severity := by
  have hgiven : given order rule = [] := by
    rw [← List.perm_nil, ← given_eq_nil h]
    exact given_perm hperm
  rw [get_withOverrides, hgiven]
  rfl

/-- Every order of a table without two keys for one rule gives the same map: to each rule the severity of its key,
    or its own severity if it has none. -/
theorem withOverrides_perm (h : Unambiguous table) (hperm : order.Perm table) :
    withOverrides order = withOverrides table ∧
      ∀ rule,
        (∀ key severity, (key, severity) ∈ table → Rule.hyphenated (Text.lowercase key) = rule.name →
          (withOverrides order).get rule = severity) ∧
        ((∀ key severity, (key, severity) ∈ table → Rule.hyphenated (Text.lowercase key) ≠ rule.name) →
          (withOverrides order).get rule = rule.severity) := by
  refine ⟨ext_get fun rule => ?_, fun rule => ⟨?_, ?_⟩⟩
  · by_cases hnamed : ∃ e ∈ table, Rule.parse? e.1 = some rule
    · obtain ⟨e, he, hkey⟩ := hnamed
      rw [get_withOverrides_of_named h hperm he hkey, get_withOverrides_of_named h (.refl table) he hkey]
    · have hnone : ∀ e ∈ table, Rule.parse? e.1 ≠ some rule := fun e he hkey => hnamed ⟨e, he, hkey⟩
      rw [get_withOverrides_of_not_named hperm hnone, get_withOverrides_of_not_named (.refl table) hnone]
  · intro key severity he hkey
    exact get_withOverrides_of_named h hperm he (Rule.parse?_eq_some_iff.mpr hkey)
  · intro hnone
    refine get_withOverrides_of_not_named hperm fun e he hkey => ?_
    exact hnone e.1 e.2 he (Rule.parse?_eq_some_iff.mp hkey)

def spelled : List (String × Severity) :=
  [("Layer_DIRECTION", .low), ("layers", .low), ("forbidden-pac\u212Aage", .medium), ("names", .high)]

theorem withOverrides_spelled :
    Unambiguous spelled ∧ withOverrides spelled.reverse = withOverrides spelled ∧
      (withOverrides spelled.reverse).get .layerDirection = .low ∧
      (withOverrides spelled.reverse).get .forbiddenPackage = .medium ∧
      (withOverrides spelled.reverse).get .naming = Rule.naming.severity := by
  have hspelled : Unambiguous spelled := by decide +kernel
  obtain ⟨hsame, hget⟩ := withOverrides_perm hspelled spelled.reverse_perm
  refine ⟨hspelled, hsame, ?_, ?_, ?_⟩
  · exact (hget .layerDirection).1 "Layer_DIRECTION" .low (by decide) (by decide +kernel)
  · exact (hget .forbiddenPackage).1 "forbidden-pac\u212Aage" .medium (by decide) (by decide +kernel)
  · have hother : ∀ e ∈ spelled, Rule.hyphenated (Text.lowercase e.1) ≠ Rule.naming.name := by decide +kernel
    exact (hget .naming).2 fun key severity hmem => hother (key, severity) hmem

end SeverityMap

end LayerLint
