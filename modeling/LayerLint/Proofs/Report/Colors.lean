/-
  LayerLint.Proofs.Report.Colors: colours only add escape sequences.

  `Text.uncolored` deletes the escape sequences of a text from left to right. A sequence starts with an escape
  character, so a text without one stays as it is (`withoutEscapes_append`), and each span of a styled text gives back
  its own text (`withoutEscapes_colored`). The spans of a report take their texts from fixed words, numbers and the
  strings of its violations. If none of these has an escape character, no span has one (`unescaped_text`), and the
  coloured report without its sequences is the plain one (`uncolored_render`).
-/

import LayerLint.Proofs.Report.Listing
import LayerLint.Proofs.Text.Split

namespace LayerLint

/-! ## Deleting escape sequences -/

namespace Text

def isCode (c : Char) : Bool := isAsciiDigit c || c == ';'

/-- What stands behind the escape sequence that a text starts with. -/
def behindEscape? : List Char → Option (List Char)
  | '\x1b' :: '[' :: rest =>
    match rest.dropWhile isCode with
    | 'm' :: after => some after
    | _ => none
  | _ => none

theorem length_behindEscape? {text after : List Char} (h : behindEscape? text = some after) :
    after.length < text.length := by
  unfold behindEscape? at h
  split at h
  · rename_i rest
    have hle := (List.dropWhile_sublist (l := rest) isCode).length_le
    split at h
    · rename_i tail hdrop
      obtain rfl := Option.some.inj h
      rw [hdrop] at hle
      simp only [List.length_cons] at hle ⊢
      omega
    · cases h
  · cases h

def withoutEscapes : List Char → List Char
  | [] => []
  | c :: rest =>
    match _h : behindEscape? (c :: rest) with
    | some after => withoutEscapes after
    | none => c :: withoutEscapes rest
termination_by text => text.length
decreasing_by
  · exact length_behindEscape? _h
  · exact Nat.lt_succ_self _

def uncolored (s : String) : String := String.ofList (withoutEscapes s.toList)

theorem behindEscape?_sequence {codes : List Char} (h : ∀ c ∈ codes, isCode c = true) (rest : List Char) :
    behindEscape? ('\x1b' :: '[' :: (codes ++ 'm' :: rest)) = some rest := by
  have hdrop : (codes ++ 'm' :: rest).dropWhile isCode = 'm' :: rest := by
    rw [List.dropWhile_append_of_pos h, List.dropWhile_cons_of_neg (by decide)]
  simp only [behindEscape?, hdrop]

theorem behindEscape?_eq_none {c : Char} (h : c ≠ '\x1b') (rest : List Char) : behindEscape? (c :: rest) = none := by
  unfold behindEscape?
  split
  · rename_i heq
    exact absurd (List.cons.inj heq).1 h
  · rfl

theorem withoutEscapes_sequence {codes : List Char} (h : ∀ c ∈ codes, isCode c = true) (rest : List Char) :
    withoutEscapes ('\x1b' :: '[' :: (codes ++ 'm' :: rest)) = withoutEscapes rest := by
  rw [withoutEscapes]
  split
  · rename_i after hafter
    rw [behindEscape?_sequence h] at hafter
    rw [Option.some.inj hafter]
  · rename_i hnone
    rw [behindEscape?_sequence h] at hnone
    cases hnone

theorem withoutEscapes_cons {c : Char} (h : c ≠ '\x1b') (rest : List Char) :
    withoutEscapes (c :: rest) = c :: withoutEscapes rest := by
  rw [withoutEscapes]
  split
  · rename_i after hafter
    rw [behindEscape?_eq_none h] at hafter
    cases hafter
  · rfl

/-- Characters that open no sequence stay, whatever comes behind them. -/
theorem withoutEscapes_append {text : List Char} (h : '\x1b' ∉ text) (rest : List Char) :
    withoutEscapes (text ++ rest) = text ++ withoutEscapes rest := by
  induction text with
  | nil => rfl
  | cons c text ih =>
    rw [List.mem_cons, not_or] at h
    rw [List.cons_append, withoutEscapes_cons (Ne.symm h.1), ih h.2, List.cons_append]

end Text

/-! ## Styled texts -/

/-- A text in which no sequence can start. -/
def Unescaped (s : String) : Prop := '\x1b' ∉ s.toList

instance (s : String) : Decidable (Unescaped s) := inferInstanceAs (Decidable (_ ∉ _))

@[simp] theorem unescaped_append {s t : String} : Unescaped (s ++ t) ↔ Unescaped s ∧ Unescaped t := by
  simp [Unescaped, String.toList_append, not_or]

/-- Of the texts that are put into another one. -/
@[simp] theorem unescaped_toString {s : String} : Unescaped (toString s) ↔ Unescaped s := Iff.rfl

@[simp] theorem unescaped_repr (n : Nat) : Unescaped n.repr := by
  intro h
  rw [Nat.toList_repr] at h
  cases Nat.isDigit_of_mem_toDigits (by decide) (by decide) h

theorem isCode_of_mem_codes (style : Style) : ∀ c ∈ style.codes.toList, Text.isCode c = true := by
  cases style with
  | plain => decide
  | bold => decide
  | dimmed => decide
  | colored c => cases c <;> decide
  | boldColored c => cases c <;> decide

/-- A span is its text, between two sequences if it has a style. -/
theorem toList_colored (s : Span) :
    s.colored.toList = s.text.toList ∨
      s.colored.toList =
        '\x1b' :: '[' :: (s.style.codes.toList ++ 'm' :: (s.text.toList ++ '\x1b' :: '[' :: (['0'] ++ ['m']))) := by
  unfold Span.colored
  split
  · exact .inl rfl
  · exact .inr (by simp)

theorem withoutEscapes_colored {s : Span} (h : Unescaped s.text) (rest : List Char) :
    Text.withoutEscapes (s.colored.toList ++ rest) = s.text.toList ++ Text.withoutEscapes rest := by
  rcases toList_colored s with hs | hs
  · rw [hs, Text.withoutEscapes_append h]
  · have hreset : ∀ c ∈ ['0'], Text.isCode c = true := by decide
    simp only [hs, List.cons_append, List.append_assoc]
    rw [Text.withoutEscapes_sequence (isCode_of_mem_codes s.style), Text.withoutEscapes_append h]
    exact congrArg _ (Text.withoutEscapes_sequence hreset rest)

namespace Styled

def Unescaped (t : Styled) : Prop := ∀ s ∈ t, LayerLint.Unescaped s.text

theorem uncolored_render {t : Styled} (h : t.Unescaped) : Text.uncolored (t.render true) = t.render false := by
  have hspans : Text.withoutEscapes (t.render true).toList = (t.render false).toList := by
    induction t with
    | nil => simp [render, Text.withoutEscapes]
    | cons s t ih =>
      have hrest := ih fun s' hs' => h s' (List.mem_cons_of_mem s hs')
      have hcons : ∀ color, (render color (s :: t)).toList = (s.render color).toList ++ (render color t).toList := by
        intro color
        rw [render, List.map_cons, String.join_cons, String.toList_append]
        rfl
      rw [hcons true, hcons false, ← hrest]
      exact withoutEscapes_colored (h s List.mem_cons_self) _
  rw [Text.uncolored, hspans, String.ofList_toList]

@[simp] theorem unescaped_nil : Unescaped [] := fun _ h => absurd h List.not_mem_nil

@[simp] theorem unescaped_cons {s : Span} {t : Styled} :
    Unescaped (s :: t) ↔ LayerLint.Unescaped s.text ∧ t.Unescaped :=
  List.forall_mem_cons

theorem Unescaped.append {t u : Styled} (ht : t.Unescaped) (hu : u.Unescaped) : Styled.Unescaped (t ++ u) :=
  List.forall_mem_append.mpr ⟨ht, hu⟩

theorem unescaped_flatMap {α : Type} {l : List α} {f : α → Styled} (h : ∀ a ∈ l, (f a).Unescaped) :
    Styled.Unescaped (l.flatMap f) := by
  intro s hs
  obtain ⟨a, ha, hs⟩ := List.mem_flatMap.mp hs
  exact h a ha s hs

end Styled

/-! ## Reports -/

@[simp] theorem unescaped_fixed (x : Binary64) (places : Nat) : Unescaped (x.fixed places) := by
  have hdigits : ∀ n, '\x1b' ∉ Nat.toDigits 10 n := by
    intro n
    rw [← Nat.toList_repr]
    exact unescaped_repr n
  simp [Unescaped, Binary64.fixed, hdigits]

@[simp] theorem unescaped_layer (l : Layer) : Unescaped l.name := by cases l <;> decide

@[simp] theorem unescaped_severity (s : Severity) : Unescaped s.name := by cases s <;> decide

def Finding.strings : Finding → List String
  | layerDirection _ _ specifier => [specifier]
  | circularDependency cycle => cycle
  | aggregateBoundary importing imported specifier => [importing, imported, specifier]
  | naming actual suggested => [actual, suggested]
  | forbiddenPackage package _ => [package]
  | hardcodedSecret kind _ => [kind]

def Violation.strings (v : Violation) : List String :=
  v.finding.strings ++ [v.location.file, v.message] ++ v.suggestion.toList

namespace Report

theorem unescaped_detail {f : Finding} (h : ∀ s ∈ f.strings, Unescaped s) : Unescaped (detail f) := by
  cases f with
  | layerDirection importing imported specifier => simp +decide [detail]
  | circularDependency cycle => simp +decide [detail]
  | aggregateBoundary importing imported specifier =>
    have himporting := h importing (by simp [Finding.strings])
    have himported := h imported (by simp [Finding.strings])
    simp +decide [detail, himporting, himported]
  | naming actual suggested =>
    have hsuggested := h suggested (by simp [Finding.strings])
    simp +decide [detail, hsuggested]
  | forbiddenPackage package layer => exact h package (by simp [Finding.strings])
  | hardcodedSecret kind column =>
    have hkind := h kind (by simp [Finding.strings])
    simp +decide [detail, hkind]

theorem unescaped_location {l : Location} (h : Unescaped l.file) : Unescaped l.text := by
  unfold Location.text
  cases l.line with
  | some n => simp +decide [h]
  | none => exact h

theorem unescaped_severityLabel (s : Severity) : Unescaped (severityLabel s).text := by cases s <;> decide

theorem unescaped_violationText {v : Violation} (h : ∀ s ∈ v.strings, Unescaped s) : (violationText v).Unescaped := by
  have hdetail : Unescaped (detail v.finding) := unescaped_detail fun s hs => h s (by simp [Violation.strings, hs])
  have hlocation : Unescaped v.location.text := unescaped_location (h _ (by simp [Violation.strings]))
  have hmessage : Unescaped v.message := h _ (by simp [Violation.strings])
  unfold violationText
  refine Styled.Unescaped.append ?_ ?_
  · simp +decide [unescaped_severityLabel, hdetail, hlocation, hmessage]
  · cases hs : v.suggestion with
    | some s =>
      have hsuggestion : Unescaped s := h s (by simp [Violation.strings, hs])
      simp +decide [hsuggestion]
    | none => exact Styled.unescaped_nil

theorem unescaped_moreText (o : TextOptions) (violations : List Violation) : (moreText o violations).Unescaped := by
  unfold moreText
  split
  · exact Styled.unescaped_nil
  · simp +decide

theorem shown_sublist (o : TextOptions) (violations : List Violation) : (shown o violations).Sublist violations := by
  have hvisible : (visible o violations).Sublist violations := by
    rw [visible_eq_filter]
    exact List.filter_sublist
  unfold shown
  cases o.limit with
  | some n => exact (List.take_sublist n _).trans hvisible
  | none => exact hvisible

theorem unescaped_ruleText (o : TextOptions) (rule : Rule) {violations : List Violation}
    (h : ∀ v ∈ violations, ∀ s ∈ v.strings, Unescaped s) : (ruleText o rule violations).Unescaped := by
  have htitle : Unescaped (title rule) := by cases rule <;> decide
  unfold ruleText
  split
  · exact Styled.unescaped_nil
  · refine .append (.append ?_ (Styled.unescaped_flatMap fun v hv => ?_)) (unescaped_moreText o violations)
    · simp +decide [htitle]
    · exact unescaped_violationText (h v ((shown_sublist o violations).subset hv))

theorem unescaped_summaryText (r : Report) : r.summaryText.Unescaped := by
  have hlayers : ∀ e ∈ r.metrics.fileCounts, Unescaped e.1 := by
    simp +decide [ProjectMetrics.fileCounts]
  unfold summaryText
  refine .append (.append ?_ (Styled.unescaped_flatMap fun e he => ?_)) ?_
  · simp +decide
  · simp +decide [Styled.plain, hlayers e he]
  · simp +decide

theorem unescaped_totalsText (r : Report) : r.totalsText.Unescaped := by
  simp +decide [totalsText, Severity.all]

variable {r : Report} (h : ∀ v ∈ r.all, ∀ s ∈ v.strings, Unescaped s)

include h

theorem unescaped_text (o : TextOptions) : (r.text o).Unescaped := by
  unfold text
  refine r.unescaped_summaryText.append ?_
  split
  · simp +decide
  · refine .append (.append r.unescaped_totalsText (Styled.unescaped_flatMap fun rule _ => ?_)) ?_
    · exact unescaped_ruleText o rule fun v hv => h v (mem_all.mpr ⟨rule, hv⟩)
    · simp +decide [Styled.plain]

theorem unescaped_checkText (failOn : Severity) : (r.checkText failOn).Unescaped := by
  unfold checkText judgeText
  refine (unescaped_text h .default).append ?_
  split
  · simp +decide
  · simp +decide

omit h

/-- Colours only add escape sequences to a report and to the outcome of a check. Only the violations bring texts of
    their own into them, so it is enough that these have no escape character. -/
theorem text_uncolored (r : Report) (h : ∀ v ∈ r.all, ∀ s ∈ v.strings, '\x1b' ∉ s.toList) (o : TextOptions)
    (failOn : Severity) :
    Text.uncolored ((r.text o).render true) = (r.text o).render false ∧
      Text.uncolored ((r.checkText failOn).render true) = (r.checkText failOn).render false :=
  ⟨Styled.uncolored_render (unescaped_text h o), Styled.uncolored_render (unescaped_checkText h failOn)⟩

def bracketed : Report where
  units := []
  graph := .empty
  violations := .ofFn fun rule =>
    if rule = .naming then [⟨.naming, .naming "[1m.ts" "[0m.ts", .low, ⟨"[1m.ts", some 3⟩, "[0m", some "[31m"⟩] else []
  metrics := .ofUnits []
  graphMetrics := Graph.empty.metrics

theorem text_uncolored_bracketed :
    (∀ v ∈ bracketed.all, ∀ s ∈ v.strings, '\x1b' ∉ s.toList) ∧
      '\x1b' ∈ ((bracketed.text .default).render true).toList ∧
      Text.uncolored ((bracketed.text .default).render true) = (bracketed.text .default).render false ∧
      Text.uncolored ((bracketed.checkText .low).render true) = (bracketed.checkText .low).render false := by
  have h : ∀ v ∈ bracketed.all, ∀ s ∈ v.strings, '\x1b' ∉ s.toList := by decide
  have hcolored : '\x1b' ∈ ((bracketed.text .default).render true).toList := by
    simp [text, summaryText, Styled.render, Span.render, Span.colored]
  exact ⟨h, hcolored, text_uncolored bracketed h .default .low⟩

end Report

end LayerLint
