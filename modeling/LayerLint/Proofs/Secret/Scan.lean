/-
  LayerLint.Proofs.Secret.Scan: what the scanner for the known kinds of secrets reports.

  A line is reported if and only if some part of it is spelt as a secret. The kind that is told is the first one with such
  a part, and the column is the one of the leftmost such part (`scan_exact`). So what is told about a line depends only
  on where the kinds occur in it (`finding?_congr`), and a carriage return at its end is not noticed
  (`finding?_dropReturn`). That is why texts can be scanned line by line: a text that goes on behind a line end has the
  findings of its two parts, the later ones further down (`scan_append_feed`).
-/

import LayerLint.Proofs.Secret.Kinds
import LayerLint.Proofs.Text.Split

namespace LayerLint.Secret

/-! ## Lines -/

namespace Kind

variable {k : Kind} {line : List Char} {n : Nat}

def OccursAt (k : Kind) (line : List Char) (n : Nat) : Prop :=
  ∃ before word after, line = before ++ word ++ after ∧ before.length = n ∧ k.Spelt before word after

theorem occursAt_pattern_iff : k.pattern.OccursAt line n ↔ k.OccursAt line n := by
  unfold Pattern.OccursAt OccursAt
  simp only [matches_pattern_iff]

def earlier (k : Kind) : List Kind := all.takeWhile (· != k)

theorem exists_all_eq (k : Kind) : ∃ later, all = k.earlier ++ k :: later := by
  cases k <;> exact ⟨_, rfl⟩

theorem earlier_eq {front later : List Kind} (h : all = front ++ k :: later) : k.earlier = front := by
  have hnodup : (front ++ k :: later).Nodup := h ▸ (by decide : all.Nodup)
  have hfront : ∀ j ∈ front, (j != k) = true := by
    intro j hj
    refine bne_iff_ne.mpr ?_
    rintro rfl
    exact (List.nodup_append.mp hnodup).2.2 j hj j List.mem_cons_self rfl
  rw [earlier, h, List.takeWhile_append_of_pos hfront, List.takeWhile_cons_of_neg (by simp), List.append_nil]

def finding (k : Kind) (number start : Nat) : SecretFinding :=
  ⟨number, start + 1, k.name, s!"Hardcoded {k.name} detected"⟩

end Kind

/-- Of all secrets in a line, the leftmost one of the first kind that has any. -/
structure First (line : List Char) (k : Kind) (start : Nat) : Prop where
  occurs : k.OccursAt line start
  leftmost : ∀ n, k.OccursAt line n → start ≤ n
  earlier : ∀ j ∈ k.earlier, ∀ n, ¬ j.OccursAt line n

theorem place_eq_some_iff {k : Kind} {line : List Char} {n : Nat} :
    (k.pattern.find? line).map Spot.position = some n ↔ k.OccursAt line n ∧ ∀ m, k.OccursAt line m → n ≤ m := by
  simp only [Pattern.position_find?_iff, Kind.occursAt_pattern_iff]

theorem place_eq_none_iff {k : Kind} {line : List Char} :
    (k.pattern.find? line).map Spot.position = none ↔ ∀ n, ¬ k.OccursAt line n := by
  simp only [Option.map_eq_none_iff, Pattern.find?_eq_none_iff, Kind.occursAt_pattern_iff]

theorem finding?_eq (line : List Char) (number : Nat) : finding? line number =
    Kind.all.findSome? fun k => ((k.pattern.find? line).map Spot.position).map (k.finding number) := by
  rw [finding?, inLine?, kinds_eq, List.findSome?_map, List.map_findSome?]
  refine congrArg (List.findSome? · Kind.all) (funext fun k => ?_)
  simp only [Function.comp_apply, Option.map_map]
  rfl

/-- What is told about a line depends only on where the kinds occur in it. -/
theorem finding?_congr {line line' : List Char} (h : ∀ k n, Kind.OccursAt k line n ↔ Kind.OccursAt k line' n)
    (number : Nat) : finding? line number = finding? line' number := by
  rw [finding?_eq, finding?_eq]
  refine congrArg (List.findSome? · Kind.all) (funext fun k => ?_)
  have hplace : (k.pattern.find? line).map Spot.position = (k.pattern.find? line').map Spot.position := by
    refine Option.ext fun n => ?_
    simp only [place_eq_some_iff, h]
  rw [hplace]

theorem finding?_eq_some_iff {line : List Char} {number : Nat} {f : SecretFinding} :
    finding? line number = some f ↔ ∃ k start, First line k start ∧ f = k.finding number start := by
  rw [finding?_eq, List.findSome?_eq_some_iff]
  constructor
  · rintro ⟨front, k, later, hall, hfind, hnone⟩
    obtain ⟨start, hplace, rfl⟩ := Option.map_eq_some_iff.mp hfind
    obtain ⟨hoccurs, hleftmost⟩ := place_eq_some_iff.mp hplace
    refine ⟨k, start, ⟨hoccurs, hleftmost, fun j hj => ?_⟩, rfl⟩
    rw [Kind.earlier_eq hall] at hj
    exact place_eq_none_iff.mp (Option.map_eq_none_iff.mp (hnone j hj))
  · rintro ⟨k, start, ⟨hoccurs, hleftmost, hearlier⟩, rfl⟩
    obtain ⟨later, hall⟩ := k.exists_all_eq
    refine ⟨k.earlier, k, later, hall, ?_, fun j hj => ?_⟩
    · rw [place_eq_some_iff.mpr ⟨hoccurs, hleftmost⟩]
      rfl
    · rw [place_eq_none_iff.mpr (hearlier j hj)]
      rfl

theorem finding?_eq_none_iff {line : List Char} {number : Nat} :
    finding? line number = none ↔ ∀ (k : Kind) n, ¬ k.OccursAt line n := by
  rw [finding?_eq, List.findSome?_eq_none_iff]
  constructor
  · intro h k
    obtain ⟨later, hall⟩ := k.exists_all_eq
    have hmem : k ∈ Kind.all := hall ▸ List.mem_append_right _ List.mem_cons_self
    exact place_eq_none_iff.mp (Option.map_eq_none_iff.mp (h k hmem))
  · intro h k _
    rw [place_eq_none_iff.mpr (h k)]
    rfl

/-! ## Texts -/

theorem mem_scan_iff {content : String} {f : SecretFinding} :
    f ∈ scan content ↔ ∃ n line, (Text.lines content.toList)[n]? = some line ∧ finding? line (n + 1) = some f := by
  rw [scan, List.mem_filterMap]
  constructor
  · rintro ⟨⟨line, number⟩, hmem, hf⟩
    obtain ⟨hnumber, hline⟩ := List.mk_mem_zipIdx_iff_le_and_getElem?_sub.mp hmem
    refine ⟨number - 1, line, hline, ?_⟩
    rwa [Nat.sub_add_cancel hnumber]
  · rintro ⟨n, line, hline, hf⟩
    refine ⟨(line, n + 1), List.mk_mem_zipIdx_iff_le_and_getElem?_sub.mpr ⟨Nat.le_add_left 1 n, ?_⟩, hf⟩
    rwa [Nat.add_sub_cancel]

theorem line_of_finding? {line : List Char} {number : Nat} {f : SecretFinding} (h : finding? line number = some f) :
    f.line = number := by
  obtain ⟨k, start, -, rfl⟩ := finding?_eq_some_iff.mp h
  rfl

/-- The findings on a line are what is told about it. -/
theorem mem_scan_and_line_iff {content : String} {n : Nat} {line : List Char}
    (hline : (Text.lines content.toList)[n]? = some line) {f : SecretFinding} :
    f ∈ scan content ∧ f.line = n + 1 ↔ finding? line (n + 1) = some f := by
  rw [mem_scan_iff]
  constructor
  · rintro ⟨⟨m, line', hline', hf⟩, hnumber⟩
    obtain rfl : m = n := Nat.succ.inj ((line_of_finding? hf).symm.trans hnumber)
    obtain rfl : line' = line := Option.some.inj (hline'.symm.trans hline)
    exact hf
  · intro hf
    exact ⟨⟨n, line, hline, hf⟩, line_of_finding? hf⟩

/-- A line is reported exactly if a secret is in it, with the first kind of secrets in it and the leftmost place of that
    kind. -/
theorem scan_exact (content path : String) {n : Nat} {line : List Char}
    (hline : (Text.lines content.toList)[n]? = some line) :
    ∃ findings, SecretScanner.builtin content path = some findings ∧
      ((∃ f ∈ findings, f.line = n + 1) ↔ ∃ (k : Kind) (start : Nat), k.OccursAt line start) ∧
      ∀ f, (f ∈ findings ∧ f.line = n + 1) ↔ ∃ k start, First line k start ∧ f = k.finding (n + 1) start := by
  refine ⟨scan content, rfl, ?_, ?_⟩
  · simp only [mem_scan_and_line_iff hline]
    rw [← Option.isSome_iff_exists, ← Option.ne_none_iff_isSome, Ne, finding?_eq_none_iff]
    simp only [not_forall, not_not]
  · intro f
    exact (mem_scan_and_line_iff hline).trans finding?_eq_some_iff

def crowded : String := "clé = 'rot'\r\né aPI_\u212Aey: 'abcdefghij0123456789'; pwd = 'correct-horse'\n"

def crowdedLine : List Char := "é aPI_\u212Aey: 'abcdefghij0123456789'; pwd = 'correct-horse'".toList

/-- The key is told, though it has a kelvin sign in its name, and its column counts characters. -/
theorem scan_exact_crowded :
    (Text.lines crowded.toList)[1]? = some crowdedLine ∧
      scan crowded = [⟨2, 3, "API key", "Hardcoded API key detected"⟩] ∧ First crowdedLine .apiKey 2 := by
  have hline : (Text.lines crowded.toList)[1]? = some crowdedLine := by decide +kernel
  have hscan : scan crowded = [⟨2, 3, "API key", "Hardcoded API key detected"⟩] := by decide +kernel
  obtain ⟨findings, hfindings, -, htold⟩ := scan_exact crowded "a.ts" hline
  obtain rfl : scan crowded = findings := Option.some.inj hfindings
  obtain ⟨k, start, hfirst, hf⟩ := (htold _).mp ⟨hscan ▸ List.mem_singleton_self _, rfl⟩
  have hname : k.name = "API key" := (congrArg SecretFinding.kind hf).symm
  obtain rfl : k = .apiKey := by
    revert hname
    cases k <;> decide
  obtain rfl : start = 2 := (Nat.succ.inj (congrArg SecretFinding.column hf)).symm
  exact ⟨hline, hscan, hfirst⟩

/-! ## Carriage returns -/

section

variable {k : Kind} {before word after line : List Char} {n : Nat}

/-- The text has a last character, which is no carriage return. -/
def EndsInside (word : List Char) : Prop := ∃ c, word.getLast? = some c ∧ c ≠ '\r'

theorem Assigned.endsInside {Name Value : List Char → Prop} (h : Assigned Name Value word) : EndsInside word := by
  obtain ⟨name, gap, sign, gap', opening, value, closing, rfl, -, -, -, -, -, -, hclosing⟩ := h
  refine ⟨closing, List.getLast?_concat, ?_⟩
  rintro rfl
  cases hclosing

theorem endsInside_of_isWord (h : word ≠ [] ∧ ∀ c ∈ word, Text.isWord c = true) : EndsInside word := by
  refine ⟨_, List.getLast?_eq_some_getLast h.1, fun hreturn => ?_⟩
  have hword := h.2 _ (List.getLast_mem h.1)
  rw [hreturn] at hword
  cases hword

theorem Kind.Spelt.endsInside (h : k.Spelt before word after) : EndsInside word := by
  cases k with
  | apiKey => exact Assigned.endsInside h
  | password => exact Assigned.endsInside h
  | token => exact Assigned.endsInside h
  | awsAccessKey => exact endsInside_of_isWord (isWord_of_awsAccessKey word h.2)
  | awsSecretKey => exact Assigned.endsInside h
  | stripeKey => exact endsInside_of_isWord (isWord_of_stripeKey word h.2)
  | privateKey =>
    obtain ⟨algorithm, -, rfl⟩ := h
    refine ⟨'-', ?_, by decide⟩
    rw [List.getLast?_append_of_ne_nil _ (by decide)]
    decide

theorem alone_append_return : Alone before (after ++ ['\r']) ↔ Alone before after := by
  refine and_congr_right fun _ => ?_
  cases after with
  | nil =>
    have hreturn : Text.isWord '\r' = false := by decide
    simp [hreturn]
  | cons c rest => rfl

theorem spelt_append_return : k.Spelt before word (after ++ ['\r']) ↔ k.Spelt before word after := by
  cases k with
  | awsAccessKey => exact and_congr_left fun _ => alone_append_return
  | stripeKey => exact and_congr_left fun _ => alone_append_return
  | _ => rfl

/-- A carriage return at the end of a line is part of no secret and hides none. -/
theorem occursAt_append_return : k.OccursAt (line ++ ['\r']) n ↔ k.OccursAt line n := by
  constructor
  · rintro ⟨before, word, after, hline, hlen, hspelt⟩
    rcases List.eq_nil_or_concat after with rfl | ⟨rest, c, rfl⟩
    · obtain ⟨c, hlast, hc⟩ := hspelt.endsInside
      have hend := congrArg List.getLast? hline
      rw [List.getLast?_concat, List.append_nil, List.getLast?_append, hlast] at hend
      exact absurd (Option.some.inj hend).symm hc
    · rw [List.concat_eq_append] at hline hspelt
      rw [← List.append_assoc] at hline
      obtain ⟨rfl, hreturn⟩ := List.append_inj' hline rfl
      obtain rfl := List.singleton_inj.mp hreturn
      exact ⟨before, word, rest, rfl, hlen, spelt_append_return.mp hspelt⟩
  · rintro ⟨before, word, after, rfl, hlen, hspelt⟩
    exact ⟨before, word, after ++ ['\r'], List.append_assoc .., hlen, spelt_append_return.mpr hspelt⟩

theorem finding?_dropReturn (line : List Char) (number : Nat) :
    finding? (Text.dropReturn line) number = finding? line number := by
  unfold Text.dropReturn
  split
  · rename_i hreturn
    obtain ⟨front, rfl⟩ := List.getLast?_eq_some_iff.mp (beq_iff_eq.mp hreturn)
    rw [List.dropLast_concat]
    exact finding?_congr (fun _ _ => occursAt_append_return.symm) number
  · rfl

theorem finding?_nil (number : Nat) : finding? [] number = none := by
  rw [finding?_eq_none_iff]
  rintro k n ⟨before, word, after, hnil, -, hspelt⟩
  obtain ⟨c, hlast, -⟩ := hspelt.endsInside
  obtain rfl : word = [] := (List.append_eq_nil_iff.mp (List.append_eq_nil_iff.mp hnil.symm).1).2
  cases hlast

end

/-! ## Line by line -/

def findings (number : Nat) (lines : List (List Char)) : List SecretFinding :=
  (lines.zipIdx number).filterMap fun x => finding? x.1 x.2

theorem scan_eq (content : String) : scan content = findings 1 (Text.lines content.toList) := rfl

theorem findings_append (number : Nat) (lines lines' : List (List Char)) :
    findings number (lines ++ lines') = findings number lines ++ findings (number + lines.length) lines' := by
  rw [findings, List.zipIdx_append, List.filterMap_append]
  rfl

theorem findings_cons (number : Nat) (line : List Char) (lines : List (List Char)) :
    findings number (line :: lines) = (finding? line number).toList ++ findings (number + 1) lines := by
  rw [findings, List.zipIdx_cons, List.filterMap_cons]
  cases finding? line number with
  | none => rfl
  | some f => rfl

def below (lines : Nat) (f : SecretFinding) : SecretFinding := { f with line := f.line + lines }

theorem finding?_add (line : List Char) (number lines : Nat) :
    finding? line (number + lines) = (finding? line number).map (below lines) := by
  rw [finding?, finding?, Option.map_map]
  rfl

theorem findings_add (number lines : Nat) (l : List (List Char)) :
    findings (number + lines) l = (findings number l).map (below lines) := by
  induction l generalizing number with
  | nil => rfl
  | cons line l ih =>
    have hnext : number + lines + 1 = number + 1 + lines := by omega
    rw [findings_cons, findings_cons, hnext, ih, finding?_add, List.map_append, Option.toList_map]

theorem findings_map_dropReturn (number : Nat) (lines : List (List Char)) :
    findings number (lines.map Text.dropReturn) = findings number lines := by
  induction lines generalizing number with
  | nil => rfl
  | cons line lines ih => rw [List.map_cons, findings_cons, findings_cons, finding?_dropReturn, ih]

theorem findings_filter_singleton (number : Nat) (line : List Char) :
    findings number ([line].filter (!·.isEmpty)) = findings number [line] := by
  cases line with
  | cons c rest => rfl
  | nil =>
    rw [findings_cons, finding?_nil]
    rfl

/-- Carriage returns and an empty last line make no difference, so the pieces between line feeds can be looked at. -/
theorem scan_eq_findings_split (content : String) :
    scan content = findings 1 (Text.split (· == '\n') content.toList) := by
  obtain ⟨pieces, last, hsplit⟩ : ∃ pieces last, Text.split (· == '\n') content.toList = pieces ++ [last] := by
    obtain ⟨p, ps, hsplit⟩ := Text.exists_split_eq (· == '\n') content.toList
    exact ⟨_, _, hsplit.trans (List.dropLast_concat_getLast (List.cons_ne_nil p ps)).symm⟩
  have hlines : Text.lines content.toList = pieces.map Text.dropReturn ++ [last].filter (!·.isEmpty) := by
    rw [Text.lines, hsplit, List.dropLast_concat, List.getLast?_concat]
    rfl
  rw [scan_eq, hlines, hsplit, findings_append, findings_append, findings_map_dropReturn, List.length_map,
    findings_filter_singleton]

theorem length_split (sep : Text.CharSet) (s : List Char) : (Text.split sep s).length = s.countP sep + 1 := by
  induction s with
  | nil => rfl
  | cons c s ih =>
    cases hc : sep c with
    | true => rw [Text.split_cons_of_sep hc, List.length_cons, ih, List.countP_cons_of_pos hc]
    | false =>
      obtain ⟨p, ps, hsplit⟩ := Text.exists_split_eq sep s
      rw [hsplit, List.length_cons] at ih
      rw [Text.split_cons hc hsplit, List.length_cons, List.countP_cons_of_neg (Bool.eq_false_iff.mp hc), ih]

theorem scan_increasing (content : String) : (scan content).Pairwise fun f g => f.line < g.line := by
  rw [scan_eq, findings, List.pairwise_filterMap]
  have hnumbers : (((Text.lines content.toList).zipIdx 1).map Prod.snd).Pairwise (· < ·) := by
    rw [List.zipIdx_map_snd]
    exact List.pairwise_lt_range'
  refine (List.pairwise_map.mp hnumbers).imp ?_
  intro x y hlt f hf g hg
  rw [line_of_finding? hf, line_of_finding? hg]
  exact hlt

/-- Two texts with a line feed between them have the findings of the one and behind them those of the other, as many
    lines further down as the first has. So the lines of findings go up, and none is told twice. -/
theorem scan_append_feed (a b : String) :
    scan (a ++ "\n" ++ b) = scan a ++ (scan b).map (below (1 + Text.newlines a.toList)) ∧
      ∀ content, (scan content).Pairwise fun f g => f.line < g.line := by
  refine ⟨?_, scan_increasing⟩
  have htext : (a ++ "\n" ++ b).toList = a.toList ++ '\n' :: b.toList := by simp
  have hcount : (Text.split (· == '\n') a.toList).length = 1 + Text.newlines a.toList := by
    rw [length_split, Nat.add_comm]
    rfl
  calc
    scan (a ++ "\n" ++ b) = findings 1 (Text.split (· == '\n') a.toList ++ Text.split (· == '\n') b.toList) := by
      rw [scan_eq_findings_split, htext, Text.split_append (by decide)]
    _ = scan a ++ (scan b).map (below (1 + Text.newlines a.toList)) := by
      rw [findings_append, hcount, findings_add, scan_eq_findings_split, scan_eq_findings_split]

end LayerLint.Secret
