/-
  LayerLint.Proofs.Tally: sums of counts.

  A list is counted by a label of its entries. Where every label that occurs is counted once, the counts add up to the
  length of the list (`sum_countP_label`), or to the number of the entries that are counted at all
  (`sum_countP_and_label`). The counts of some labels add up to the number of entries with one of these
  (`sum_countP_filter_label`). Entries that count nothing may be left out of a sum (`sum_map_filter`).
-/

import LayerLint.Proofs.Sorting
import Mathlib.Algebra.GroupWithZero.Nat

namespace LayerLint.Tally

variable {α κ : Type} [DecidableEq κ] {label : α → κ} {labels : List κ}

theorem sum_countP_label (hd : labels.Nodup) (l : List α) (hin : ∀ a ∈ l, label a ∈ labels) :
    (labels.map fun k => l.countP fun a => label a = k).sum = l.length := by
  have hgroups := (Sorting.flatMap_filter_perm hd l hin).length_eq
  rw [List.length_flatMap] at hgroups
  simpa only [List.countP_eq_length_filter] using hgroups

theorem sum_countP_and_label (hd : labels.Nodup) (p : α → Bool) (l : List α) (hin : ∀ a ∈ l, label a ∈ labels) :
    (labels.map fun k => l.countP fun a => p a && decide (label a = k)).sum = l.countP p := by
  have hpicked := sum_countP_label hd (l.filter p) fun a ha => hin a (List.mem_of_mem_filter ha)
  simpa only [List.countP_filter, ← List.countP_eq_length_filter, Bool.and_comm] using hpicked

theorem sum_countP_filter_label (hd : labels.Nodup) (q : κ → Bool) (l : List α) (hin : ∀ a ∈ l, label a ∈ labels) :
    ((labels.filter q).map fun k => l.countP fun a => label a = k).sum = l.countP fun a => q (label a) := by
  have hpicked : ∀ a ∈ l.filter (fun a => q (label a)), label a ∈ labels.filter q := by
    intro a ha
    obtain ⟨ha, hq⟩ := List.mem_filter.mp ha
    exact List.mem_filter.mpr ⟨hin a ha, hq⟩
  have hcount : ∀ k ∈ labels.filter q,
      (l.filter fun a => q (label a)).countP (fun a => label a = k) = l.countP fun a => label a = k := by
    intro k hk
    rw [List.countP_filter]
    refine List.countP_congr fun a _ => ?_
    rw [Bool.and_eq_true, and_iff_left_iff_imp]
    intro ha
    rw [of_decide_eq_true ha]
    exact (List.mem_filter.mp hk).2
  have hsum := sum_countP_label (hd.filter q) (l.filter fun a => q (label a)) hpicked
  rwa [List.map_congr_left hcount, ← List.countP_eq_length_filter] at hsum

theorem sum_map_filter {p : α → Bool} {f : α → Nat} (l : List α) (h : ∀ a ∈ l, p a = false → f a = 0) :
    ((l.filter p).map f).sum = (l.map f).sum := by
  induction l with
  | nil => rfl
  | cons a l ih =>
    have hrest := ih fun b hb => h b (List.mem_cons_of_mem a hb)
    by_cases hp : p a = true
    · rw [List.filter_cons_of_pos hp, List.map_cons, List.map_cons, List.sum_cons, List.sum_cons, hrest]
    · have hzero : f a = 0 := h a List.mem_cons_self (Bool.eq_false_iff.mpr hp)
      rw [List.filter_cons_of_neg hp, List.map_cons, List.sum_cons, hzero, hrest]
      omega

end LayerLint.Tally
