/-
  LayerLint.Proofs.Sorting: sorting by a number, which keeps the order of equals, and lists as their groups.

  Reports and extractors sort by a number that several entries may share. Entries that share it keep their order
  (`filter_mergeSort`), and lists in order are known by what they hold of each number (`eq_of_filter_eq`). What has a
  property that only the first entries have is the beginning of the list (`filter_eq_take`). A list can be taken apart by
  any label: all its groups together hold its entries and no others (`flatMap_filter_perm`), and of a list that is in
  order already, the groups one behind the other are the list (`eq_flatMap_filter`).
-/

import Mathlib.Data.List.Perm.Basic
import Mathlib.Data.List.Sort

namespace LayerLint.Sorting

variable {α : Type}

/-! ## Sorting by a number -/

section

variable {key : α → Nat}

theorem key_le_trans (a b c : α) (hab : decide (key a ≤ key b) = true) (hbc : decide (key b ≤ key c) = true) :
    decide (key a ≤ key c) = true := by
  simp only [decide_eq_true_eq] at hab hbc ⊢
  omega

theorem key_le_total (a b : α) : (decide (key a ≤ key b) || decide (key b ≤ key a)) = true := by
  simp only [Bool.or_eq_true, decide_eq_true_eq]
  omega

variable (key)

theorem pairwise_mergeSort (l : List α) :
    (l.mergeSort fun a b => decide (key a ≤ key b)).Pairwise fun a b => key a ≤ key b :=
  (List.pairwise_mergeSort key_le_trans key_le_total l).imp fun h => of_decide_eq_true h

/-- Entries of one number keep their order. -/
theorem filter_mergeSort {p : α → Bool} (hp : ∀ a b, p a = true → p b = true → key a ≤ key b) (l : List α) :
    (l.mergeSort fun a b => decide (key a ≤ key b)).filter p = l.filter p := by
  have hsame : (l.filter p).Pairwise fun a b => decide (key a ≤ key b) = true := by
    apply List.pairwise_of_forall_mem_list
    intro a ha b hb
    exact decide_eq_true (hp a b (List.mem_filter.mp ha).2 (List.mem_filter.mp hb).2)
  have hsub : (l.filter p).Sublist ((l.mergeSort fun a b => decide (key a ≤ key b)).filter p) := by
    have hkept : (l.filter p).Sublist (l.mergeSort fun a b => decide (key a ≤ key b)) :=
      List.sublist_mergeSort key_le_trans key_le_total hsame List.filter_sublist
    simpa only [List.filter_filter, Bool.and_self] using hkept.filter p
  have hlength : (l.filter p).length = ((l.mergeSort fun a b => decide (key a ≤ key b)).filter p).length :=
    ((List.mergeSort_perm l _).filter _).length_eq.symm
  exact (hsub.eq_of_length hlength).symm

variable {key}

theorem mem_iff_of_filter_eq {l r : List α} (h : ∀ n, (l.filter fun a => key a == n) = r.filter fun a => key a == n)
    (a : α) : a ∈ l ↔ a ∈ r := by
  have ha : a ∈ (l.filter fun b => key b == key a) ↔ a ∈ r.filter fun b => key b == key a := by rw [h (key a)]
  simpa using ha

theorem le_of_mem_sorted {a b : α} {t : List α} (ht : (b :: t).Pairwise fun a b => key a ≤ key b) (ha : a ∈ b :: t) :
    key b ≤ key a := by
  rcases List.mem_cons.mp ha with rfl | ha
  · exact Nat.le_refl _
  · exact (List.pairwise_cons.mp ht).1 a ha

/-- Lists in order are known by what they hold of each number. -/
theorem eq_of_filter_eq {l r : List α} (hl : l.Pairwise fun a b => key a ≤ key b)
    (hr : r.Pairwise fun a b => key a ≤ key b)
    (h : ∀ n, (l.filter fun a => key a == n) = r.filter fun a => key a == n) : l = r := by
  induction l generalizing r with
  | nil =>
    rw [eq_comm, List.eq_nil_iff_forall_not_mem]
    exact fun p hp => absurd ((mem_iff_of_filter_eq h p).mpr hp) List.not_mem_nil
  | cons a l ih =>
    cases r with
    | nil => exact absurd ((mem_iff_of_filter_eq h a).mp List.mem_cons_self) List.not_mem_nil
    | cons b r =>
      -- both start with the first number there is, and with the first entry of that number
      have hnumber : key b = key a := by
        have hba := le_of_mem_sorted hr ((mem_iff_of_filter_eq h a).mp List.mem_cons_self)
        have hab := le_of_mem_sorted hl ((mem_iff_of_filter_eq h b).mpr List.mem_cons_self)
        omega
      have hhere := h (key a)
      rw [List.filter_cons_of_pos (by simp), List.filter_cons_of_pos (by simpa using hnumber)] at hhere
      obtain ⟨rfl, hrest⟩ := List.cons.inj hhere
      refine congrArg (a :: ·) (ih hl.of_cons hr.of_cons fun n => ?_)
      by_cases hn : key a = n
      · rw [← hn]
        exact hrest
      · have hother := h n
        rwa [List.filter_cons_of_neg (by simpa using hn), List.filter_cons_of_neg (by simpa using hn)] at hother

end

/-- Where a property only ever holds of the first entries, those that have it are the first so many. -/
theorem filter_eq_take {p : α → Bool} {l : List α} (h : l.Pairwise fun a b => p b = true → p a = true) :
    l.filter p = l.take (l.countP p) := by
  induction l with
  | nil => rfl
  | cons a l ih =>
    obtain ⟨ha, hl⟩ := List.pairwise_cons.mp h
    by_cases hp : p a = true
    · rw [List.filter_cons_of_pos hp, List.countP_cons_of_pos hp, List.take_succ_cons, ih hl]
    · have hnone : ∀ b ∈ l, ¬ p b = true := fun b hb hpb => hp (ha b hb hpb)
      rw [List.filter_cons_of_neg hp, List.countP_cons_of_neg hp, List.countP_eq_zero.mpr hnone, List.take_zero,
        List.filter_eq_nil_iff.mpr hnone]

/-! ## Groups -/

variable {κ : Type} [DecidableEq κ] {label : α → κ} {labels : List κ}

/-- A new entry at the front goes to the front of its group. -/
theorem exists_flatMap_filter_cons (hd : labels.Nodup) {a : α} (ha : label a ∈ labels) (l : List α) :
    ∃ before after, labels = before ++ label a :: after ∧
      (labels.flatMap fun k => (a :: l).filter fun b => label b = k) =
        (before.flatMap fun k => l.filter fun b => label b = k) ++
          a :: (label a :: after).flatMap fun k => l.filter fun b => label b = k := by
  obtain ⟨before, after, rfl⟩ := List.append_of_mem ha
  refine ⟨before, after, rfl, ?_⟩
  obtain ⟨-, hafter, hbefore⟩ := List.nodup_append.mp hd
  have hother : ∀ k, label a ≠ k → ((a :: l).filter fun b => label b = k) = l.filter fun b => label b = k := by
    intro k hk
    exact List.filter_cons_of_neg (by simpa using hk)
  have hfront : (before.flatMap fun k => (a :: l).filter fun b => label b = k) =
      before.flatMap fun k => l.filter fun b => label b = k :=
    List.flatMap_congr fun k hk => hother k (hbefore k hk _ List.mem_cons_self).symm
  have hback : (after.flatMap fun k => (a :: l).filter fun b => label b = k) =
      after.flatMap fun k => l.filter fun b => label b = k :=
    List.flatMap_congr fun k hk => hother k fun e => (List.nodup_cons.mp hafter).1 (e ▸ hk)
  rw [List.flatMap_append, List.flatMap_cons, hfront, hback, List.filter_cons_of_pos (by simp), List.flatMap_cons,
    List.cons_append]

/-- The groups of a list hold its entries, each as often as the list does. -/
theorem flatMap_filter_perm (hd : labels.Nodup) (l : List α) (hin : ∀ a ∈ l, label a ∈ labels) :
    (labels.flatMap fun k => l.filter fun a => label a = k).Perm l := by
  induction l with
  | nil => simp
  | cons a l ih =>
    obtain ⟨before, after, hlabels, hgroups⟩ := exists_flatMap_filter_cons hd (hin a List.mem_cons_self) l
    have hrest := ih fun b hb => hin b (List.mem_cons_of_mem a hb)
    rw [hlabels, List.flatMap_append] at hrest
    rw [hgroups]
    exact List.perm_middle.trans (hrest.cons a)

/-- A list that is in order by its labels is its groups one behind the other. -/
theorem eq_flatMap_filter {place : κ → Nat} (hp : labels.Pairwise fun j k => place j < place k) {l : List α}
    (hl : l.Pairwise fun a b => place (label a) ≤ place (label b)) (hin : ∀ a ∈ l, label a ∈ labels) :
    l = labels.flatMap fun k => l.filter fun a => label a = k := by
  have hd : labels.Nodup := hp.imp fun {j k} hlt e => by
    subst e
    omega
  induction l with
  | nil => simp
  | cons a l ih =>
    obtain ⟨before, after, hlabels, hgroups⟩ := exists_flatMap_filter_cons hd (hin a List.mem_cons_self) l
    obtain ⟨ha, hl⟩ := List.pairwise_cons.mp hl
    have hnone : (before.flatMap fun k => l.filter fun b => label b = k) = [] := by
      rw [hlabels, List.pairwise_append] at hp
      rw [List.flatMap_eq_nil_iff]
      intro k hk
      rw [List.filter_eq_nil_iff]
      intro b hb hlabel
      have hle := ha b hb
      have hlt := hp.2.2 k hk _ List.mem_cons_self
      rw [of_decide_eq_true hlabel] at hle
      omega
    have hrest := ih hl fun b hb => hin b (List.mem_cons_of_mem a hb)
    rw [hlabels, List.flatMap_append, hnone, List.nil_append] at hrest
    rw [hgroups, hnone, List.nil_append, ← hrest]

end LayerLint.Sorting
