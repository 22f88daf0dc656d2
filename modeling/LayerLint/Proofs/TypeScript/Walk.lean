/-
  LayerLint.Proofs.TypeScript.Walk: the cursor walk counts every node once.

  `count` says by recursion on the tree how many of its nodes have a wanted kind. The walk has no recursion: it
  is two loops over three moves. `Stage.pass` is one pass through either loop, for a cursor of which only this
  is known: it stands at a place of the tree, the numbers of the children on the way up, and a move succeeds
  exactly if the tree has a node at the place that it leads to.

  (1) The cursor with its trail is such a cursor: at its places a pass leads where its moves lead
  (`pass_firstChild?`, `pass_leaf`, `pass_nextSibling?`, `pass_parent?`, `pass_root`).

  (2) The trail holds what a place does not show: the nodes that are still to come. `Due` reads off it in how
  many passes the walk will end and with which count. Each pass keeps the count and takes one from the passes
  (`Due.pass`), so the walk reaches every node once and leaves it once.

  Kinds are of any type, also one that tells any two nodes apart, so no node stands in for another.
-/

import LayerLint.TypeScript.Tree
import Mathlib.Logic.Function.Iterate

namespace LayerLint.TypeScript

variable {κ : Type}

namespace Tree

mutual

def count (wanted : κ → Bool) : Tree κ → Nat
  | node k cs => (wanted k).toNat + counts wanted cs

def counts (wanted : κ → Bool) : List (Tree κ) → Nat
  | [] => 0
  | t :: ts => t.count wanted + counts wanted ts

end

/-- The node at a place: the number of the child at each level of the way down to it, nearest level first. -/
def nodeAt? (t : Tree κ) : (place : List Nat) → Option (Tree κ)
  | [] => some t
  | i :: up => (t.nodeAt? up).bind (·.children[i]?)

end Tree

/-! ## The walk by places -/

inductive Stage where
  /-- On a node that it comes to. -/
  | reached (place : List Nat) (count : Nat)
  /-- On a node that it is done with, and with all that is below. -/
  | leaving (place : List Nat) (count : Nat)
  | ended (count : Nat)

/-- One pass. From a node that is reached the walk goes on to its first child, and from one that is done with
    to its next sibling or else to its parent. -/
def Stage.pass (t : Tree κ) (wanted : κ → Bool) : Stage → Stage
  | reached place count =>
    let count := if (t.nodeAt? place).any (wanted ·.kind) then count + 1 else count
    if (t.nodeAt? (0 :: place)).isSome then reached (0 :: place) count else leaving place count
  | leaving [] count => ended count
  | leaving (i :: up) count =>
    if (t.nodeAt? ((i + 1) :: up)).isSome then reached ((i + 1) :: up) count else leaving up count
  | ended count => ended count

namespace Cursor

/-! ## The moves of the cursor -/

def around (focus : Tree κ) : (trail : List (Crumb κ)) → Tree κ
  | [] => focus
  | crumb :: up => around (.node crumb.kind (crumb.left.reverse ++ focus :: crumb.right)) up

def whole (c : Cursor κ) : Tree κ := around c.focus c.trail

def place (c : Cursor κ) : List Nat := c.trail.map (·.left.length)

theorem nodeAt?_place (c : Cursor κ) : c.whole.nodeAt? c.place = some c.focus := by
  obtain ⟨focus, trail⟩ := c
  induction trail generalizing focus with
  | nil => rfl
  | cons crumb up ih =>
    have hparent := ih (.node crumb.kind (crumb.left.reverse ++ focus :: crumb.right))
    simp only [whole, place, around, List.map_cons, Tree.nodeAt?] at hparent ⊢
    rw [hparent]
    simp [Tree.children]

variable {c d p : Cursor κ}

theorem place_firstChild? (h : c.firstChild? = some d) : d.place = 0 :: c.place ∧ d.whole = c.whole := by
  obtain ⟨k, t, ts, trail, rfl, rfl⟩ := firstChild?_eq_some h
  exact ⟨rfl, rfl⟩

theorem nodeAt?_below (h : c.firstChild? = none) : c.whole.nodeAt? (0 :: c.place) = none := by
  rw [Tree.nodeAt?, nodeAt?_place]
  obtain ⟨k, trail, rfl⟩ := firstChild?_eq_none h
  rfl

theorem place_nextSibling? (h : c.nextSibling? = some d) :
    ∃ i up, c.place = i :: up ∧ d.place = (i + 1) :: up ∧ d.whole = c.whole := by
  obtain ⟨focus, k, left, t, right, up, rfl, rfl⟩ := nextSibling?_eq_some h
  refine ⟨left.length, up.map (·.left.length), rfl, rfl, ?_⟩
  simp [whole, around]

theorem place_parent? (hs : c.nextSibling? = none) (h : c.parent? = some p) :
    ∃ i, c.place = i :: p.place ∧ p.whole = c.whole ∧ c.whole.nodeAt? ((i + 1) :: p.place) = none := by
  obtain ⟨focus, k, left, up, rfl, rfl⟩ := parent?_eq_some hs h
  refine ⟨left.length, rfl, rfl, ?_⟩
  have hparent := nodeAt?_place ⟨.node k (left.reverse ++ [focus]), up⟩
  simp only [whole, around, Tree.nodeAt?] at hparent ⊢
  rw [hparent]
  simp [Tree.children]

theorem trail_eq_nil (h : c.parent? = none) : c.trail = [] := by
  obtain ⟨focus, _ | ⟨crumb, up⟩⟩ := c
  · rfl
  · simp [parent?] at h

/-! ## What is still to come -/

def pendingCount (wanted : κ → Bool) : List (Crumb κ) → Nat
  | [] => 0
  | crumb :: up => Tree.counts wanted crumb.right + pendingCount wanted up

def remainingCount (wanted : κ → Bool) (c : Cursor κ) : Nat := c.focus.count wanted + pendingCount wanted c.trail

theorem remaining_leaf (h : c.firstChild? = none) : pending c.trail + 1 = c.remaining := by
  obtain ⟨k, trail, rfl⟩ := firstChild?_eq_none h
  exact Nat.add_comm _ _

variable (wanted : κ → Bool)

theorem remainingCount_leaf (h : c.firstChild? = none) :
    (wanted c.focus.kind).toNat + pendingCount wanted c.trail = c.remainingCount wanted := by
  obtain ⟨k, trail, rfl⟩ := firstChild?_eq_none h
  rfl

theorem remainingCount_firstChild? (h : c.firstChild? = some d) :
    (wanted c.focus.kind).toNat + d.remainingCount wanted = c.remainingCount wanted := by
  obtain ⟨k, t, ts, trail, rfl, rfl⟩ := firstChild?_eq_some h
  simp only [remainingCount, pendingCount, Tree.kind, Tree.count, Tree.counts]
  omega

theorem remainingCount_nextSibling? (h : c.nextSibling? = some d) :
    d.remainingCount wanted = pendingCount wanted c.trail := by
  obtain ⟨focus, k, left, t, right, up, rfl, rfl⟩ := nextSibling?_eq_some h
  simp only [remainingCount, pendingCount, Tree.counts]
  omega

theorem pendingCount_parent? (hs : c.nextSibling? = none) (h : c.parent? = some p) :
    pendingCount wanted p.trail = pendingCount wanted c.trail := by
  obtain ⟨focus, k, left, up, rfl, rfl⟩ := parent?_eq_some hs h
  simp only [pendingCount, Tree.counts, Nat.zero_add]

theorem remainingCount_onward? (c : Cursor κ) :
    c.onward?.elim 0 (remainingCount wanted) = pendingCount wanted c.trail := by
  fun_induction onward? c with
  | case1 c d hs => exact remainingCount_nextSibling? wanted hs
  | case2 c hs p hp ih => rw [ih, pendingCount_parent? wanted hs hp]
  | case3 c hs hp => rw [trail_eq_nil hp]; rfl

theorem counted (b : Bool) (count : Nat) : (if b then count + 1 else count) = count + b.toNat := by
  cases b <;> rfl

/-- From any node on, the walk counts what is below it and what is pending. -/
theorem countFrom_eq (c : Cursor κ) (count : Nat) :
    countFrom wanted c count = count + c.remainingCount wanted := by
  fun_induction countFrom wanted c count with
  | case1 c count count' d hd ih =>
    have hcount : count' = count + (wanted c.focus.kind).toNat := counted _ _
    rw [ih, hcount, Nat.add_assoc, remainingCount_firstChild? wanted hd]
  | case2 c count count' hd d ho ih =>
    have hcount : count' = count + (wanted c.focus.kind).toNat := counted _ _
    have honward := remainingCount_onward? wanted c
    rw [ho, Option.elim_some] at honward
    rw [ih, hcount, Nat.add_assoc, honward, remainingCount_leaf wanted hd]
  | case3 c count count' hd ho =>
    have hcount : count' = count + (wanted c.focus.kind).toNat := counted _ _
    have honward := remainingCount_onward? wanted c
    rw [ho, Option.elim_none] at honward
    rw [hcount, ← remainingCount_leaf wanted hd, ← honward, Nat.add_zero]

end Cursor

/-! ## Passes and moves -/

section

variable {c d p : Cursor κ} (wanted : κ → Bool) (count : Nat)

theorem Stage.pass_firstChild? (h : c.firstChild? = some d) :
    (reached c.place count).pass c.whole wanted = reached d.place (count + (wanted c.focus.kind).toNat) := by
  obtain ⟨hplace, hwhole⟩ := Cursor.place_firstChild? h
  have hthere : c.whole.nodeAt? (0 :: c.place) = some d.focus := by
    rw [← hplace, ← hwhole, Cursor.nodeAt?_place]
  rw [Stage.pass, Cursor.nodeAt?_place, Option.any_some, Cursor.counted, hthere, if_pos (by simp), hplace]

theorem Stage.pass_leaf (h : c.firstChild? = none) :
    (reached c.place count).pass c.whole wanted = leaving c.place (count + (wanted c.focus.kind).toNat) := by
  rw [Stage.pass, Cursor.nodeAt?_place, Option.any_some, Cursor.counted, Cursor.nodeAt?_below h,
    if_neg (by simp)]

theorem Stage.pass_nextSibling? (h : c.nextSibling? = some d) :
    (leaving c.place count).pass c.whole wanted = reached d.place count := by
  obtain ⟨i, up, hplace, hnext, hwhole⟩ := Cursor.place_nextSibling? h
  have hthere : c.whole.nodeAt? ((i + 1) :: up) = some d.focus := by
    rw [← hnext, ← hwhole, Cursor.nodeAt?_place]
  rw [hplace, Stage.pass, hthere, if_pos (by simp), hnext]

theorem Stage.pass_parent? (hs : c.nextSibling? = none) (h : c.parent? = some p) :
    (leaving c.place count).pass c.whole wanted = leaving p.place count := by
  obtain ⟨i, hplace, hwhole, hnone⟩ := Cursor.place_parent? hs h
  rw [hplace, Stage.pass, hnone, if_neg (by simp)]

theorem Stage.pass_root (h : c.parent? = none) :
    (leaving c.place count).pass c.whole wanted = ended count := by
  rw [Cursor.place, Cursor.trail_eq_nil h]
  rfl

end

/-- In how many passes the walk through `t` ends, and with which count. A node that is still to come is reached and
    left, and an ancestor of the node that the walk is at is only left. -/
inductive Due (t : Tree κ) (wanted : κ → Bool) : Stage → (passes total : Nat) → Prop
  | reached (c : Cursor κ) {count passes total : Nat} (hwhole : c.whole = t)
      (hpasses : passes = 2 * c.remaining + c.place.length) (htotal : total = count + c.remainingCount wanted) :
      Due t wanted (.reached c.place count) passes total
  | leaving (c : Cursor κ) {count passes total : Nat} (hwhole : c.whole = t)
      (hpasses : passes = 2 * Cursor.pending c.trail + c.place.length + 1)
      (htotal : total = count + Cursor.pendingCount wanted c.trail) :
      Due t wanted (.leaving c.place count) passes total
  | ended (total : Nat) : Due t wanted (.ended total) 0 total

namespace Due

variable {t : Tree κ} {wanted : κ → Bool} {s : Stage} {passes total : Nat}

/-- A pass is one of those due, and changes nothing about the count in the end. -/
theorem pass (h : Due t wanted s passes total) : Due t wanted (s.pass t wanted) (passes - 1) total := by
  cases h with
  | @reached c count _ _ hwhole hpasses htotal =>
    subst hwhole
    cases hd : c.firstChild? with
    | some d =>
      obtain ⟨hplace, hwhole⟩ := Cursor.place_firstChild? hd
      have hlength : d.place.length = c.place.length + 1 := congrArg List.length hplace
      have hremaining := Cursor.remaining_firstChild? hd
      have hcount := Cursor.remainingCount_firstChild? wanted hd
      rw [Stage.pass_firstChild? wanted count hd]
      exact .reached d hwhole (by omega) (by omega)
    | none =>
      have hremaining := Cursor.remaining_leaf hd
      have hcount := Cursor.remainingCount_leaf wanted hd
      rw [Stage.pass_leaf wanted count hd]
      exact .leaving c rfl (by omega) (by omega)
  | @leaving c count _ _ hwhole hpasses htotal =>
    subst hwhole
    cases hs : c.nextSibling? with
    | some d =>
      obtain ⟨i, up, hplace, hnext, hwhole⟩ := Cursor.place_nextSibling? hs
      have hlength : d.place.length = c.place.length := by rw [hplace, hnext]; rfl
      have hremaining := Cursor.remaining_nextSibling? hs
      have hcount := Cursor.remainingCount_nextSibling? wanted hs
      rw [Stage.pass_nextSibling? wanted count hs]
      exact .reached d hwhole (by omega) (by omega)
    | none =>
      cases hp : c.parent? with
      | some p =>
        obtain ⟨i, hplace, hwhole, -⟩ := Cursor.place_parent? hs hp
        have hlength : c.place.length = p.place.length + 1 := congrArg List.length hplace
        have hpending := Cursor.pending_parent? hs hp
        have hcount := Cursor.pendingCount_parent? wanted hs hp
        rw [Stage.pass_parent? wanted count hs hp]
        exact .leaving p hwhole (by omega) (by omega)
      | none =>
        have htrail := Cursor.trail_eq_nil hp
        obtain rfl : passes = 1 := by simpa [Cursor.place, htrail, Cursor.pending] using hpasses
        obtain rfl : total = count := by simpa [htrail, Cursor.pendingCount] using htotal
        rw [Stage.pass_root wanted total hp]
        exact .ended total
  | ended => exact .ended total

theorem iterate (h : Due t wanted s passes total) (k : Nat) :
    Due t wanted ((Stage.pass t wanted)^[k] s) (passes - k) total := by
  induction k generalizing s passes with
  | zero => exact h
  | succ k ih =>
    have hrest := ih h.pass
    rwa [Nat.sub_sub, Nat.add_comm 1 k] at hrest

/-- The walk has ended exactly if no pass is due. -/
theorem eq_ended_iff {count : Nat} (h : Due t wanted s passes total) :
    s = .ended count ↔ passes = 0 ∧ count = total := by
  cases h with
  | reached c hwhole hpasses htotal =>
    have hpos : 0 < passes := by
      have hlt := Cursor.pending_lt_remaining c
      omega
    exact iff_of_false nofun fun h => Nat.ne_of_gt hpos h.1
  | leaving c hwhole hpasses htotal =>
    have hpos : 0 < passes := by omega
    exact iff_of_false nofun fun h => Nat.ne_of_gt hpos h.1
  | ended => rw [Stage.ended.injEq, eq_comm, and_iff_right rfl]

end Due

theorem due_root (t : Tree κ) (wanted : κ → Bool) :
    Due t wanted (.reached [] 0) (2 * t.size) (t.count wanted) :=
  .reached (.root t) rfl rfl (Nat.zero_add _).symm

/-- The walk counts each node of a wanted kind once. With any cursor whose moves fail exactly where there is no
    node, its loops end, after two passes for each node of the tree, and with this count. -/
theorem Tree.countKinds_eq_count (wanted : κ → Bool) (t : Tree κ) :
    t.countKinds wanted = t.count wanted ∧
      ∀ passes count, (Stage.pass t wanted)^[passes] (.reached [] 0) = .ended count ↔
        2 * t.size ≤ passes ∧ count = t.countKinds wanted := by
  have hcount : t.countKinds wanted = t.count wanted := by
    rw [Tree.countKinds, Cursor.countFrom_eq, Nat.zero_add]
    rfl
  refine ⟨hcount, fun passes count => ?_⟩
  rw [((due_root t wanted).iterate passes).eq_ended_iff, Nat.sub_eq_zero_iff_le, hcount]

end LayerLint.TypeScript
