/-
  LayerLint.Proofs.Check.Targets: the place an import is judged by, and the file that it means.

  The check for aggregates follows an import as a text and takes the last segment for a file. The graph may
  register the file under a longer path. An extension changes no directory, so the verdict is the one that
  the registered path would get. The index file of a directory has one directory more than the text, and the
  verdict leaves this one out of account (`flagged_iff_of_resolve?`). It matters in two ways, and in no other:
  if it names the aggregate the import is missed, and if it is a shared folder the import is flagged
  nevertheless (`index_target_misjudged`).
-/

import LayerLint.Proofs.Check.Aggregate
import LayerLint.Proofs.Graph.Specifiers

namespace LayerLint

namespace Graph

/-- `target` is the index file of the directory `base`. -/
def IsIndex (base target : String) : Prop := ∃ e ∈ extensions, target = base ++ "/index." ++ e

instance (base target : String) : Decidable (IsIndex base target) :=
  inferInstanceAs (Decidable (∃ e ∈ extensions, target = base ++ "/index." ++ e))

theorem mem_candidates {base target : String} :
    target ∈ candidates base ↔ target = base ∨ (∃ e ∈ extensions, target = base ++ "." ++ e) ∨ IsIndex base target := by
  simp only [candidates, IsIndex, List.mem_cons, List.mem_append, List.mem_map, eq_comm]

theorem resolve?_eq_some {g : Graph} {file specifier target : String} (h : g.resolve? file specifier = some target) :
    ∃ base, target? file specifier = some base ∧ base ≠ "" ∧ target ∈ candidates base := by
  unfold resolve? at h
  split at h
  · rename_i base hbase
    split at h
    · cases h
    · rename_i hne
      exact ⟨base, hbase, by simpa using hne, List.mem_of_find?_eq_some h⟩
  · cases h

theorem target?_of_isRelative {u : SourceUnit} {i : Import} (h : i.isRelative = true) :
    target? u.path i.specifier = Path.join? u.dir i.specifier := by
  have hdot : (i.specifier.toList.head? == some '.') = true := h
  rw [target?, if_pos hdot]
  rfl

end Graph

namespace Check.Aggregate

variable {settings : Config.Aggregates} {path base target : String}

theorem infer?_congr (settings : Config.Aggregates) (h : Path.directories target = Path.directories base) :
    infer? settings target = infer? settings base := by
  refine Option.ext fun a => ?_
  rw [infer?_eq_some_iff, infer?_eq_some_iff, h]

theorem Foreign.of_directories_eq (hf : Foreign settings path target)
    (h : Path.directories target = Path.directories base) : Foreign settings path base := by
  obtain ⟨a, b, ha, hb, hne, hclosed⟩ := hf
  rw [infer?_congr settings h] at hb
  rw [h] at hclosed
  exact ⟨a, b, ha, hb, hne, hclosed⟩

/-- The verdict on a file is one on its directories. -/
theorem foreign_congr (h : Path.directories target = Path.directories base) :
    Foreign settings path target ↔ Foreign settings path base :=
  ⟨fun hf => hf.of_directories_eq h, fun hf => hf.of_directories_eq h.symm⟩

/-! ## One directory more -/

theorem closed_snoc {dirs inner : List (List Char)} (h : Below settings dirs inner) (d : List Char) :
    Closed settings (dirs ++ [d]) ↔ Closed settings dirs ∧ listed settings.sharedFolders d = false := by
  constructor
  · intro hclosed
    have hall := hclosed _ (h.append [d])
    refine ⟨?_, hall d (by simp)⟩
    intro inner' hinner
    rw [hinner.unique h]
    exact fun x hx => hall x (List.mem_append_left [d] hx)
  · rintro ⟨hclosed, hd⟩ inner' hinner
    rw [hinner.unique (h.append [d])]
    intro x hx
    rcases List.mem_append.mp hx with hx | hx
    · exact hclosed inner h x hx
    · rw [List.mem_singleton.mp hx]
      exact hd

section

variable {d : List Char} (hd : Path.directories target = Path.directories base ++ [d])

include hd

/-- A file in a directory of a known aggregate is in the same aggregate. -/
theorem infer?_of_snoc {b : String} (h : infer? settings base = some b) : infer? settings target = some b := by
  rw [infer?_eq_some_iff] at h ⊢
  rw [hd]
  exact h.of_prefix (List.prefix_append _ _)

theorem closed_of_infer? {b : String} (h : infer? settings base = some b) :
    Closed settings (Path.directories target) ↔
      Closed settings (Path.directories base) ∧ listed settings.sharedFolders d = false := by
  obtain ⟨folders, rest, hbelow, -⟩ := infer?_eq_some_iff.mp h
  rw [hd]
  exact closed_snoc hbelow d

theorem foreign_of_foreign (h : Foreign settings path base) :
    Foreign settings path target ↔ listed settings.sharedFolders d = false := by
  obtain ⟨a, b, ha, hb, hne, hclosed⟩ := h
  constructor
  · rintro ⟨a', b', -, -, -, hclosed'⟩
    exact ((closed_of_infer? hd hb).mp hclosed').2
  · intro hshared
    exact ⟨a, b, ha, infer?_of_snoc hd hb, hne, (closed_of_infer? hd hb).mpr ⟨hclosed, hshared⟩⟩

theorem foreign_of_infer? (h : Foreign settings path target) (hknown : infer? settings base ≠ none) :
    Foreign settings path base := by
  obtain ⟨a, b, ha, hb, hne, hclosed⟩ := h
  obtain ⟨b', hb'⟩ := Option.ne_none_iff_exists'.mp hknown
  obtain rfl : b' = b := Option.some.inj ((infer?_of_snoc hd hb').symm.trans hb)
  exact ⟨a, b', ha, hb', hne, ((closed_of_infer? hd hb').mp hclosed).1⟩

/-- The innermost directory of a path changes the verdict exactly if it names the aggregate or is shared. -/
theorem foreign_iff_foreign :
    (Foreign settings path base ↔ Foreign settings path target) ↔
      ¬ (Foreign settings path target ∧ infer? settings base = none) ∧
        ¬ (Foreign settings path base ∧ listed settings.sharedFolders d = true) := by
  constructor
  · intro hiff
    constructor
    · rintro ⟨htarget, hnone⟩
      obtain ⟨a, b, -, hb, -⟩ := hiff.mpr htarget
      rw [hnone] at hb
      cases hb
    · rintro ⟨hbase, hshared⟩
      rw [(foreign_of_foreign hd hbase).mp (hiff.mp hbase)] at hshared
      cases hshared
  · rintro ⟨hnamed, hshared⟩
    constructor
    · intro hbase
      exact (foreign_of_foreign hd hbase).mpr (Bool.eq_false_iff.mpr fun hd' => hshared ⟨hbase, hd'⟩)
    · intro htarget
      exact foreign_of_infer? hd htarget fun hnone => hnamed ⟨htarget, hnone⟩

end

/-! ## The registered file -/

variable {ctx : Context} {u : SourceUnit} {i : Import}

theorem flagged?_isSome_iff_foreign (settings : Config.Aggregates) (ctx : Context) (hr : i.isRelative = true)
    (hb : Path.join? u.dir i.specifier = some base) :
    (flagged? settings ctx u i).isSome = true ↔ Foreign settings u.path base := by
  rw [flagged?_isSome_iff, hb]
  constructor
  · rintro ⟨-, target, ht, hforeign⟩
    obtain rfl : base = target := Option.some.inj ht
    exact hforeign
  · intro hforeign
    exact ⟨hr, base, rfl, hforeign⟩

/-- A relative import that means a registered file is flagged exactly if the file is foreign, unless the file is
    the index of the directory that the import leads to. Then it is judged by the directories above that one,
    which gives the same verdict exactly if that one neither names the aggregate nor is a shared folder. -/
theorem flagged_iff_of_resolve? (settings : Config.Aggregates) (hr : i.isRelative = true)
    (h : ctx.graph.resolve? u.path i.specifier = some target) :
    ∃ base, Path.join? u.dir i.specifier = some base ∧
      (¬ Graph.IsIndex base target →
        ((flagged? settings ctx u i).isSome = true ↔ Foreign settings u.path target)) ∧
      (Graph.IsIndex base target →
        ((flagged? settings ctx u i).isSome = true ↔ Foreign settings u.path base) ∧
          ∃ d, Path.directories target = Path.directories base ++ [d] ∧
            (((flagged? settings ctx u i).isSome = true ↔ Foreign settings u.path target) ↔
              ¬ (Foreign settings u.path target ∧ infer? settings base = none) ∧
                ¬ (Foreign settings u.path base ∧ listed settings.sharedFolders d = true))) := by
  obtain ⟨base, hb, hne, hmem⟩ := Graph.resolve?_eq_some h
  rw [Graph.target?_of_isRelative hr] at hb
  have hsegs := Path.segments_ne_nil_of_join? hb hne
  have hflag := flagged?_isSome_iff_foreign settings ctx hr hb
  refine ⟨base, hb, ?_, ?_⟩
  · intro hno
    rcases Graph.mem_candidates.mp hmem with rfl | ⟨e, he, rfl⟩ | hindex
    · exact hflag
    · have hending : '/' ∉ ("." ++ e).toList := by
        have := Graph.slash_not_mem_extension he
        simpa using this
      rw [hflag, String.append_assoc, foreign_congr (Path.directories_append hsegs hending)]
    · exact absurd hindex hno
  · rintro ⟨e, he, ht⟩
    refine ⟨hflag, ?_⟩
    have hname : Path.Part ("index." ++ e).toList := by
      have := Graph.slash_not_mem_extension he
      exact ⟨by simp, by simpa using this⟩
    obtain ⟨d, hd⟩ := Path.directories_slash hsegs hname
    have hsplit : target = base ++ "/" ++ ("index." ++ e) := by
      rw [ht]
      exact String.toList_inj.mp (by simp)
    rw [← hsplit] at hd
    refine ⟨d, hd, ?_⟩
    rw [hflag]
    exact foreign_iff_foreign hd

def buyer : SourceUnit :=
  ⟨"domain/order/Order.ts", "",
   [⟨"../user/User", 1⟩, ⟨"../user/model", 2⟩, ⟨"../user", 3⟩, ⟨"../user/events", 4⟩], [], none, 0⟩

def market : List SourceUnit :=
  [buyer, ⟨"domain/user/User.ts", "", [], [], none, 0⟩, ⟨"domain/user/model/index.tsx", "", [], [], none, 0⟩,
   ⟨"domain/user/index.ts", "", [], [], none, 0⟩, ⟨"domain/user/events/index.ts", "", [], [], none, 0⟩]

def marketContext : Context := ⟨market, .build market, .default, .default⟩

theorem flagged_iff_of_resolve?_market :
    (marketContext.graph.resolve? buyer.path "../user/User" = some "domain/user/User.ts" ∧
        ((flagged? .default marketContext buyer ⟨"../user/User", 1⟩).isSome = true ↔
          Foreign .default buyer.path "domain/user/User.ts")) ∧
      marketContext.graph.resolve? buyer.path "../user/model" = some "domain/user/model/index.tsx" ∧
        ((flagged? .default marketContext buyer ⟨"../user/model", 2⟩).isSome = true ↔
          Foreign .default buyer.path "domain/user/model") := by
  have hfile : marketContext.graph.resolve? buyer.path "../user/User" = some "domain/user/User.ts" := by decide
  have hindex : marketContext.graph.resolve? buyer.path "../user/model" = some "domain/user/model/index.tsx" := by
    decide
  refine ⟨⟨hfile, ?_⟩, hindex, ?_⟩
  · obtain ⟨base, hb, hdirect, -⟩ :=
      flagged_iff_of_resolve? .default (u := buyer) (i := ⟨"../user/User", 1⟩) (by decide) hfile
    have hjoin : Path.join? buyer.dir "../user/User" = some "domain/user/User" := by decide
    obtain rfl : base = "domain/user/User" := Option.some.inj (hb.symm.trans hjoin)
    exact hdirect (by decide)
  · obtain ⟨base, hb, -, hinside⟩ :=
      flagged_iff_of_resolve? .default (u := buyer) (i := ⟨"../user/model", 2⟩) (by decide) hindex
    have hjoin : Path.join? buyer.dir "../user/model" = some "domain/user/model" := by decide
    obtain rfl : base = "domain/user/model" := Option.some.inj (hb.symm.trans hjoin)
    exact (hinside (by decide)).1

/-- The index of an aggregate may be imported unseen, and the index of a shared folder may not be imported. -/
theorem index_target_misjudged :
    (marketContext.graph.resolve? buyer.path "../user" = some "domain/user/index.ts" ∧
        Apart .default buyer.path "domain/user/index.ts" "order" "user" ∧
        (flagged? .default marketContext buyer ⟨"../user", 3⟩).isSome = false) ∧
      marketContext.graph.resolve? buyer.path "../user/events" = some "domain/user/events/index.ts" ∧
        ¬ Foreign .default buyer.path "domain/user/events/index.ts" ∧
        (flagged? .default marketContext buyer ⟨"../user/events", 4⟩).isSome = true := by
  have hopen : ¬ Closed .default (Path.directories "domain/user/events/index.ts") := by decide
  refine ⟨⟨by decide, ⟨by decide, by decide, by decide, by decide⟩, by decide⟩, by decide, ?_, by decide⟩
  rintro ⟨a, b, -, -, -, hclosed⟩
  exact hopen hclosed

end Check.Aggregate

end LayerLint
