/-
  LayerLint.Proofs.Check.Draft: severities are the last thing a violation gets.

  A draft is a violation before its severity is known. Every check works as if it first wrote drafts,
  all of its own rule, from the units, the graph and the classifier, and then gave each of them the
  severity that the context has for that rule (`drafted`). Two facts follow for every check:
  - `labels_of_mem_run`: a violation carries the rule of the check, a finding of that rule, and the
    severity of that rule.
  - `run_under`: under other severities a check gives the same violations in the same order, with the
    other severities.
-/

import LayerLint.Check.Basic
import LayerLint.Proofs.Check.Imports

namespace LayerLint

/-- A violation before its severity is known. -/
structure Draft where
  finding : Finding
  location : Location
  message : String
  suggestion : String

namespace Draft

def violation (severities : SeverityMap) (d : Draft) : Violation :=
  .of severities d.finding d.location d.message d.suggestion

end Draft

namespace Violation

def under (severities : SeverityMap) (v : Violation) : Violation :=
  { v with severity := severities.get v.rule }

end Violation

namespace Check

def Context.under (severities : SeverityMap) (ctx : Context) : Context := { ctx with severities := severities }

/-- Violations that come from drafts of one rule, whatever the severities. -/
def Drafted (rule : Rule) (found : SeverityMap → List Violation) : Prop :=
  ∃ drafts : List Draft, (∀ d ∈ drafts, d.finding.rule = rule) ∧
    ∀ severities, found severities = drafts.map (·.violation severities)

namespace Drafted

variable {rule : Rule} {α : Type}

theorem none : Drafted rule fun _ => [] := ⟨[], by simp, fun _ => rfl⟩

theorem single (d : Draft) (h : d.finding.rule = rule) : Drafted rule fun s => [d.violation s] :=
  ⟨[d], by simpa using h, fun _ => rfl⟩

theorem append {found more : SeverityMap → List Violation} (h : Drafted rule found) (h' : Drafted rule more) :
    Drafted rule fun s => found s ++ more s := by
  obtain ⟨drafts, hr, hv⟩ := h
  obtain ⟨drafts', hr', hv'⟩ := h'
  refine ⟨drafts ++ drafts', fun d hd => ?_, fun s => ?_⟩
  · rcases List.mem_append.mp hd with hd | hd
    · exact hr d hd
    · exact hr' d hd
  · simp only [hv, hv', List.map_append]

theorem flatMap {found : SeverityMap → α → List Violation} (h : ∀ a, Drafted rule fun s => found s a) (l : List α) :
    Drafted rule fun s => l.flatMap (found s) := by
  induction l with
  | nil => exact none
  | cons a l ih => exact (h a).append ih

theorem filterMap {found : SeverityMap → α → Option Violation} (h : ∀ a, Drafted rule fun s => (found s a).toList)
    (l : List α) : Drafted rule fun s => l.filterMap (found s) := by
  induction l with
  | nil => exact none
  | cons a l ih =>
    obtain ⟨drafts, hr, hv⟩ := (h a).append ih
    refine ⟨drafts, hr, fun s => ?_⟩
    rw [← hv s]
    simp only [List.filterMap_cons]
    cases found s a <;> rfl

theorem imports {found : SeverityMap → SourceUnit → Import → Option Violation}
    (h : ∀ u i, Drafted rule fun s => (found s u i).toList) (units : List SourceUnit) :
    Drafted rule fun s => units.flatMap fun u => u.imports.filterMap (found s u) :=
  flatMap (fun u => filterMap (h u) u.imports) units

theorem ite (c : Prop) [Decidable c] {found more : SeverityMap → Option Violation}
    (h : Drafted rule fun s => (found s).toList) (h' : Drafted rule fun s => (more s).toList) :
    Drafted rule fun s => (if c then found s else more s).toList := by
  by_cases hc : c
  · simpa only [if_pos hc] using h
  · simpa only [if_neg hc] using h'

end Drafted

/-! ## The checks -/

variable (ctx : Context)

theorem Direction.drafted (allowed : PerLayer (List Layer)) :
    Drafted .layerDirection fun s => Direction.run allowed (ctx.under s) := by
  simp only [run, ofUnit_eq]
  refine Drafted.imports (fun u i => ?_) ctx.units
  simp only [flagged?, ofImport?, Context.under]
  cases u.layer with
  | none => exact .none
  | some importing =>
    simp only [Option.bind_some]
    cases ctx.classifier.classify i.specifier with
    | none => exact .none
    | some imported =>
      exact .ite _ .none (.single ⟨.layerDirection importing imported i.specifier, _, _, _⟩ rfl)

theorem Cycle.drafted : Drafted .circularDependency fun s => Cycle.run (ctx.under s) := by
  refine Drafted.filterMap (fun cycle => ?_) ctx.graph.cycles
  cases cycle with
  | nil => exact .none
  | cons first rest => exact .single ⟨.circularDependency (first :: rest), _, _, _⟩ rfl

theorem Aggregate.drafted (settings : Config.Aggregates) :
    Drafted .aggregateBoundary fun s => Aggregate.run settings (ctx.under s) := by
  simp only [run, ofUnit_eq]
  refine Drafted.imports (fun u i => ?_) ctx.units
  simp only [flagged?, ofImport?, Context.under]
  cases infer? settings u.path with
  | none => exact .none
  | some importing =>
    refine .ite _ .none ?_
    cases Path.join? u.dir i.specifier with
    | none => exact .none
    | some target =>
      simp only [Option.bind_eq_bind, Option.bind_some]
      cases infer? settings target with
      | none => exact .none
      | some imported => exact .ite _ .none (.single ⟨.aggregateBoundary importing imported i.specifier, _, _, _⟩ rfl)

theorem Naming.drafted (settings : Config.Naming) : Drafted .naming fun s => Naming.run settings (ctx.under s) := by
  refine Drafted.filterMap (fun u => ?_) ctx.units
  simp only [ofUnit?, ofMissing?, Context.under]
  cases u.layer with
  | none => exact .none
  | some layer =>
    refine .ite _ .none ?_
    cases if layer = .domain then vague? settings u.stem else none with
    | some found => exact .single ⟨.naming (Path.fileName u.path) _, _, _, _⟩ rfl
    | none =>
      cases missing? settings u with
      | none => exact .none
      | some suffix => exact .single ⟨.naming (Path.fileName u.path) _, _, _, _⟩ rfl

theorem Package.drafted (denied : Config.Packages) :
    Drafted .forbiddenPackage fun s => Package.run denied (ctx.under s) := by
  simp only [run, ofUnit_eq]
  refine Drafted.imports (fun u i => ?_) ctx.units
  simp only [flagged?, ofImport?, Context.under]
  cases u.layer with
  | none => exact .none
  | some layer =>
    simp only [Option.bind_some]
    cases ofSpecifier? i.specifier with
    | none => exact .none
    | some package => exact .ite _ (.single ⟨.forbiddenPackage package layer, _, _, _⟩ rfl) .none

theorem Secret.drafted (scanner : SecretScanner) :
    Drafted .hardcodedSecret fun s => Secret.run scanner (ctx.under s) := by
  refine Drafted.flatMap (fun u => ?_) ctx.units
  unfold ofUnit
  induction (scanner u.content u.path).getD [] with
  | nil => exact .none
  | cons f findings ih => exact (Drafted.single ⟨.hardcodedSecret f.kind f.column, _, _, _⟩ rfl).append ih

/-- The drafts of a check are of its own rule. -/
theorem drafted (check : Check) : Drafted check.rule fun s => check.run (ctx.under s) := by
  cases check with
  | direction allowed => exact Direction.drafted ctx allowed
  | cycle => exact Cycle.drafted ctx
  | aggregate settings => exact Aggregate.drafted ctx settings
  | naming settings => exact Naming.drafted ctx settings
  | package denied => exact Package.drafted ctx denied
  | secret scanner => exact Secret.drafted ctx scanner

/-! ## What all checks have in common -/

/-- A violation that a check finds has the check's rule in all three places where a rule shows. -/
theorem labels_of_mem_run {ctx : Context} {check : Check} {v : Violation} (h : v ∈ check.run ctx) :
    v.rule = check.rule ∧ v.finding.rule = check.rule ∧ v.severity = ctx.severities.get check.rule := by
  obtain ⟨drafts, hr, hv⟩ := drafted ctx check
  have hrun : check.run ctx = drafts.map (·.violation ctx.severities) := hv ctx.severities
  rw [hrun] at h
  obtain ⟨d, hd, rfl⟩ := List.mem_map.mp h
  rw [← hr d hd]
  exact ⟨rfl, rfl, rfl⟩

theorem run_under (check : Check) (severities : SeverityMap) :
    check.run (ctx.under severities) = (check.run ctx).map (·.under severities) := by
  obtain ⟨drafts, -, hv⟩ := drafted ctx check
  have hrun : check.run ctx = drafts.map (·.violation ctx.severities) := hv ctx.severities
  have hother : check.run (ctx.under severities) = drafts.map (·.violation severities) := hv severities
  rw [hrun, hother, List.map_map]
  rfl

end Check

end LayerLint
