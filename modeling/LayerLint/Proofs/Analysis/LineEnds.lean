/-
  LayerLint.Proofs.Analysis.LineEnds: the line ends of files do not show in what a run finds.

  Files whose lines end in a line feed can be rewritten with a carriage return before each of them (`crlf`). The
  imports are found again, on the same lines and in the same order (`imports_crlf`), and so are secrets, at the
  same columns (`scan_crlf`). No check looks at anything else of a text, so a run over the rewritten files has the
  same findings (`run_crlf`): the same graph with its numbers, the same number of imports, and the same violations
  of every rule. Exported names and functions are read from the text in other ways and no part of this.
-/

import LayerLint.Proofs.Analysis.Locality
import LayerLint.Proofs.Pattern.LineEnds
import LayerLint.Proofs.Source.Places

namespace LayerLint

def Text.crlf (s : String) : String := .ofList (withReturns s.toList)

theorem Text.toList_crlf (s : String) : (crlf s).toList = withReturns s.toList := String.toList_ofList

/-! ## Imports -/

namespace Source

open Pattern

theorem loose_blanks : (zeroOrMore Text.isBlank).Loose := loose_run (fun _ => by decide) (.inl rfl)

theorem loose_spaces : (zeroOrMore Text.isSpaceOrTab).Loose := loose_run (fun h => absurd h (by decide)) (.inl rfl)

/-- A specifier without its closing quote may end inside a line end, where no quote follows. -/
theorem loose_specifier : specifier.Loose := loose_run (fun h => absurd h (by decide)) (.inr (by decide))

theorem steady_quote : (one isQuote).Steady := steady_one (by decide) (by decide)

theorem steady_importFrom : importFrom.Steady := by
  -- the clause may run over lines and stop inside a line end, but no word starts there
  have hclause : (run (fun c => !(c == ';' || isQuote c || isBacktick c)) 0 none .lazy).Loose :=
    loose_run (fun _ => by decide) (.inl rfl)
  have hfrom : (inOrder [wordEdge, text "from", zeroOrMore Text.isSpaceOrTab, one isQuote]).Steady :=
    steady_wordEdge.seq ((steady_text (by decide)).tight.seq (loose_spaces.seq steady_quote))
  have hword : (oneOf (text "import") [text "export"]).Steady :=
    (steady_text (by decide)).either (steady_text (by decide))
  refine ⟨?_, loose_specifier, steady_quote⟩
  exact steady_lineStart.seq (loose_spaces.seq (hword.seq (steady_wordEdge.tight.seq (hclause.seq hfrom))))

theorem steady_importBare : importBare.Steady := by
  have hword : (text "import").Steady := steady_text (by decide)
  refine ⟨?_, loose_specifier, steady_quote⟩
  exact steady_lineStart.seq (loose_spaces.seq (hword.seq (loose_spaces.seq steady_quote)))

theorem steady_importCall : importCall.Steady := by
  have hword : (oneOf (text "require") [text "import"]).Steady :=
    (steady_text (by decide)).either (steady_text (by decide))
  have hopen : (text "(").Steady := steady_text (by decide)
  have hclose : (text ")").Steady := steady_text (by decide)
  refine ⟨?_, loose_specifier, ?_⟩
  · exact steady_wordEdge.seq (hword.tight.seq (loose_blanks.seq (hopen.seq (loose_blanks.seq steady_quote))))
  · exact steady_quote.seq (loose_blanks.seq hclose)

theorem steady_of_mem_extractors {e : Extractor} (h : e ∈ extractors) : e.Steady := by
  simp only [extractors, List.mem_cons, List.not_mem_nil, or_false] at h
  rcases h with rfl | rfl | rfl
  · exact steady_importFrom
  · exact steady_importBare
  · exact steady_importCall

theorem allFinds_withReturns {text : List Char} (h : '\r' ∉ text) :
    allFinds (Text.withReturns text) = (allFinds text).map Find.withReturns := by
  unfold allFinds
  rw [List.map_flatMap]
  exact List.flatMap_congr fun e he => (steady_of_mem_extractors he).carries.finds_withReturns h

/-- A specifier stands on one line, so it is the same text. -/
theorem content_withReturns {text : List Char} {f : Find} (h : f ∈ allFinds text) :
    f.withReturns.content = f.content := by
  obtain ⟨e, he, hf⟩ := List.mem_flatMap.mp h
  obtain ⟨s, -, hs⟩ := Extractor.mem_findsFrom hf
  have hbody := (Extractor.mem_findsAt.mp hs).2.1
  rw [body_of_mem_extractors he] at hbody
  obtain ⟨w, hw, hset⟩ := reaches_of_mem_run hbody
  have hcontent : f.content = w := hw.textTo_eq
  have hfeed : '\n' ∉ w := fun hm => absurd (hset _ hm) (by decide)
  rw [Find.content_withReturns hw, hcontent, Text.withReturns_eq_self hfeed]

theorem line_withReturns (f : Find) : f.withReturns.line = f.line := by
  show Text.newlines (Text.backWithReturns f.first.before) + 1 = Text.newlines f.first.before + 1
  have hcount : ∀ s : List Char, Text.newlines s.reverse = Text.newlines s := fun s => List.count_reverse
  rw [Text.backWithReturns, hcount, Text.newlines_withReturns, hcount]

/-- Matches are in the same order in both texts. -/
theorem offset_withReturns_le_iff {text : List Char} {f g : Find} (hf : f ∈ allFinds text) (hg : g ∈ allFinds text) :
    f.withReturns.offset ≤ g.withReturns.offset ↔ f.offset ≤ g.offset := by
  exact Spot.place_withReturns_le_iff (whole_of_mem_allFinds hf) (whole_of_mem_allFinds hg)

section

variable {α β : Type} {place place' : α → Nat} {value : α → β}

theorem map_dropSamePlace_congr {l : List α} (last : Option α)
    (h : ∀ x ∈ last.toList ++ l, ∀ y ∈ last.toList ++ l, place x = place y ↔ place' x = place' y) :
    (dropSamePlace (last.map place) (l.map fun x => (place x, value x))).map (·.2) =
      (dropSamePlace (last.map place') (l.map fun x => (place' x, value x))).map (·.2) := by
  induction l generalizing last with
  | nil => rfl
  | cons x l ih =>
    have hsame : last.map place = some (place x) ↔ last.map place' = some (place' x) := by
      cases last with
      | none => simp
      | some y => simpa using h y (by simp) x (by simp)
    rw [List.map_cons, List.map_cons, dropSamePlace, dropSamePlace]
    by_cases hx : last.map place = some (place x)
    · rw [if_pos hx, if_pos (hsame.mp hx)]
      refine ih last fun y hy z hz => h y ?_ z ?_
      · simp only [List.mem_append, List.mem_cons] at hy ⊢
        tauto
      · simp only [List.mem_append, List.mem_cons] at hz ⊢
        tauto
    · rw [if_neg hx, if_neg (mt hsame.mpr hx), List.map_cons, List.map_cons]
      refine congrArg _ (ih (some x) fun y hy z hz => h y ?_ z ?_)
      · exact List.mem_append_right _ (by simpa using hy)
      · exact List.mem_append_right _ (by simpa using hz)

/-- Putting matches in order and dropping those at one place asks only how the places are ordered. -/
theorem map_dropSamePlace_inTextOrder_congr {l : List α}
    (h : ∀ x ∈ l, ∀ y ∈ l, place x ≤ place y ↔ place' x ≤ place' y) :
    (dropSamePlace none (inTextOrder (l.map fun x => (place x, value x)))).map (·.2) =
      (dropSamePlace none (inTextOrder (l.map fun x => (place' x, value x)))).map (·.2) := by
  have hsame : ∀ x ∈ l, ∀ y ∈ l, place x ≤ place y ↔ place x ≤ place y := fun _ _ _ _ => Iff.rfl
  rw [inTextOrder_map hsame value, inTextOrder_map h value]
  refine map_dropSamePlace_congr none fun x hx y hy => ?_
  have hxl : x ∈ l := List.mem_mergeSort.mp hx
  have hyl : y ∈ l := List.mem_mergeSort.mp hy
  rw [Nat.le_antisymm_iff, Nat.le_antisymm_iff, h x hxl y hyl, h y hyl x hxl]

end

/-- The imports of a text are those of the text with other line ends. -/
theorem imports_crlf {content : String} (h : '\r' ∉ content.toList) :
    imports (Text.crlf content) = imports content := by
  rw [imports_eq, imports_eq, Text.toList_crlf, allFinds_withReturns h, List.map_map]
  have hvalue : (allFinds content.toList).map
      ((fun f => (f.offset, (⟨String.ofList f.content, f.line⟩ : Import))) ∘ Find.withReturns) =
      (allFinds content.toList).map fun f => (f.withReturns.offset, (⟨String.ofList f.content, f.line⟩ : Import)) := by
    refine List.map_congr_left fun f hf => ?_
    rw [Function.comp_apply, content_withReturns hf, line_withReturns]
  rw [hvalue]
  exact map_dropSamePlace_inTextOrder_congr fun f hf g hg => offset_withReturns_le_iff hf hg

end Source

theorem Secret.scan_crlf {content : String} (h : '\r' ∉ content.toList) :
    Secret.scan (Text.crlf content) = Secret.scan content := by
  unfold Secret.scan
  rw [Text.toList_crlf, Text.lines_withReturns h]

/-! ## Units -/

namespace Graph

/-- The graph asks for the paths, layers and imports of the units only. -/
theorem build_map {f : SourceUnit → SourceUnit} (hpath : ∀ u, (f u).path = u.path) (hlayer : ∀ u, (f u).layer = u.layer)
    (himports : ∀ u, (f u).imports = u.imports) (units : List SourceUnit) : build (units.map f) = build units := by
  have hregister : ∀ (g : Graph) (u : SourceUnit), g.registerUnit (f u) = g.registerUnit u := by
    intro g u
    rw [registerUnit, registerUnit, hpath, hlayer]
  have hadd : ∀ (g : Graph) (u : SourceUnit), g.addImports (f u) = g.addImports u := by
    intro g u
    rw [addImports, addImports, hpath, himports]
  have hfiles : ofFiles (units.map f) = ofFiles units := by
    rw [ofFiles, ofFiles, List.foldl_map]
    simp only [hregister]
  rw [build, build, hfiles, List.foldl_map]
  simp only [hadd]

end Graph

def FileAccess.crlf (access : FileAccess) : FileAccess :=
  { access with read := fun path => (access.read path).map Text.crlf }

namespace Analysis

variable (a : Analysis) {access : FileAccess}

def crlfUnit (u : SourceUnit) : SourceUnit :=
  { u with
    content := Text.crlf u.content
    exports := Source.exports (Text.crlf u.content)
    functions := a.countFunctions u.path (Text.crlf u.content) }

@[simp] theorem crlfUnit_path (u : SourceUnit) : (a.crlfUnit u).path = u.path := rfl
@[simp] theorem crlfUnit_layer (u : SourceUnit) : (a.crlfUnit u).layer = u.layer := rfl
@[simp] theorem crlfUnit_imports (u : SourceUnit) : (a.crlfUnit u).imports = u.imports := rfl

theorem unit?_crlf {path : String} (h : ∀ text, access.read path = some text → '\r' ∉ text.toList) :
    a.unit? access.crlf path = (a.unit? access path).map a.crlfUnit := by
  have hcrlf : access.crlf.read path = (access.read path).map Text.crlf := rfl
  unfold unit?
  rw [hcrlf]
  cases hread : access.read path with
  | none => rfl
  | some text =>
    have himports := Source.imports_crlf (h text hread)
    simp only [Option.map_some, crlfUnit, SourceUnit.ofContent, himports]

theorem units_crlf (h : ∀ path text, access.read path = some text → '\r' ∉ text.toList) (paths : List String) :
    a.units access.crlf paths = (a.units access paths).map a.crlfUnit := by
  have hunits : paths.filterMap (a.unit? access.crlf) = (paths.filterMap (a.unit? access)).map a.crlfUnit := by
    rw [List.map_filterMap]
    exact List.filterMap_congr fun path _ => a.unit?_crlf (h path)
  rw [units, units, hunits]
  exact (List.map_mergeSort (f := a.crlfUnit) fun _ _ _ _ => rfl).symm

theorem read_of_mem_units {paths : List String} {u : SourceUnit} (hu : u ∈ a.units access paths) :
    access.read u.path = some u.content := by
  have hunit := a.unit?_of_mem access ((a.units_perm access paths).mem_iff.mp hu)
  obtain ⟨content, hread, he⟩ := Option.map_eq_some_iff.mp hunit
  rw [hread, ← he]
  rfl

/-! ## Findings -/

/-- In a file a check finds the same, as long as the secrets are the same. -/
theorem inFile_crlfUnit {check : Check} (hcheck : ∀ scanner, check = .secret scanner → scanner = .builtin)
    (ctx : Check.Context) {u : SourceUnit} (h : '\r' ∉ u.content.toList) :
    check.inFile ctx (a.crlfUnit u) = check.inFile ctx u := by
  cases check with
  | secret scanner =>
    obtain rfl := hcheck scanner rfl
    have hscan : SecretScanner.builtin (a.crlfUnit u).content (a.crlfUnit u).path =
        SecretScanner.builtin u.content u.path := congrArg some (Secret.scan_crlf h)
    have hplace : Check.Secret.ofFinding ctx (a.crlfUnit u) = Check.Secret.ofFinding ctx u := rfl
    simp only [Check.inFile, Check.Secret.ofUnit, hscan, hplace]
  | direction allowed =>
    have himport : ∀ importing, Check.Direction.ofImport? allowed ctx (a.crlfUnit u) importing =
        Check.Direction.ofImport? allowed ctx u importing := by
      intro importing
      funext i
      simp only [Check.Direction.ofImport?, crlfUnit_path]
    simp only [Check.inFile, Check.Direction.ofUnit, himport, crlfUnit_layer, crlfUnit_imports]
  | _ => rfl

theorem run_context_crlf {check : Check} (hcheck : ∀ scanner, check = .secret scanner → scanner = .builtin)
    {units : List SourceUnit} (h : ∀ u ∈ units, '\r' ∉ u.content.toList) :
    check.run (a.context (units.map a.crlfUnit)) = check.run (a.context units) := by
  have hgraph : Graph.build (units.map a.crlfUnit) = Graph.build units :=
    Graph.build_map a.crlfUnit_path a.crlfUnit_layer a.crlfUnit_imports units
  by_cases hrule : check.rule = .circularDependency
  · cases check with
    | cycle =>
      show (Graph.build (units.map a.crlfUnit)).cycles.filterMap _ = _
      rw [hgraph]
      rfl
    | _ => cases hrule
  · have hctx : check.inFile (a.context (units.map a.crlfUnit)) = check.inFile (a.context units) :=
      funext (Check.inFile_congr rfl rfl)
    rw [Check.run_eq_flatMap hrule, Check.run_eq_flatMap hrule, hctx]
    show (units.map a.crlfUnit).flatMap _ = units.flatMap _
    rw [List.flatMap_map]
    exact List.flatMap_congr fun u hu => a.inFile_crlfUnit hcheck _ (h u hu)

end Analysis

/-- What a report tells of a project without its exports and functions. -/
structure Report.Findings where
  graph : Graph
  graphMetrics : GraphMetrics
  totalImports : Nat
  violations : PerRule (List Violation)
  deriving DecidableEq, Repr

def Report.findings (r : Report) : Findings := ⟨r.graph, r.graphMetrics, r.metrics.totalImports, r.violations⟩

namespace Analysis

theorem findings_crlf (a : Analysis) (ha : ∀ scanner, Check.secret scanner ∈ a.activeChecks → scanner = .builtin)
    {units : List SourceUnit} (h : ∀ u ∈ units, '\r' ∉ u.content.toList) :
    (a.report (units.map a.crlfUnit)).findings = (a.report units).findings := by
  have hgraph : Graph.build (units.map a.crlfUnit) = Graph.build units :=
    Graph.build_map a.crlfUnit_path a.crlfUnit_layer a.crlfUnit_imports units
  have himports : (units.map a.crlfUnit).map (·.imports.length) = units.map (·.imports.length) := List.map_map
  have hviolations : (a.report (units.map a.crlfUnit)).violations = (a.report units).violations := by
    refine PerRule.ext_get fun rule => ?_
    rw [violations_report, violations_report]
    refine List.flatMap_congr fun check hc => a.run_context_crlf ?_ h
    rintro scanner rfl
    exact ha scanner (List.mem_of_mem_filter hc)
  have hfindings : ∀ units, (a.report units).findings = ⟨.build units, (Graph.build units).metrics,
      (units.map (·.imports.length)).foldr (· + ·) 0, (a.report units).violations⟩ := fun _ => rfl
  rw [hfindings, hfindings, hviolations, hgraph, himports]

theorem builtin_of_mem_activeChecks {config : Config} {counter : Option FunctionCounter} {scanner : SecretScanner}
    (h : Check.secret scanner ∈ (Analysis.mk config counter .builtin none).activeChecks) : scanner = .builtin := by
  have hbuiltin : Check.secret scanner ∈ Check.builtin config .builtin := h
  have hall : Check.secret scanner ∈ Check.configured config .builtin := (List.mem_filter.mp hbuiltin).1
  simpa [Check.configured] using hall

/-- Files without carriage returns can be given one in every line end, and a run with the scanner for the known
    kinds of secrets finds the same: graph, numbers, imports, and violations with their lines and columns. -/
theorem run_crlf (config : Config) (counter : Option FunctionCounter) (access : FileAccess) (root : String)
    (includes excludes : Option (List String))
    (h : ∀ path text, access.read path = some text → '\r' ∉ text.toList) :
    ((Analysis.mk config counter .builtin none).run access.crlf root includes excludes).map Report.findings =
      ((Analysis.mk config counter .builtin none).run access root includes excludes).map Report.findings := by
  let a : Analysis := ⟨config, counter, .builtin, none⟩
  cases hs : access.scan (includes.getD config.project.includes) (excludes.getD config.project.excludes) with
  | error causes =>
    have hs' : access.crlf.scan (includes.getD config.project.includes) (excludes.getD config.project.excludes) =
        .error causes := hs
    rw [a.run_of_scan_error hs', a.run_of_scan_error hs]
  | ok paths =>
    have hs' : access.crlf.scan (includes.getD config.project.includes) (excludes.getD config.project.excludes) =
        .ok paths := hs
    have hplain : ∀ u ∈ a.units access paths, '\r' ∉ u.content.toList :=
      fun u hu => h _ _ (a.read_of_mem_units hu)
    rw [a.run_of_scan_ok hs', a.run_of_scan_ok hs, a.units_crlf h]
    exact congrArg Except.ok (a.findings_crlf (fun _ => builtin_of_mem_activeChecks) hplain)

def spread : String := "import \x7b\n  b,\n\x7d from './b'\nconst pwd = 'correct-horse'\n"

def spreadFiles : FileAccess where
  scan _ _ := .ok ["a.ts", "b.ts"]
  read path := if path = "a.ts" then some spread else if path = "b.ts" then some "" else none

/-- Both are found where they were. -/
theorem run_crlf_spread :
    (∀ path text, spreadFiles.read path = some text → '\r' ∉ text.toList) ∧
      (Source.allFinds (Text.crlf spread).toList).map (fun f => (String.ofList f.content, f.line)) = [("./b", 3)] ∧
      Secret.scan (Text.crlf spread) = [⟨4, 7, "Password or secret", "Hardcoded Password or secret detected"⟩] ∧
      ((ofConfig .default).run spreadFiles.crlf "." none none).map Report.findings =
        ((ofConfig .default).run spreadFiles "." none none).map Report.findings := by
  have hplain : ∀ path text, spreadFiles.read path = some text → '\r' ∉ text.toList := by
    intro path text h
    simp only [spreadFiles] at h
    by_cases ha : path = "a.ts"
    · rw [if_pos ha] at h
      cases h
      decide
    · rw [if_neg ha] at h
      by_cases hb : path = "b.ts"
      · rw [if_pos hb] at h
        cases h
        decide
      · rw [if_neg hb] at h
        cases h
  exact ⟨hplain, by decide +kernel, by decide +kernel,
    run_crlf .default (some .builtin) spreadFiles "." none none hplain⟩

end Analysis

end LayerLint
