/-
  LayerLint.Proofs.Check.Package: which imports reach a denied package.

  The package of a specifier is the specifier itself or what stands before one of its slashes (`reaches_of_ofSpecifier?`).
  A specifier that is the name of a package, or that has a slash behind it, has this package (`ofSpecifier?_of_reaches`).
  So it reaches no other package, and a list of denied names forbids what reaches one of them and nothing else: neither
  does a path inside a package hide it, nor is a package taken for another one whose name is the start of its own
  (`run_flags_denied`).
-/

import LayerLint.Check.Package
import LayerLint.Proofs.Check.Imports
import LayerLint.Proofs.Path.Join

namespace LayerLint.Check.Package

/-! ## Names and specifiers -/

def leads : List String := [".", "/", "~", "node:"]

def Reserved (s : String) : Prop := ∃ lead ∈ leads, lead.toList <+: s.toList

instance (s : String) : Decidable (Reserved s) := inferInstanceAs (Decidable (∃ lead ∈ _, _))

/-- The names of packages: `name` and `@scope/name`. -/
inductive IsName : String → Prop
  | single {name : String} : name ≠ "" → '/' ∉ name.toList → name.toList.head? ≠ some '@' → ¬ Reserved name → IsName name
  | inScope {scope name : String} : scope ≠ "" → '/' ∉ scope.toList → name ≠ "" → '/' ∉ name.toList →
      IsName ("@" ++ scope ++ "/" ++ name)

/-- A specifier is the name of a package or leads to a path inside it. -/
def Reaches (specifier name : String) : Prop := specifier = name ∨ ∃ rest, specifier = name ++ "/" ++ rest

theorem slash_prefix_iff {specifier name : String} :
    (name ++ "/").toList <+: specifier.toList ↔ ∃ rest, specifier = name ++ "/" ++ rest := by
  constructor
  · intro h
    obtain ⟨rest, hrest⟩ := h
    exact ⟨String.ofList rest, String.toList_inj.mp (by rw [← hrest]; simp)⟩
  · intro h
    obtain ⟨rest, rfl⟩ := h
    exact ⟨rest.toList, by simp⟩

instance (specifier name : String) : Decidable (Reaches specifier name) :=
  decidable_of_iff (specifier = name ∨ (name ++ "/").toList <+: specifier.toList) (or_congr_right slash_prefix_iff)

variable {specifier name d : String}

theorem reaches_iff :
    Reaches specifier name ↔ ∃ rest, specifier.toList = name.toList ++ rest ∧ ∀ c ∈ rest.head?, c = '/' := by
  constructor
  · intro h
    rcases h with rfl | ⟨rest, rfl⟩
    · exact ⟨[], by simp, by simp⟩
    · exact ⟨'/' :: rest.toList, by simp, by simp⟩
  · intro h
    obtain ⟨rest, heq, hhead⟩ := h
    cases rest with
    | nil => exact .inl (String.toList_inj.mp (by simpa using heq))
    | cons c rest =>
      obtain rfl : c = '/' := hhead c rfl
      exact .inr ⟨String.ofList rest, String.toList_inj.mp (by simp [heq])⟩

theorem split_append_rest {s rest : List Char} (hs : '/' ∉ s) (hrest : ∀ c ∈ rest.head?, c = '/') :
    ∃ pieces, Text.split Path.isSlash (s ++ rest) = s :: pieces := by
  have hone := Text.split_eq_singleton (Path.slash_not_mem_iff.mp hs)
  cases rest with
  | nil => exact ⟨[], by rw [List.append_nil, hone]⟩
  | cons c rest =>
    obtain rfl : c = '/' := hrest c rfl
    exact ⟨_, by rw [Text.split_append rfl, hone, List.singleton_append]⟩

theorem exists_rest_of_split {s p : List Char} {pieces : List (List Char)} (h : Text.split Path.isSlash s = p :: pieces) :
    ∃ rest, s = p ++ rest ∧ ∀ c ∈ rest.head?, c = '/' := by
  cases pieces with
  | nil => exact ⟨[], by simp [Text.eq_of_split_eq_singleton h], by simp⟩
  | cons q pieces =>
    obtain ⟨c, hc, t, rfl, -⟩ := Text.exists_of_split_eq_cons_cons h
    refine ⟨c :: t, rfl, ?_⟩
    simpa using beq_iff_eq.mp hc

theorem takeWhile_append_rest {s rest : List Char} (hs : '/' ∉ s) (hrest : ∀ c ∈ rest.head?, c = '/') :
    (s ++ rest).takeWhile (!Path.isSlash ·) = s := by
  have hplain : ∀ c ∈ s, (!Path.isSlash c) = true := fun c hc => by simp [Path.slash_not_mem_iff.mp hs c hc]
  rw [List.takeWhile_append_of_pos hplain]
  cases rest with
  | nil => simp
  | cons c rest =>
    obtain rfl : c = '/' := hrest c rfl
    simp [Path.isSlash]

theorem exists_rest_of_takeWhile (s : List Char) :
    ∃ rest, s = s.takeWhile (!Path.isSlash ·) ++ rest ∧ ∀ c ∈ rest.head?, c = '/' := by
  refine ⟨s.dropWhile (!Path.isSlash ·), List.takeWhile_append_dropWhile.symm, ?_⟩
  intro c hc
  have hhead := List.head?_dropWhile_not (!Path.isSlash ·) s
  rw [Option.mem_def.mp hc] at hhead
  simpa [Path.isSlash] using hhead

/-! ## The package of a specifier -/

theorem scoped?_eq {rest scope name : List Char} {pieces : List (List Char)}
    (h : Text.split Path.isSlash rest = scope :: name :: pieces) (hs : scope ≠ []) (hn : name ≠ []) :
    scoped? specifier rest = some (String.ofList ('@' :: (scope ++ '/' :: name))) := by
  simp [scoped?, h, hs, hn]

theorem ofSpecifier?_plain {c : Char} {rest : List Char} (h : specifier.toList = c :: rest) (hat : c ≠ '@')
    (hr : ¬ Reserved specifier) :
    ofSpecifier? specifier = some (String.ofList ((c :: rest).takeWhile (!Path.isSlash ·))) := by
  have hlead : ∀ lead ∈ leads, ¬ lead.toList <+: c :: rest :=
    fun lead hlead hstarts => hr ⟨lead, hlead, h ▸ hstarts⟩
  have hdot : c ≠ '.' := fun e => hlead "." (by decide) (by simp [e])
  have hslash : c ≠ '/' := fun e => hlead "/" (by decide) (by simp [e])
  have htilde : c ≠ '~' := fun e => hlead "~" (by decide) (by simp [e])
  have hnode : "node:".toList.isPrefixOf (c :: rest) = false := by
    rw [← Bool.not_eq_true, List.isPrefixOf_iff_prefix]
    exact hlead "node:" (by decide)
  unfold ofSpecifier?
  split
  · rename_i hnil
    rw [h] at hnil
    cases hnil
  · rename_i hscoped
    rw [h] at hscoped
    exact absurd (List.cons.inj hscoped).1 hat
  · rename_i hchars
    obtain ⟨rfl, rfl⟩ := List.cons.inj (h.symm.trans hchars)
    simp only [beq_eq_false_iff_ne.mpr hdot, beq_eq_false_iff_ne.mpr hslash, beq_eq_false_iff_ne.mpr htilde, hnode,
      Bool.or_self, Bool.false_eq_true, if_false]

theorem reaches_of_scoped? {rest : List Char} (h : specifier.toList = '@' :: rest)
    (hd : scoped? specifier rest = some d) : Reaches specifier d := by
  unfold scoped? at hd
  split at hd
  · rename_i scope name pieces hsplit
    split at hd
    · cases hd
    · split at hd
      · exact .inl (Option.some.inj hd)
      · obtain rfl := Option.some.inj hd
        obtain ⟨c, hc, tail, rfl, htail⟩ := Text.exists_of_split_eq_cons_cons hsplit
        obtain rfl : c = '/' := beq_iff_eq.mp hc
        obtain ⟨more, rfl, hmore⟩ := exists_rest_of_split htail
        exact reaches_iff.mpr ⟨more, by simp [h], hmore⟩
  · split at hd
    · cases hd
    · exact .inl (Option.some.inj hd)
  · cases hd

/-- The package of a specifier is the specifier or what stands before one of its slashes. -/
theorem reaches_of_ofSpecifier? (h : ofSpecifier? specifier = some d) : Reaches specifier d := by
  unfold ofSpecifier? at h
  split at h
  · cases h
  · rename_i rest hchars
    exact reaches_of_scoped? hchars h
  · rename_i c rest _ hchars
    split at h
    · cases h
    · obtain rfl := Option.some.inj h
      obtain ⟨more, hmore, hhead⟩ := exists_rest_of_takeWhile (c :: rest)
      exact reaches_iff.mpr ⟨more, by rw [hchars, String.toList_ofList]; exact hmore, hhead⟩

/-- No lead has a slash but at its start, and behind the name of a package comes nothing or a slash. So a lead of the
    specifier is one of the name. -/
theorem Reaches.not_reserved (h : Reaches specifier name) (hne : name ≠ "") (hr : ¬ Reserved name) :
    ¬ Reserved specifier := by
  have htails : ∀ lead ∈ leads, '/' ∉ lead.toList.tail := by decide
  intro hreserved
  obtain ⟨lead, hlead, hstarts⟩ := hreserved
  obtain ⟨rest, hchars, hrest⟩ := reaches_iff.mp h
  rw [hchars] at hstarts
  rcases List.prefix_or_prefix_of_prefix hstarts (List.prefix_append _ _) with hshort | ⟨more, hmore⟩
  · exact hr ⟨lead, hlead, hshort⟩
  · rw [← hmore, List.prefix_append_right_inj] at hstarts
    cases more with
    | nil => exact hr ⟨lead, hlead, [], by simpa using hmore.symm⟩
    | cons c more =>
      obtain ⟨tail, rfl⟩ := hstarts
      obtain rfl : c = '/' := hrest c rfl
      apply htails lead hlead
      rw [← hmore, List.tail_append_of_ne_nil fun e => hne (String.toList_inj.mp e)]
      simp

theorem ofSpecifier?_of_reaches (hn : IsName d) (h : Reaches specifier d) : ofSpecifier? specifier = some d := by
  obtain ⟨rest, hchars, hrest⟩ := reaches_iff.mp h
  cases hn with
  | single hne hslash hat hr =>
    obtain ⟨c, cs, hd⟩ : ∃ c cs, d.toList = c :: cs := by
      cases hd : d.toList with
      | nil => exact absurd (String.toList_inj.mp hd) hne
      | cons c cs => exact ⟨c, cs, rfl⟩
    have hc : c ≠ '@' := fun e => hat (by rw [hd, e]; rfl)
    have hstart : specifier.toList = c :: (cs ++ rest) := by rw [hchars, hd, List.cons_append]
    rw [ofSpecifier?_plain hstart hc (h.not_reserved hne hr), ← List.cons_append, ← hd,
      takeWhile_append_rest hslash hrest, String.ofList_toList]
  | @inScope scope name hs hsslash hn hnslash =>
    obtain ⟨pieces, hpieces⟩ := split_append_rest hnslash hrest
    have hstart : specifier.toList = '@' :: (scope.toList ++ '/' :: (name.toList ++ rest)) := by simp [hchars]
    have hsplit : Text.split Path.isSlash (scope.toList ++ '/' :: (name.toList ++ rest)) =
        scope.toList :: name.toList :: pieces := by
      rw [Text.split_append rfl, Text.split_eq_singleton (Path.slash_not_mem_iff.mp hsslash), hpieces,
        List.singleton_append]
    have hscope : scope.toList ≠ [] := fun e => hs (String.toList_inj.mp e)
    have hname : name.toList ≠ [] := fun e => hn (String.toList_inj.mp e)
    unfold ofSpecifier?
    rw [hstart]
    show scoped? specifier _ = _
    rw [scoped?_eq hsplit hscope hname]
    exact congrArg some (String.toList_inj.mp (by simp))

/-! ## What the check says about an import -/

variable {packages : Config.Packages} {ctx : Context} {u : SourceUnit} {i : Import} {layer : Layer} {v : Violation}

theorem flagged?_eq_some (hl : u.layer = some layer) (h : flagged? packages ctx u i = some v) :
    ∃ d ∈ packages.get layer, ofSpecifier? i.specifier = some d := by
  rw [flagged?, hl, Option.bind_some] at h
  unfold ofImport? at h
  split at h
  · cases h
  · rename_i d hd
    split at h
    · rename_i hdenied
      exact ⟨d, List.contains_iff_mem.mp hdenied, hd⟩
    · cases h

theorem flagged?_of_ofSpecifier? (ctx : Context) (hl : u.layer = some layer) (hd : d ∈ packages.get layer)
    (hs : ofSpecifier? i.specifier = some d) :
    ∃ v, flagged? packages ctx u i = some v ∧ v.finding = .forbiddenPackage d layer ∧
      v.location = ⟨u.path, some i.line⟩ := by
  have hdenied : (packages.get layer).contains d = true := List.contains_iff_mem.mpr hd
  simp only [flagged?, hl, Option.bind_some, ofImport?, hs, hdenied, if_true]
  exact ⟨_, rfl, rfl, rfl⟩

/-- An import is flagged exactly if it reaches a denied package. There is then only one such package, and the import is
    worth exactly one violation: with it the check reports one more than without it, which names the package, the layer
    and the line. -/
theorem run_flags_denied {before after : List SourceUnit} {imports more : List Import}
    (hunits : ctx.units = before ++ u :: after) (himports : u.imports = imports ++ i :: more)
    (hl : u.layer = some layer) (hnames : ∀ d ∈ packages.get layer, IsName d) :
    ∃ front found back, run packages ctx = front ++ (found ++ back) ∧
      run packages { ctx with units := before ++ { u with imports := imports ++ more } :: after } = front ++ back ∧
      (found ≠ [] ↔ ∃ d ∈ packages.get layer, Reaches i.specifier d) ∧
      ∀ d ∈ packages.get layer, Reaches i.specifier d →
        (∀ d' ∈ packages.get layer, Reaches i.specifier d' → d' = d) ∧
        ∃ v, found = [v] ∧ v.finding = .forbiddenPackage d layer ∧ v.location = ⟨u.path, some i.line⟩ := by
  have hone : ∀ d ∈ packages.get layer, Reaches i.specifier d → ofSpecifier? i.specifier = some d :=
    fun d hd hr => ofSpecifier?_of_reaches (hnames d hd) hr
  obtain ⟨front, back, hwith, hwithout⟩ :=
    flatMap_imports_insert (f := flagged? packages ctx) (fun _ _ => rfl) before after himports
  refine ⟨front, (flagged? packages ctx u i).toList, back, by rw [run, ofUnit_eq, hunits]; exact hwith,
    by rw [run, ofUnit_eq]; exact hwithout, ⟨?_, ?_⟩, ?_⟩
  · intro hfound
    cases hv : flagged? packages ctx u i with
    | none => exact absurd (by rw [hv]; rfl) hfound
    | some v =>
      obtain ⟨d, hd, hs⟩ := flagged?_eq_some hl hv
      exact ⟨d, hd, reaches_of_ofSpecifier? hs⟩
  · intro hreached
    obtain ⟨d, hd, hr⟩ := hreached
    obtain ⟨v, hv, -⟩ := flagged?_of_ofSpecifier? ctx hl hd (hone d hd hr)
    simp [hv]
  · intro d hd hr
    obtain ⟨v, hv, hfinding, hplace⟩ := flagged?_of_ofSpecifier? ctx hl hd (hone d hd hr)
    refine ⟨fun d' hd' hr' => ?_, v, by rw [hv]; rfl, hfinding, hplace⟩
    exact Option.some.inj ((hone d' hd' hr').symm.trans (hone d hd hr))

def denials : Config.Packages := ⟨["prisma", "@prisma/client"], [], [], []⟩

def order : SourceUnit :=
  ⟨"src/domain/Order.ts", "", [⟨"prismatic/fp", 1⟩, ⟨"@prisma/client/runtime", 2⟩, ⟨"@prisma/clients", 3⟩], [],
   some .domain, 0⟩

def orderContext : Context := ⟨[order], .empty, .default, .default⟩

theorem isName_of_mem_denials {d : String} (h : d ∈ denials.get .domain) : IsName d := by
  rcases List.mem_cons.mp h with rfl | h
  · exact .single (by decide) (by decide) (by decide) (by decide)
  · rcases List.mem_singleton.mp h with rfl
    have hname : "@prisma/client" = "@" ++ "prisma" ++ "/" ++ "client" := by decide
    rw [hname]
    exact .inScope (by decide) (by decide) (by decide) (by decide)

/-- The path inside the package is flagged, and the names that only start like one are not. -/
theorem run_flags_denied_order :
    (∀ d ∈ denials.get .domain, IsName d) ∧
      (∃ front v back, run denials orderContext = front ++ ([v] ++ back) ∧
        run denials { orderContext with units := [{ order with imports := [⟨"prismatic/fp", 1⟩, ⟨"@prisma/clients", 3⟩] }] } =
          front ++ back ∧
        v.finding = .forbiddenPackage "@prisma/client" .domain ∧ v.location = ⟨"src/domain/Order.ts", some 2⟩) ∧
      run denials orderContext = run denials { orderContext with units :=
        [{ order with imports := [⟨"@prisma/client/runtime", 2⟩, ⟨"@prisma/clients", 3⟩] }] } := by
  have hnames : ∀ d ∈ denials.get .domain, IsName d := fun d hd => isName_of_mem_denials hd
  have hunits : orderContext.units = [] ++ order :: [] := rfl
  have hdeep : order.imports = [⟨"prismatic/fp", 1⟩] ++ ⟨"@prisma/client/runtime", 2⟩ :: [⟨"@prisma/clients", 3⟩] := rfl
  have hlike : order.imports = [] ++ ⟨"prismatic/fp", 1⟩ :: [⟨"@prisma/client/runtime", 2⟩, ⟨"@prisma/clients", 3⟩] := rfl
  refine ⟨hnames, ?_, ?_⟩
  · obtain ⟨front, found, back, hwith, hwithout, -, hone⟩ := run_flags_denied hunits hdeep rfl hnames
    obtain ⟨-, v, rfl, hv⟩ := hone "@prisma/client" (by decide) (by decide)
    exact ⟨front, v, back, hwith, hwithout, hv⟩
  · obtain ⟨front, found, back, hwith, hwithout, hiff, -⟩ := run_flags_denied hunits hlike rfl hnames
    have hnone : ¬ ∃ d ∈ denials.get .domain, Reaches "prismatic/fp" d := by decide
    obtain rfl : found = [] := Decidable.not_not.mp (mt hiff.mp hnone)
    exact hwith.trans hwithout.symm

end LayerLint.Check.Package
