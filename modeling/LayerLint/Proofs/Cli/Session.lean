/-
  LayerLint.Proofs.Cli.Session: what any number of runs leaves on the disk.

  Only one kind of run writes (`Writes`): an `init` that finds nothing at the place of the settings, or
  finds no directory there and was told to overwrite. Whatever else the arguments are, and however the run
  ends, the disk stays as it was (`run_of_not_writes`). A run that writes puts the template at that place
  and touches no other (`entry?_written`), so a session leaves everything else alone, and what it leaves at
  that place is what stood there or the template (`session_frame`).

  That a run was told to overwrite is read off its arguments: the request of an `init` has the flag exactly
  when `--force` is one of them (`request_init`).

  All of this is about disks without links and permissions, on which a write either fails when it opens its file or
  succeeds as a whole. A link in place of the settings, or a disk that is full halfway, is not covered.
-/

import LayerLint.Cli.Run
import LayerLint.Proofs.Disk.Settings

namespace LayerLint

namespace Disk

variable {d : Disk} {name : String}

/-! ## Putting an entry -/

theorem entry?_of_not_above {l : Address} (h : ¬l <+: d.cwd) : d.entry? l = d.entries.lookup l := by
  simp [List.isPrefixOf_iff_prefix, entry?, h]

theorem lookup_cons_eq (x : Address × Entry) (entries : List (Address × Entry)) (l : Address) :
    (x :: entries).lookup l = if x.1 = l then some x.2 else entries.lookup l := by
  rw [List.lookup_cons]
  by_cases h : x.1 = l
  · simp [h]
  · simp [h, beq_eq_false_iff_ne.mpr (Ne.symm h)]

theorem any_eq_isSome_lookup (entries : List (Address × Entry)) (l : Address) :
    entries.any (·.1 == l) = (entries.lookup l).isSome := by
  induction entries with
  | nil => rfl
  | cons x entries ih =>
    rw [List.any_cons, ih, lookup_cons_eq]
    by_cases h : x.1 = l
    · simp [h]
    · simp [h]

theorem lookup_replaced (entries : List (Address × Entry)) (l l' : Address) (e : Entry) :
    (entries.map fun x => if x.1 == l then (l, e) else x).lookup l' =
      if l' = l then (entries.lookup l).map fun _ => e else entries.lookup l' := by
  induction entries with
  | nil => simp
  | cons x entries ih =>
    rw [List.map_cons, lookup_cons_eq, lookup_cons_eq, lookup_cons_eq, ih]
    by_cases hx : x.1 = l
    · by_cases hl : l' = l
      · simp [hx, hl]
      · simp [hx, hl, Ne.symm hl]
    · by_cases hl : l' = l
      · simp [hx, hl]
      · simp [hx, hl]

theorem lookup_put (l l' : Address) (e : Entry) :
    (d.put l e).entries.lookup l' = if l' = l then some e else d.entries.lookup l' := by
  unfold put
  rw [any_eq_isSome_lookup]
  cases hl : d.entries.lookup l with
  | some old =>
    simp only [Option.isSome_some, if_true, lookup_replaced, hl, Option.map_some]
  | none =>
    simp only [Option.isSome_none, Bool.false_eq_true, if_false, List.lookup_append, lookup_cons_eq]
    by_cases he : l' = l
    · simp [he, hl]
    · simp [he, Ne.symm he]

/-- Putting an entry changes what is at its address, and nothing anywhere else. -/
theorem entry?_put {l : Address} (hl : ¬l <+: d.cwd) (e : Entry) (l' : Address) :
    Disk.entry? (d.put l e) l' = if l' = l then some e else d.entry? l' := by
  have hcwd : (d.put l e).cwd = d.cwd := rfl
  by_cases hp : l' <+: d.cwd
  · have hne : l' ≠ l := fun h => hl (h ▸ hp)
    rw [if_neg hne, entry?_of_above hp, entry?_of_above (hcwd ▸ hp)]
  · rw [entry?_of_not_above hp, entry?_of_not_above (hcwd ▸ hp), lookup_put]

/-! ## A name in the working directory -/

theorem not_prefix_snoc (l : Address) (name : String) : ¬l ++ [name] <+: l := by
  intro h
  have := h.length_le
  rw [List.length_append, List.length_singleton] at this
  omega

theorem resolve_name (hn : IsName name) :
    d.resolve name =
      if (d.entry? (d.cwd ++ [name])).isSome then .ok (d.cwd ++ [name]) else .error .notFound := by
  have hstart : d.start name = d.cwd := by rw [start, hn.startsWith, if_neg Bool.false_ne_true]
  have hdir : d.entry? d.cwd = some .dir := entry?_of_above (List.prefix_refl _)
  rw [resolve, if_neg hn.1, names_name hn, hstart, List.foldlM_cons, step_name hn hdir]
  split
  · rfl
  · rfl

theorem has_name (hn : IsName name) : d.has name = (d.entry? (d.cwd ++ [name])).isSome := by
  rw [has, find?, resolve_name hn]
  cases he : d.entry? (d.cwd ++ [name]) with
  | some e => simp [Except.toOption, he]
  | none => simp [Except.toOption]

end Disk

namespace Cli

/-! ## What the arguments of an `init` say -/

/-- A step after which the flag to overwrite is set exactly if `set` holds. One that ends the reading does not end
    it with a command. -/
def Step.Forces (set : Prop) : Step → Prop
  | .next d => (.force ∈ d.flags ↔ set)
  | .await d _ => (.force ∈ d.flags ↔ set)
  | .stop r => ∀ command noColor, r ≠ .run command noColor

theorem Step.Forces.congr {set set' : Prop} {step : Step} (h : step.Forces set) (hs : set ↔ set') :
    step.Forces set' :=
  propext hs ▸ h

theorem misuse_forces (set : Prop) : (Step.stop .misuse).Forces set := by
  intro _ _ h; cases h

theorem flags_value? {d d' : Draft} {s : Switch} {v : String} (h : d.value? s v = some d') : d'.flags = d.flags := by
  cases s with
  | config | format | minSeverity | failOn | limit =>
    obtain ⟨x, -, rfl⟩ := Option.map_eq_some_iff.mp h
    rfl
  | includes | excludes =>
    cases h
    rfl
  | _ => cases h

theorem value_forces (d : Draft) (s : Switch) (v : String) :
    (Step.ofOption (d.value? s v)).Forces (.force ∈ d.flags) := by
  cases h : d.value? s v with
  | none => exact misuse_forces _
  | some d' => simp [Step.ofOption, Step.Forces, flags_value? h]

theorem bare_forces (d : Draft) (s : Switch) : (bare d s).Forces (.force ∈ d.flags ∨ s = .force) := by
  unfold bare
  split
  · intro _ _ h; cases h
  split
  · intro _ _ h; cases h
  split
  · rename_i hv
    have hs : s ≠ .force := by rintro rfl; cases hv
    simp [Step.Forces, hs]
  unfold Draft.flag?
  split
  · exact misuse_forces _
  · simp [Step.ofOption, Step.Forces, eq_comm]

theorem long_eq_force {s : Switch} : s.long.toList = "force".toList ↔ s = .force := by
  cases s <;> decide

variable {switches : List Switch}

theorem long_forces (switches : List Switch) (d : Draft) (text : List Char) :
    (long switches d text).Forces (.force ∈ d.flags ∨ text = "force".toList) := by
  unfold long
  cases hc : Text.cut? ['='] text with
  | some parts =>
    have hne : text ≠ "force".toList := by rintro rfl; cases hc
    cases hf : switches.find? (·.long.toList == parts.1) with
    | none => simpa only [hf] using misuse_forces _
    | some s =>
      simp only [hf]
      split
      · exact (value_forces d s _).congr (or_iff_left hne).symm
      · exact misuse_forces _
  | none =>
    cases hf : switches.find? (·.long.toList == text) with
    | none => simpa only [hf] using misuse_forces _
    | some s =>
      have hname : s.long.toList = text := by simpa using List.find?_some hf
      simp only [hf]
      refine (bare_forces d s).congr ?_
      rw [← hname, long_eq_force]

/-- No short switch is the flag to overwrite. -/
theorem shorts_forces (switches : List Switch) (d : Draft) (text : List Char) :
    (shorts switches d text).Forces (.force ∈ d.flags) := by
  have hshort : ∀ {c : Char} {s : Switch}, switches.find? (·.short? == some c) = some s → s ≠ .force := by
    rintro c s hf rfl
    have := List.find?_some hf
    simp [Switch.short?] at this
  fun_induction shorts switches d text with
  | case1 d => simp [Step.Forces]
  | case2 d c rest hf => exact misuse_forces _
  | case3 d c s hf hv => simp [Step.Forces]
  | case4 d c s hf hv v => exact value_forces _ _ _
  | case5 d c rest s hf hv h1 h2 => exact value_forces _ _ _
  | case6 d c rest s hf hv d' hb ih =>
    have hbare := bare_forces d s
    rw [hb] at hbare
    exact ih.congr (hbare.trans (or_iff_left (hshort hf)))
  | case7 d c rest s hf hv hb =>
    exact (bare_forces d s).congr (or_iff_left (hshort hf))

theorem switch_forces {d : Draft} {arg : String} {step : Step} (hs : switch switches d arg = step) :
    step.Forces (.force ∈ d.flags ∨ arg = "--force") := by
  subst hs
  have harg : arg = "--force" ↔ arg.toList = '-' :: '-' :: "force".toList := by
    rw [← String.toList_inj]; rfl
  unfold switch
  split
  · rename_i text h
    refine (long_forces switches d text).congr ?_
    simp [harg, h]
  · rename_i text hne h
    refine (shorts_forces switches d text).congr (or_iff_left ?_).symm
    rw [harg, h, List.cons.injEq]
    exact fun e => hne _ e.2
  · exact misuse_forces _

theorem finish_eq_run {verb : Verb} {noColor nc : Bool} {command : Command} {d : Option Draft}
    (h : finish verb noColor d = .run command nc) : ∃ d', d = some d' ∧ d'.command? verb = some command := by
  unfold finish at h
  split at h
  · cases h
  · rename_i d'
    split at h
    · rename_i c hc
      cases h
      exact ⟨d', rfl, hc⟩
    · cases h

theorem plainArguments_init {d d' : Draft} {args : List String} (h : plainArguments .init d args = some d') :
    args = [] ∧ d' = d := by
  cases args with
  | nil => exact ⟨rfl, by simpa [plainArguments] using h.symm⟩
  | cons v args => simp [plainArguments, Draft.argument?] at h

theorem looksLikeSwitch_force : looksLikeSwitch "--force" = true := by decide

theorem readCommand_run {verb : Verb} {noColor nc : Bool} {command : Command} {d : Draft} {args : List String}
    (h : readCommand verb noColor d args = .run command nc) :
    ∃ d' : Draft, d'.command? verb = some command ∧
      (verb = .init → (.force ∈ d'.flags ↔ .force ∈ d.flags ∨ "--force" ∈ args)) := by
  fun_induction readCommand verb noColor d args with
  | case1 d =>
    obtain ⟨d', hd, hc⟩ := finish_eq_run h
    obtain rfl := Option.some.inj hd
    exact ⟨d, hc, fun _ => by simp⟩
  | case2 d rest =>
    obtain ⟨d', hd, hc⟩ := finish_eq_run h
    refine ⟨d', hc, ?_⟩
    rintro rfl
    obtain ⟨rfl, rfl⟩ := plainArguments_init hd
    simp
  | case3 d arg rest _ _ r hs => exact absurd h (switch_forces hs _ _)
  | case4 d arg _ _ d₁ rest hs ih =>
    have hstep : .force ∈ d₁.flags ↔ .force ∈ d.flags ∨ arg = "--force" := switch_forces hs
    obtain ⟨d', hc, hf⟩ := ih h
    refine ⟨d', hc, fun hv => (hf hv).trans ?_⟩
    rw [hstep, List.mem_cons, or_assoc, eq_comm]
  | case5 => cases h
  | case6 => cases h
  | case7 d arg _ _ d₁ s v rest hs hv d₂ hd₂ ih =>
    have hstep : .force ∈ d₁.flags ↔ .force ∈ d.flags ∨ arg = "--force" := switch_forces hs
    have hne : "--force" ≠ v := fun e => hv (e ▸ looksLikeSwitch_force)
    obtain ⟨d', hc, hf⟩ := ih h
    refine ⟨d', hc, fun hv => (hf hv).trans ?_⟩
    rw [flags_value? hd₂, hstep, List.mem_cons, List.mem_cons, or_assoc, eq_comm]
    simp [hne]
  | case8 => cases h
  | case9 d arg rest _ hl d₁ hd₁ ih =>
    obtain ⟨d', hc, hf⟩ := ih h
    refine ⟨d', hc, ?_⟩
    rintro rfl
    simp [Draft.argument?] at hd₁
  | case10 => cases h

theorem readGeneral_init {force nc : Bool} {d : Draft} {args : List String}
    (h : readGeneral d args = .run (.init force) nc) : force = true ↔ "--force" ∈ args := by
  fun_induction readGeneral d args with
  | case1 => cases h
  | case2 d arg rest verb hv =>
    obtain ⟨d', hc, hf⟩ := readCommand_run h
    cases verb with
    | analyze => simp [Draft.command?] at hc
    | check => simp [Draft.command?] at hc
    | init =>
      have hforce : d'.has .force = force := by simpa [Draft.command?] using hc
      have hne : "--force" ≠ arg := by
        rintro rfl
        cases hv
      rw [← hforce, Draft.has, List.contains_iff_mem, hf rfl]
      simp [Draft.empty, hne]
  | case3 d rest =>
    unfold readHelp at h
    split at h
    · cases h
    · split at h <;> cases h
    · cases h
  | case4 d arg rest _ _ _ r hs => exact absurd h (switch_forces hs _ _)
  | case5 d arg rest _ _ _ d₁ hs ih =>
    have hne : "--force" ≠ arg := by
      rintro rfl
      cases hs
    exact (ih h).trans (by simp [hne])
  | case6 => cases h
  | case7 => cases h

/-- An `init` is told to overwrite exactly when `--force` is among the arguments. -/
theorem request_init {force noColor : Bool} {args : List String} (h : request args = .run (.init force) noColor) :
    force = true ↔ "--force" ∈ args :=
  readGeneral_init h

/-! ## One run -/

def settingsAddress (d : Disk) : Disk.Address := d.cwd ++ [Config.fileName]

def written (d : Disk) : Disk := d.put (settingsAddress d) (.file (some Config.template))

/-- Nothing keeps an `init` from writing: there is nothing in its way, or it was told to overwrite what is there and
    that is no directory. -/
def Clear (d : Disk) (force : Prop) : Prop :=
  d.entry? (settingsAddress d) = none ∨ force ∧ d.entry? (settingsAddress d) ≠ some .dir

def Writes (d : Disk) (args : List String) : Prop :=
  (∃ force noColor, request args = .run (.init force) noColor) ∧ Clear d ("--force" ∈ args)

theorem entry?_written (d : Disk) (l : Disk.Address) :
    Disk.entry? (written d) l = if l = settingsAddress d then some (.file (some Config.template)) else d.entry? l :=
  Disk.entry?_put (Disk.not_prefix_snoc _ _) _ _

theorem read_written (d : Disk) : (written d).read Config.fileName = .ok Config.template := by
  have he : Disk.entry? (written d) (settingsAddress (written d)) = some (.file (some Config.template)) :=
    (entry?_written d _).trans (if_pos rfl)
  have hr : (written d).resolve Config.fileName = .ok (settingsAddress (written d)) :=
    (Disk.resolve_name Disk.isName_fileName).trans (if_pos (Option.isSome_iff_exists.mpr ⟨_, he⟩))
  exact Disk.read_of_resolve hr he

theorem init_of_clear {d : Disk} {force : Bool} (h : Clear d (force = true)) :
    ∃ out, init d force = .ok (written d, out) := by
  have hhas : d.has Config.fileName = (d.entry? (settingsAddress d)).isSome := Disk.has_name Disk.isName_fileName
  have hfree : (d.has Config.fileName && !force) = false := by
    rcases h with h | ⟨h, -⟩
    · simp [hhas, h]
    · simp [h]
  have hwrite : d.write Config.fileName Config.template = .ok (written d) := by
    unfold Disk.write
    split
    · rename_i hdir
      rcases h with h | ⟨-, h⟩
      · exact absurd (h.symm.trans hdir) (by simp)
      · exact absurd hdir h
    · rfl
  rw [init, hfree, hwrite]
  exact ⟨_, rfl⟩

theorem init_of_not_clear {d : Disk} {force : Bool} (h : ¬Clear d (force = true)) :
    ∃ message, init d force = .error message := by
  have hhas : d.has Config.fileName = (d.entry? (settingsAddress d)).isSome := Disk.has_name Disk.isName_fileName
  unfold init
  split
  · exact ⟨_, rfl⟩
  · rename_i hfree
    -- something is there and the run was told to overwrite it, so it must be a directory
    have hdir : d.entry? (settingsAddress d) = some .dir := by
      obtain ⟨hsome, hforced⟩ := not_or.mp h
      have hforce : force = true := by
        simpa [hhas, Option.isSome_iff_ne_none.mpr hsome] using hfree
      exact Decidable.not_not.mp fun hdir => hforced ⟨hforce, hdir⟩
    have hwrite : d.write Config.fileName Config.template = .error .isDirectory := by
      unfold Disk.write
      simp only [settingsAddress] at hdir
      rw [hdir]
    rw [hwrite]
    exact ⟨_, rfl⟩

theorem run_of_writes {d : Disk} {args : List String} (h : Writes d args) (color : Bool) :
    (run d color args).1 = written d := by
  obtain ⟨⟨force, noColor, hr⟩, hc⟩ := h
  rw [← request_init hr] at hc
  obtain ⟨out, ho⟩ := init_of_clear hc
  simp only [run, hr, execute, ho]

/-- Whatever the arguments are, a run that does not write the settings leaves the disk as it was. -/
theorem run_of_not_writes {d : Disk} {args : List String} (h : ¬Writes d args) (color : Bool) :
    (run d color args).1 = d := by
  unfold run
  cases hr : request args with
  | version => rfl
  | help => rfl
  | misuse => rfl
  | run command noColor =>
    cases command with
    | analyze o =>
      simp only [execute]
      cases analyze d o (color && !noColor) <;> rfl
    | check o =>
      simp only [execute]
      cases check d o (color && !noColor) <;> rfl
    | init force =>
      have hc : ¬Clear d (force = true) := fun hc => h ⟨⟨force, noColor, hr⟩, propext (request_init hr) ▸ hc⟩
      obtain ⟨message, hm⟩ := init_of_not_clear hc
      simp only [execute, hm]

/-! ## Many runs -/

structure Call where
  color : Bool
  args : List String

def session (d : Disk) (calls : List Call) : Disk := calls.foldl (fun d c => (run d c.color c.args).1) d

theorem session_snoc (d : Disk) (calls : List Call) (c : Call) :
    session d (calls ++ [c]) = (run (session d calls) c.color c.args).1 := by
  simp [session, List.foldl_append]

/-- The same disk but for what stands at the place of the settings, which is what stood there or the template. -/
structure Kept (d d' : Disk) : Prop where
  cwd : d'.cwd = d.cwd
  elsewhere : ∀ l, l ≠ settingsAddress d → d'.entry? l = d.entry? l
  settings : d'.entry? (settingsAddress d) = d.entry? (settingsAddress d) ∨
    d'.entry? (settingsAddress d) = some (.file (some Config.template))

theorem Kept.refl (d : Disk) : Kept d d := ⟨rfl, fun _ _ => rfl, .inl rfl⟩

theorem Kept.written {d d' : Disk} (h : Kept d d') : Kept d (written d') := by
  have ha : settingsAddress d' = settingsAddress d := by rw [settingsAddress, settingsAddress, h.cwd]
  refine ⟨h.cwd, fun l hl => ?_, .inr ?_⟩
  · rw [entry?_written, if_neg (ha ▸ hl), h.elsewhere l hl]
  · rw [entry?_written, if_pos ha.symm]

theorem kept_run {d d' : Disk} (h : Kept d d') (color : Bool) (args : List String) : Kept d (run d' color args).1 := by
  by_cases hw : Writes d' args
  · rw [run_of_writes hw]
    exact h.written
  · rw [run_of_not_writes hw]
    exact h

theorem kept_session (d : Disk) (calls : List Call) : Kept d (session d calls) := by
  have hrun : ∀ d', Kept d d' → Kept d (session d' calls) := by
    induction calls with
    | nil => exact fun _ h => h
    | cons c calls ih => exact fun d' h => ih _ (kept_run h c.color c.args)
  exact hrun d (.refl d)

/-- After any calls everything but the settings in the working directory is as it was. The next call changes these
    only if it is an `init` that found nothing there, or no directory and was given `--force`: then they are the
    template. Any other call leaves the disk as it found it. -/
theorem session_frame (d : Disk) (calls : List Call) (c : Call) :
    (∀ l, l ≠ settingsAddress d → Disk.entry? (session d calls) l = d.entry? l) ∧
      (Disk.entry? (session d calls) (settingsAddress d) = d.entry? (settingsAddress d) ∨
        Disk.entry? (session d calls) (settingsAddress d) = some (.file (some Config.template))) ∧
      (Writes (session d calls) c.args →
        (∀ l, Disk.entry? (session d (calls ++ [c])) l =
          if l = settingsAddress d then some (.file (some Config.template)) else Disk.entry? (session d calls) l) ∧
        (session d (calls ++ [c])).read Config.fileName = .ok Config.template) ∧
      (¬Writes (session d calls) c.args → session d (calls ++ [c]) = session d calls) := by
  have h := kept_session d calls
  have ha : settingsAddress (session d calls) = settingsAddress d := by rw [settingsAddress, settingsAddress, h.cwd]
  refine ⟨h.elsewhere, h.settings, fun hw => ?_, fun hw => ?_⟩
  · rw [session_snoc, run_of_writes hw, ← ha]
    exact ⟨entry?_written _, read_written _⟩
  · rw [session_snoc, run_of_not_writes hw]

def desk : Disk := ⟨[(["work"], .dir), (["work", "a.ts"], .file (some "text"))], ["work"]⟩

/-- The first `init` writes and the second does not, and the file beside the settings stays. -/
theorem session_frame_desk :
    Writes desk ["init"] ∧ ¬Writes (session desk [⟨false, ["init"]⟩]) ["init"] ∧
      Disk.entry? (session desk [⟨false, ["init"]⟩]) ["work", "a.ts"] = some (.file (some "text")) ∧
      (session desk [⟨false, ["init"]⟩]).read Config.fileName = .ok Config.template ∧
      session desk [⟨false, ["init"]⟩, ⟨false, ["init"]⟩] = session desk [⟨false, ["init"]⟩] := by
  have hinit : ∃ force noColor, request ["init"] = .run (.init force) noColor := ⟨false, false, by decide⟩
  have hfirst : Writes desk ["init"] := ⟨hinit, .inl (by decide)⟩
  obtain ⟨-, -, hwrites, -⟩ := session_frame desk [] ⟨false, ["init"]⟩
  obtain ⟨hentry, hread⟩ := hwrites hfirst
  obtain ⟨hfile, -, -, hkept⟩ := session_frame desk [⟨false, ["init"]⟩] ⟨false, ["init"]⟩
  have ha : settingsAddress (session desk [⟨false, ["init"]⟩]) = settingsAddress desk :=
    congrArg (· ++ [Config.fileName]) (kept_session desk _).cwd
  have hsecond : ¬Writes (session desk [⟨false, ["init"]⟩]) ["init"] := by
    rintro ⟨-, h | ⟨h, -⟩⟩
    · rw [ha] at h
      exact absurd ((hentry _).symm.trans h) (by simp)
    · exact absurd h (by decide)
  exact ⟨hfirst, hsecond, hfile _ (by decide), hread, hkept hsecond⟩

/-- A directory in the place of the settings is never written over. -/
example : ¬Writes ⟨[(["work", ".strata.toml"], .dir)], ["work"]⟩ ["init", "--force"] := by
  rintro ⟨-, h | ⟨-, h⟩⟩
  · exact absurd h (by decide)
  · exact absurd h (by decide)

end Cli

end LayerLint
