import Fenceline.Proofs.Config.Nearest

/-!
# Where each setting comes from

The nearest table gives the settings it has a name for, the defaults the others. Then the environment may name another
executable, and what the caller gives comes before all.

**The laws.** `load_nearest`: the whole of it. `get_of_ofValue`: a table gives the settings that it names.
`effective_of_build`: a configuration has, for every setting, the value that comes first.
-/

namespace Fenceline.Config

variable {v : Setting} {entries : Table} {file : Path} {key : List Text}

/-! ## What a table gives -/

/-- The values of a table by the names of settings, in which an underscore may be written as a hyphen. -/
def byName (entries : Table) : Keyed Text Setting :=
  Keyed.ofList (entries.map fun p => (Settings.unhyphenated p.1, p.2))

/-- **A table of settings**: a mapping of which every name is the name of a setting. -/
def OfSettings (v : Setting) (entries : Table) : Prop :=
  v = .table entries ∧ ∀ p ∈ entries, ∃ f : Field, f.name.toList = Settings.unhyphenated p.1

theorem isSome_ofTable?_iff :
    (Settings.ofTable? (.table entries)).isSome ↔
      ∀ p ∈ entries, ∃ f : Field, f.name.toList = Settings.unhyphenated p.1 := by
  rw [Settings.ofTable?, Settings.isSome_setAll?_iff]
  simp only [List.forall_mem_map]

/-- **A table of settings gives those that it names, the defaults for the others.** -/
theorem get_of_ofValue (h : OfSettings v entries) :
    ∃ s, Settings.ofValue v file key = .ok s ∧
      ∀ f : Field, s.get f = ((byName entries).get? f.name.toList).getD (({} : Settings).get f) := by
  obtain ⟨rfl, hnames⟩ := h
  obtain ⟨s, hs⟩ := Option.isSome_iff_exists.1 (isSome_ofTable?_iff.2 hnames)
  exact ⟨s, by rw [Settings.ofValue, hs], fun f => Settings.get_of_setAll? hs f⟩

/-- **Anything else is a fault of the configuration.** -/
theorem ofValue_eq_badTable (hnull : v ≠ .null) (h : ∀ entries, ¬ OfSettings v entries) :
    Settings.ofValue v file key = .error (.config (.badTable key file)) := by
  have hnone : Settings.ofTable? v = none := by
    cases v with
    | null => exact absurd rfl hnull
    | table entries =>
      rw [← Option.not_isSome_iff_eq_none, isSome_ofTable?_iff]
      exact fun hnames => h entries ⟨rfl, hnames⟩
    | _ => rfl
  rw [Settings.ofValue, hnone]

/-! ## What comes first -/

/-- What a setting is before the caller is asked: the environment may name another executable. -/
def environed (h : Host) (s : Settings) : Field → Setting
  | .executable => (h.environment.get? executableVariable.toList).elim s.executable fun value => .text value.trim
  | f => s.get f

/-- **What comes first for a setting**: what the caller gives for it, unless that is nothing. -/
def effective (h : Host) (s : Settings) (overrides : List (Text × Setting)) (f : Field) : Setting :=
  ((Keyed.ofList (Settings.spoken overrides)).get? f.name.toList).getD (environed h s f)

variable {h : Host} {a : Absolute} {s s' : Settings} {c : Config} {overrides : List (Text × Setting)}

theorem get_environed (hexe : executableIn h.environment s.executable = .ok v) (f : Field) :
    ({ s with executable := v } : Settings).get f = environed h s f := by
  cases f with
  | executable =>
    unfold executableIn at hexe
    show v = Option.elim _ _ _
    split at hexe
    · rename_i hnone
      cases hexe
      rw [hnone, Option.elim_none]
    · rename_i value hvalue
      split at hexe
      · cases hexe
      · cases hexe
        rw [hvalue, Option.elim_some]
  | _ => rfl

theorem get_of_override (hover : s.override overrides = .ok s') (f : Field) :
    s'.get f = ((Keyed.ofList (Settings.spoken overrides)).get? f.name.toList).getD (s.get f) := by
  obtain ⟨⟨⟩, -, hover⟩ := bind_eq_ok.1 hover
  split at hover
  · cases hover
    exact Settings.get_of_setAll? ‹_› f
  · cases hover

/-- **What a configuration is made of**: the executable is a text, the variables are the names of a list, and the
limits are whole numbers. -/
structure MadeOf (c : Config) (value : Field → Setting) : Prop where
  executable : value .executable = .text c.executable
  passedOn : Names (value .passedOn) c.passedOn
  extractWorkers : value .extractWorkers = .int c.extractWorkers
  patchWorkers : value .patchWorkers = .int c.patchWorkers
  chunkSize : value .chunkSize = .int c.chunkSize

theorem eq_int_of_integer {f : Field} {n : Int} (hint : integer s f = .ok n) : s.get f = .int n := by
  unfold integer at hint
  split at hint
  · rename_i hget
    cases hint
    exact hget
  · cases hint

theorem madeOf_of_ofSettings (hnormal : s.normalize = .ok s') (hc : ofSettings s' = .ok c) : c.MadeOf s.get := by
  obtain ⟨s'', hnormal', hc⟩ := bind_eq_ok.1 hc
  have hget : ∀ f ≠ Field.passedOn, s''.get f = s.get f := fun f hf =>
    (get_of_normalize hnormal' hf).trans (get_of_normalize hnormal hf)
  split at hc
  · rename_i executable hexe
    split at hc
    · rename_i passedOn hnames
      obtain ⟨x, hx, hc⟩ := bind_eq_ok.1 hc
      obtain ⟨y, hy, hc⟩ := bind_eq_ok.1 hc
      obtain ⟨z, hz, hc⟩ := bind_eq_ok.1 hc
      obtain ⟨⟨⟩, -, hc⟩ := bind_eq_ok.1 hc
      obtain ⟨⟨⟩, -, hc⟩ := bind_eq_ok.1 hc
      obtain ⟨⟨⟩, -, hc⟩ := bind_eq_ok.1 hc
      cases hc
      exact {
        executable := (hget .executable (by decide)).symm.trans (eq_text_of_name? hexe)
        passedOn := names_of_normalize_normalize hnormal hnormal' (eq_list_of_names? hnames)
        extractWorkers := (hget .extractWorkers (by decide)).symm.trans (eq_int_of_integer hx)
        patchWorkers := (hget .patchWorkers (by decide)).symm.trans (eq_int_of_integer hy)
        chunkSize := (hget .chunkSize (by decide)).symm.trans (eq_int_of_integer hz) }
    · cases hc
  · cases hc

/-- **A configuration has, for every setting, the value that comes first**, and keeps the rules. -/
theorem effective_of_build (hbuild : build h a overrides = .ok c) :
    ∃ s, load h.tree a = .ok s ∧ c.MadeOf (effective h s overrides) ∧ c.Sound := by
  obtain ⟨⟨⟩, -, hbuild⟩ := bind_eq_ok.1 hbuild
  obtain ⟨s, hload, hbuild⟩ := bind_eq_ok.1 hbuild
  obtain ⟨executable, hexe, hbuild⟩ := bind_eq_ok.1 hbuild
  obtain ⟨given, hgiven, hbuild⟩ := bind_eq_ok.1 hbuild
  obtain ⟨normal, hnormal, hbuild⟩ := bind_eq_ok.1 hbuild
  have hget : given.get = effective h s overrides := by
    funext f
    rw [get_of_override hgiven, get_environed hexe, effective]
  exact ⟨s, hload, hget ▸ madeOf_of_ofSettings hnormal hbuild, sound_of_ofSettings hbuild⟩

/-! ## The whole of it -/

/-- **The settings are those of the nearest table**, where all files on the way to it can be looked into: it gives the
settings that it names, the others have their defaults, and it is a fault of the configuration if it is no mapping or
names anything else; without a table all settings have their defaults. A file on the way that cannot be looked into
is no fault of the configuration and ends the search. **And a configuration has the value that comes first** for every
setting: what the caller gives, or else, for the executable, what the environment says, or else that of the table. -/
theorem load_nearest (h : Host) (a : Absolute) :
    ((∀ place, Reached h.tree a place → Legible h.tree place.1) →
      ((∀ place ∈ places a, written? h.tree place = none) → load h.tree a = .ok {}) ∧
      ∀ place v, Reached h.tree a place → written? h.tree place = some v →
        (∀ entries, OfSettings v entries → ∃ s, load h.tree a = .ok s ∧
          ∀ f : Field, s.get f = ((byName entries).get? f.name.toList).getD (({} : Settings).get f)) ∧
        ((∀ entries, ¬ OfSettings v entries) →
          load h.tree a = .error (.config (.badTable place.2 (.ofAbsolute place.1))))) ∧
    ((∃ place, Reached h.tree a place ∧ ¬ Legible h.tree place.1) → ∃ e, load h.tree a = .error e ∧ Foreign e) ∧
    ∀ overrides c, build h a overrides = .ok c →
      ∃ s, load h.tree a = .ok s ∧ c.MadeOf (effective h s overrides) ∧ c.Sound := by
  refine ⟨fun hlegible => ⟨load_eq_default_of_none hlegible, fun place v hreached hwritten => ?_⟩, ?_, ?_⟩
  · rw [load_eq_ofValue hlegible hreached hwritten]
    exact ⟨fun entries => get_of_ofValue, ofValue_eq_badTable (ne_null_of_written? hwritten)⟩
  · rintro ⟨place, hreached, hillegible⟩
    exact exists_foreign_of_reached hreached hillegible
  · exact fun overrides c => effective_of_build

/-- The tree with these files and no others. -/
def treeOf (files : List (Absolute × Bytes)) : FileTree :=
  files.foldl (fun t file => t.put file.1 file.2) {}

/-- Whether a value is a table with one number in it. -/
def isOne (name : Text) (n : Int) : Option Setting → Bool
  | some (.table [(x, .int m)]) => x == name && m == n
  | _ => false

theorem eq_of_isOne {name : Text} {n : Int} {v : Option Setting} (h : isOne name n v = true) :
    v = some (.table [(name, .int n)]) := by
  unfold isOne at h
  split at h
  · rw [Bool.and_eq_true, beq_iff_eq, beq_iff_eq] at h
    rw [h.1, h.2]
  · cases h

/-- Below the nearest table are a file without one and a file that is no TOML, beside and above it are others; the
caller says nothing of one limit and something of another, and the environment names the executable. -/
theorem load_nearest_between :
    let directory := ["p".toList, "q".toList]
    let file (place : Absolute) (name text : String) : Absolute × Bytes :=
      (place ++ [name.toList], Utf8.encode text.toList)
    let tree := treeOf [
      file directory "pyproject.toml" "[tool.other]\n", file directory ".deno-report.toml" "x =\n",
      file ["p".toList] ".deno-report.toml" "[deno-report]\nchunk-size = 5\n[tool.deno-report]\nchunk_size = 6\n",
      file [] "pyproject.toml" "[tool.deno-report]\nchunk_size = 7\n"]
    let h : Host := ⟨tree, [], [], [(executableVariable.toList, " /bin/d ".toList)], 0⟩
    let place : Place := (["p".toList, ".deno-report.toml".toList], ["deno-report".toList])
    let overrides := [("chunk_size".toList, Setting.null), ("rewrite_concurrency".toList, .int 2)]
    (∀ place, Reached h.tree directory place → Legible h.tree place.1) ∧ Reached h.tree directory place ∧
      OfSettings (.table [("chunk-size".toList, .int 5)]) [("chunk-size".toList, .int 5)] ∧
      ∃ c, build h directory overrides = .ok c ∧ c.chunkSize = 5 ∧ c.patchWorkers = 2 ∧ c.extractWorkers = 10 ∧
        c.executable = "/bin/d".toList := by
  intro directory file tree h place overrides
  have hall : ∀ place ∈ places directory, Legible tree place.1 := by decide +kernel
  have hbefore : ∀ p ∈ (places directory).take 4, (written? tree p).isNone = true := by decide +kernel
  have hplaces : places directory = (places directory).take 4 ++ place :: (places directory).drop 5 := by decide +kernel
  have hlegible : ∀ p, Reached tree directory p → Legible tree p.1 := by
    rintro p ⟨before, after, heq, -⟩
    exact hall p (heq ▸ List.mem_append_right _ List.mem_cons_self)
  have hreached : Reached tree directory place :=
    ⟨_, _, hplaces, fun p hp => Option.isNone_iff_eq_none.1 (hbefore p hp)⟩
  have hwritten : written? tree place = some (.table [("chunk-size".toList, .int 5)]) :=
    eq_of_isOne (by decide +kernel)
  have hgiven : OfSettings (.table [("chunk-size".toList, .int 5)]) [("chunk-size".toList, .int 5)] :=
    ⟨rfl, List.forall_mem_singleton.2 ⟨.chunkSize, by decide⟩⟩
  obtain ⟨c, hc⟩ : Succeeds (build h directory overrides) := by decide +kernel
  obtain ⟨hfirst, -, hbuild⟩ := load_nearest h directory
  obtain ⟨s, hload, hs⟩ := ((hfirst hlegible).2 place _ hreached hwritten).1 _ hgiven
  obtain ⟨s', hload', hmade, -⟩ := hbuild overrides c hc
  cases hload.symm.trans hload'
  have hchunk : s.get .chunkSize = .int c.chunkSize := hmade.chunkSize
  have hworkers : s.get .extractWorkers = .int c.extractWorkers := hmade.extractWorkers
  exact ⟨hlegible, hreached, hgiven, c, hc, Setting.int.inj (hchunk.symm.trans (hs _)),
    (Setting.int.inj hmade.patchWorkers).symm, Setting.int.inj (hworkers.symm.trans (hs _)),
    (Setting.text.inj hmade.executable).symm⟩

/-- Bytes that are no text are not passed over, although what is nearest behind them is a table of settings. -/
theorem load_malformed :
    let tree := treeOf [
      (["pyproject.toml".toList], [0xFF]),
      ([".deno-report.toml".toList], Utf8.encode "[deno-report]\nchunk_size = 5\n".toList)]
    let place : Place := ([".deno-report.toml".toList], ["deno-report".toList])
    Reached tree [] place ∧ written? tree place = some (.table [("chunk_size".toList, .int 5)]) ∧
      OfSettings (.table [("chunk_size".toList, .int 5)]) [("chunk_size".toList, .int 5)] ∧
      load tree [] = .error .malformedText := by
  intro tree place
  have hbefore : ∀ p ∈ (places []).take 1, (written? tree p).isNone = true := by decide +kernel
  exact ⟨⟨(places []).take 1, (places []).drop 2, by decide +kernel, fun p hp =>
    Option.isNone_iff_eq_none.1 (hbefore p hp)⟩, eq_of_isOne (by decide +kernel),
    ⟨rfl, List.forall_mem_singleton.2 ⟨.chunkSize, by decide⟩⟩, rfl⟩

end Fenceline.Config
