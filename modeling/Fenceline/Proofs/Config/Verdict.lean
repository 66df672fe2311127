import Fenceline.Proofs.Config.Effective

/-!
# What comes of a configuration

Whatever the files, the environment and the caller say for the settings, it comes to a configuration that keeps the
rules, or it is a fault of the configuration.

**The law** (`build_verdict`): a configuration is returned just if the values that come first make one that keeps the
rules; and anything else is a fault of the configuration just if the configuration is `Decided`.

**What the law does not establish.** Names of variables are told apart before they are checked, so a list or a table
among them is not refused like a number among them, and the building fails in a way of its own. The same holds of a
file on the way that cannot be looked into. `build_undecided` has one of each.
-/

namespace Fenceline

namespace Setting

variable {items kept : List Setting}

/-- **A list with a list or a table in it.** -/
def Nested (v : Setting) : Prop :=
  ∃ items, v = .list items ∧ ∃ w ∈ items, Toml.isCompound w = true

theorem scalar?_eq_none_iff {w : Setting} : w.scalar? = none ↔ Toml.isCompound w = true := by
  cases w <;> simp [scalar?, Toml.isCompound]

/-- **Values can be told apart if none of them holds others.** -/
theorem succeeds_distinct_iff : Succeeds (distinct items) ↔ ∀ w ∈ items, Toml.isCompound w = false := by
  unfold distinct
  rw [succeeds_bind_iff]
  simp only [pure, Except.pure, succeeds_ok, and_true]
  change Succeeds _ ↔ _
  rw [succeeds_mapM_iff]
  refine forall₂_congr fun w _ => ?_
  rw [← Bool.not_eq_true, ← scalar?_eq_none_iff]
  cases w.scalar? with
  | none => exact iff_of_false (not_succeeds_error _) (by simp)
  | some s => exact iff_of_true (succeeds_ok _) (by simp)

theorem failsWith_distinct (items : List Setting) : FailsWith (· = .nestedNames) (distinct items) := by
  refine (failsWith_mapM fun w _ => ?_).bind fun _ _ => failsWith_ok _
  split
  · exact failsWith_ok _
  · exact failsWith_error rfl

/-- Nothing is left that was not there. -/
theorem subset_of_distinct (h : distinct items = .ok kept) : kept ⊆ items := by
  obtain ⟨pairs, rfl, -, rfl⟩ := exists_pairs_of_distinct h
  exact List.map_subset _ (foldl_keep_subset pairs)

/-- **Of names each is left once.** -/
theorem distinct_names (names : List Text) : distinct (names.map .text) = .ok (names.eraseDups.map .text) := by
  have hkept : ((names.map told).foldl keep []).map (·.2) = names.eraseDups.map .text := by
    rw [foldl_keep_told, List.map_map]
    rfl
  refine bind_eq_ok.2 ⟨names.map told, ?_, congrArg Except.ok hkept⟩
  rw [List.mapM_map]
  exact mapM_eq_ok_map fun name _ => rfl

end Setting

namespace Settings

variable {s s' : Settings}

open Setting

/-- **Settings can be made normal unless there is a list or a table among the names of variables.** -/
theorem succeeds_normalize_iff : Succeeds s.normalize ↔ ¬ Nested s.passedOn := by
  unfold normalize Nested
  split
  · rename_i name hname
    rw [hname]
    exact iff_of_true (succeeds_ok _) fun ⟨_, h, _⟩ => nomatch h
  · rename_i names hnames
    have hbind : Succeeds (distinct names >>= fun kept => .ok { s with passedOn := .list kept }) ↔
        Succeeds (distinct names) :=
      succeeds_bind_iff.trans ⟨fun ⟨kept, h, _⟩ => ⟨kept, h⟩, fun ⟨kept, h⟩ => ⟨kept, h, succeeds_ok _⟩⟩
    rw [hnames]
    refine hbind.trans (succeeds_distinct_iff.trans ?_)
    simp
  · rename_i hlist
    exact iff_of_true (succeeds_ok _) fun ⟨items, h, _⟩ => hlist items h

theorem failsWith_normalize (s : Settings) : FailsWith (· = .nestedNames) s.normalize := by
  unfold normalize
  split
  · exact failsWith_ok _
  · exact (failsWith_distinct _).bind fun _ _ => failsWith_ok _
  · exact failsWith_ok _

/-- Settings that were made normal can be made normal again. -/
theorem succeeds_normalize_of_normalize (h : s.normalize = .ok s') : Succeeds s'.normalize := by
  have hflat := succeeds_normalize_iff.1 ⟨s', h⟩
  rw [succeeds_normalize_iff]
  unfold normalize at h
  split at h
  · cases h
    rintro ⟨items, hitems, w, hw, hcompound⟩
    cases hitems
    rw [List.mem_singleton.1 hw] at hcompound
    cases hcompound
  · rename_i names hnames
    obtain ⟨kept, hkept, h⟩ := bind_eq_ok.1 h
    cases h
    rintro ⟨items, hitems, w, hw, hcompound⟩
    cases hitems
    exact hflat ⟨names, hnames, w, subset_of_distinct hkept hw, hcompound⟩
  · cases h
    exact hflat

end Settings

namespace Config

variable {h : Host} {a : Absolute} {t : FileTree} {s s' : Settings} {c : Config} {v : Setting} {names : List Text}

/-! ## Checking settings -/

/-- A failure that is a fault of the configuration. -/
def Faulty (e : Failure) : Prop :=
  ∃ fault, e = .config fault

theorem not_faulty_of_foreign {e : Failure} (hforeign : Foreign e) : ¬ Faulty e :=
  fun ⟨fault, he⟩ => hforeign fault he

theorem failsWith_integer (s : Settings) (f : Field) : FailsWith Faulty (integer s f) := by
  unfold integer
  split
  · exact failsWith_ok _
  · exact failsWith_error ⟨_, rfl⟩

theorem failsWith_positive (f : Field) (n : Int) : FailsWith Faulty (positive f n) := by
  unfold positive
  split
  · exact failsWith_ok _
  · exact failsWith_error ⟨_, rfl⟩

/-- Settings that can be made normal fail the check for a fault of theirs. -/
theorem failsWith_ofSettings (hnormal : Succeeds s.normalize) : FailsWith Faulty (ofSettings s) := by
  obtain ⟨s', hs'⟩ := hnormal
  unfold ofSettings
  rw [hs']
  refine (failsWith_ok _).bind fun s'' _ => ?_
  split
  · split
    · refine (failsWith_integer _ _).bind fun x _ => (failsWith_integer _ _).bind fun y _ => ?_
      refine (failsWith_integer _ _).bind fun z _ => (failsWith_positive _ _).bind fun _ _ => ?_
      exact (failsWith_positive _ _).bind fun _ _ => (failsWith_positive _ _).bind fun _ _ => failsWith_ok _
    · exact failsWith_error ⟨_, rfl⟩
  · exact failsWith_error ⟨_, rfl⟩

/-- Names of variables are written as a list of them once settings are made normal. -/
theorem normalize_of_names (hnames : Names s.passedOn names) :
    s.normalize = .ok { s with passedOn := .list (names.map .text) } := by
  unfold Settings.normalize
  generalize hpassed : s.passedOn = written at hnames
  cases hnames with
  | one name => rfl
  | list all => exact congrArg (· >>= fun kept => .ok { s with passedOn := .list kept }) (Setting.distinct_names all)

theorem name?_text {name : Text} (hne : name ≠ []) : name? (.text name) = some name := by
  cases name with
  | nil => exact absurd rfl hne
  | cons x name => rfl

theorem names?_names (hne : ∀ name ∈ names, name ≠ []) : names? (.list (names.map .text)) = some names := by
  show (names.map Setting.text).mapM name? = some names
  induction names with
  | nil => rfl
  | cons name names ih =>
    obtain ⟨hname, hnames⟩ := List.forall_mem_cons.1 hne
    rw [List.map_cons, List.mapM_cons, name?_text hname, ih hnames]
    rfl

theorem integer_of_get {f : Field} {n : Int} (hget : s.get f = .int n) : integer s f = .ok n := by
  rw [integer, hget]

theorem positive_of_pos (f : Field) {n : Int} (hpos : 0 < n) : positive f n = .ok () :=
  if_pos hpos

/-- **What a sound configuration is made of passes the check.** -/
theorem ofSettings_of_madeOf (hmade : c.MadeOf s.get) (hsound : c.Sound) : (s.normalize >>= ofSettings) = .ok c := by
  let s' := { s with passedOn := .list (c.passedOn.map .text) }
  have hpassed : Names s.passedOn c.passedOn := hmade.passedOn
  have hagain : Names s'.passedOn c.passedOn := by
    have hlist : Names (.list (c.passedOn.map .text)) c.passedOn.eraseDups := .list c.passedOn
    rwa [eraseDups_of_nodup hpassed.nodup] at hlist
  have hexecutable : name? s'.executable = some c.executable := by
    have hwritten : s.executable = .text c.executable := hmade.executable
    show name? s.executable = _
    rw [hwritten, name?_text hsound.executable]
  have hnames : names? s'.passedOn = some c.passedOn := names?_names hsound.passedOn
  have hx : integer s' .extractWorkers = .ok c.extractWorkers := integer_of_get hmade.extractWorkers
  have hy : integer s' .patchWorkers = .ok c.patchWorkers := integer_of_get hmade.patchWorkers
  have hz : integer s' .chunkSize = .ok c.chunkSize := integer_of_get hmade.chunkSize
  refine bind_eq_ok.2 ⟨s', normalize_of_names hpassed, bind_eq_ok.2 ⟨s', normalize_of_names hagain, ?_⟩⟩
  rw [hexecutable, hnames]
  refine bind_eq_ok.2 ⟨_, hx, bind_eq_ok.2 ⟨_, hy, bind_eq_ok.2 ⟨_, hz, ?_⟩⟩⟩
  refine bind_eq_ok.2 ⟨(), positive_of_pos _ hsound.extractWorkers, ?_⟩
  refine bind_eq_ok.2 ⟨(), positive_of_pos _ hsound.patchWorkers, ?_⟩
  exact bind_eq_ok.2 ⟨(), positive_of_pos _ hsound.chunkSize, rfl⟩

/-- **The check passes just what makes a sound configuration.** -/
theorem ofSettings_eq_ok_iff : (s.normalize >>= ofSettings) = .ok c ↔ c.MadeOf s.get ∧ c.Sound := by
  constructor
  · intro hok
    obtain ⟨s', hnormal, hok⟩ := bind_eq_ok.1 hok
    exact ⟨madeOf_of_ofSettings hnormal hok, sound_of_ofSettings hok⟩
  · exact fun ⟨hmade, hsound⟩ => ofSettings_of_madeOf hmade hsound

/-! ## Finding settings -/

theorem failsWith_ofValue (v : Setting) (file : Path) (key : List Text) :
    FailsWith Faulty (Settings.ofValue v file key) := by
  unfold Settings.ofValue
  split
  · exact failsWith_ok _
  · exact failsWith_error ⟨_, rfl⟩

/-- Something is written at one of several places, or at none. -/
theorem exists_reached (hsome : ¬ ∀ p ∈ places a, written? t p = none) :
    ∃ place v, Reached t a place ∧ written? t place = some v := by
  cases hfind : (places a).find? fun p => (written? t p).isSome with
  | none => exact absurd (fun p hp => Option.not_isSome_iff_eq_none.1 (List.find?_eq_none.1 hfind p hp)) hsome
  | some place =>
    obtain ⟨hwritten, before, after, hplaces, hnone⟩ := List.find?_eq_some_iff_append.1 hfind
    obtain ⟨v, hv⟩ := Option.isSome_iff_exists.1 hwritten
    exact ⟨place, v, ⟨before, after, hplaces, fun p hp => by simpa using hnone p hp⟩, hv⟩

/-- Where all files on the way can be looked into, the search fails for a fault of the configuration. -/
theorem failsWith_load (hlegible : ∀ place, Reached t a place → Legible t place.1) : FailsWith Faulty (load t a) := by
  by_cases hnone : ∀ p ∈ places a, written? t p = none
  · rw [load_eq_default_of_none hlegible hnone]
    exact failsWith_ok _
  · obtain ⟨place, v, hreached, hwritten⟩ := exists_reached hnone
    rw [load_eq_ofValue hlegible hreached hwritten]
    exact failsWith_ofValue v _ _

/-- **What ends a search that is not a fault of the configuration.** -/
inductive Obstacle : Failure → Prop
  | bytes : Obstacle .malformedText
  | number (digits : Nat) : Obstacle (.longNumeral digits)
  | path (file : Path) : Obstacle (.refused file .nameTooLong)

theorem failsWith_tableOf (t : FileTree) (file : Absolute) : FailsWith Obstacle (tableOf t file) := by
  unfold tableOf
  split
  · exact failsWith_error (.path _)
  · exact failsWith_ok _
  · exact failsWith_ok _
  · split
    · exact failsWith_error .bytes
    · split
      · exact failsWith_ok _
      · exact failsWith_ok _
      · exact failsWith_error (.number _)

theorem failsWith_firstWritten (t : FileTree) (l : List Place) :
    FailsWith (fun e => Faulty e ∨ Obstacle e) (firstWritten t l) := by
  induction l with
  | nil => exact failsWith_ok _
  | cons place rest ih =>
    rw [firstWritten]
    refine FailsWith.bind (fun e he => .inr (failsWith_tableOf t place.1 e he)) fun root _ => ?_
    split
    · exact fun e he => .inl (failsWith_ofValue _ _ _ e he)
    · exact ih

/-! ## The whole of it -/

/-- **The environment does not name the executable with nothing.** -/
def Named (h : Host) : Prop :=
  ∀ value, h.environment.get? executableVariable.toList = some value → value.trim ≠ []

theorem succeeds_executableIn_iff : Succeeds (executableIn h.environment v) ↔ Named h := by
  unfold executableIn Named
  cases h.environment.get? executableVariable.toList with
  | none => exact iff_of_true (succeeds_ok _) nofun
  | some value =>
    dsimp only
    split
    · rename_i hblank
      exact iff_of_false (not_succeeds_error _) fun hnamed => hnamed value rfl (List.isEmpty_iff.1 hblank)
    · rename_i hnamed
      refine iff_of_true (succeeds_ok _) fun value' hvalue => ?_
      rw [← Option.some.inj hvalue]
      exact fun hblank => hnamed (List.isEmpty_iff.2 hblank)

theorem failsWith_executableIn (environment : Keyed Text Text) (v : Setting) :
    FailsWith Faulty (executableIn environment v) := by
  unfold executableIn
  split
  · exact failsWith_ok _
  · split
    · exact failsWith_error ⟨_, rfl⟩
    · exact failsWith_ok _

/-- An executable can be given, and nothing is said of the variables by it. -/
theorem exists_override_executable (s : Settings) (v : Setting) :
    ∃ s', s.override [("executable".toList, v)] = .ok s' ∧ s'.passedOn = s.passedOn := by
  cases v with
  | null => exact ⟨s, rfl, rfl⟩
  | _ => exact ⟨{ s with executable := _ }, rfl, rfl⟩

/-- What an executable that is given comes to: the search, the environment, and the check. -/
theorem build_executable (h : Host) (a : Absolute) (v : Setting) :
    build h a [("executable".toList, v)] = (load h.tree a >>= fun s =>
      executableIn h.environment s.executable >>= fun executable =>
        ({ s with executable } : Settings).override [("executable".toList, v)] >>= fun s => s.normalize >>= ofSettings) :=
  rfl

/-- **A configuration that can be decided on**: all files on the way to the nearest table can be looked into, and
unless the environment decides already, there is no list and no table among the names of variables. -/
structure Decided (h : Host) (a : Absolute) : Prop where
  legible : ∀ place, Reached h.tree a place → Legible h.tree place.1
  flat : ∀ s, load h.tree a = .ok s → Named h → ¬ s.passedOn.Nested

/-- What is decided on fails for a fault of the configuration. -/
theorem Decided.failsWith (hdecided : Decided h a) (v : Setting) :
    FailsWith Faulty (build h a [("executable".toList, v)]) := by
  rw [build_executable]
  refine (failsWith_load hdecided.legible).bind fun s hload => ?_
  refine (failsWith_executableIn _ _).bind fun executable hexecutable => ?_
  obtain ⟨s', hover, hpassed⟩ := exists_override_executable { s with executable } v
  have hflat : ¬ s'.passedOn.Nested := hpassed ▸ hdecided.flat s hload (succeeds_executableIn_iff.1 ⟨_, hexecutable⟩)
  rw [hover]
  refine (failsWith_ok _).bind fun given hgiven => ?_
  obtain rfl := Except.ok.inj hgiven
  obtain ⟨normal, hnormal⟩ := Settings.succeeds_normalize_iff.2 hflat
  rw [hnormal]
  exact failsWith_ofSettings (Settings.succeeds_normalize_of_normalize hnormal)

/-- What is not decided on fails in another way. -/
theorem exists_foreign_of_not_decided (hdecided : ¬ Decided h a) (v : Setting) :
    ∃ e, build h a [("executable".toList, v)] = .error e ∧ Foreign e := by
  rw [build_executable]
  by_cases hlegible : ∀ place, Reached h.tree a place → Legible h.tree place.1
  · have hnested : ∃ s, load h.tree a = .ok s ∧ Named h ∧ s.passedOn.Nested := by
      by_contra hnone
      exact hdecided ⟨hlegible, fun s hload hnamed hnested => hnone ⟨s, hload, hnamed, hnested⟩⟩
    obtain ⟨s, hload, hnamed, hnested⟩ := hnested
    obtain ⟨executable, hexecutable⟩ := succeeds_executableIn_iff.2 hnamed
    obtain ⟨s', hover, hpassed⟩ := exists_override_executable { s with executable } v
    have hnormal : s'.normalize = .error .nestedNames := by
      cases hnormal : s'.normalize with
      | error e => rw [Settings.failsWith_normalize s' e hnormal]
      | ok normal => exact absurd (hpassed ▸ hnested) (Settings.succeeds_normalize_iff.1 ⟨normal, hnormal⟩)
    refine ⟨.nestedNames, ?_, nofun⟩
    rw [hload]
    show (executableIn h.environment s.executable >>= _) = _
    rw [hexecutable]
    show (Settings.override { s with executable } _ >>= _) = _
    rw [hover]
    show (s'.normalize >>= ofSettings) = _
    rw [hnormal]
    rfl
  · obtain ⟨place, hreached⟩ := not_forall.1 hlegible
    obtain ⟨hreached, hillegible⟩ := Classical.not_imp.1 hreached
    obtain ⟨e, hload, hforeign⟩ := exists_foreign_of_reached hreached hillegible
    exact ⟨e, by rw [hload]; rfl, hforeign⟩

/-- All the ways in which building fails. -/
theorem failsWith_build (h : Host) (a : Absolute) (v : Setting) :
    FailsWith (fun e => Faulty e ∨ e = .nestedNames ∨ Obstacle e) (build h a [("executable".toList, v)]) := by
  rw [build_executable, load_eq]
  refine FailsWith.bind (fun e he => (failsWith_firstWritten _ _ e he).imp id .inr) fun s _ => ?_
  refine FailsWith.bind (fun e he => .inl (failsWith_executableIn _ _ e he)) fun executable _ => ?_
  obtain ⟨s', hover, -⟩ := exists_override_executable { s with executable } v
  rw [hover]
  refine (failsWith_ok _).bind fun given _ => ?_
  refine FailsWith.bind (fun e he => .inr (.inl (Settings.failsWith_normalize given e he))) fun normal hnormal => ?_
  exact fun e he => .inl (failsWith_ofSettings (Settings.succeeds_normalize_of_normalize hnormal) e he)

/-- **What a configuration comes to** for a directory, whatever the files hold, the environment says and the caller
gives for the executable. A configuration is returned just if settings are found, the environment does not name the
executable with nothing, and the values that come first make a configuration that keeps the rules: then it is that
one. Otherwise it is a fault of the configuration just if it is `Decided`. And there are no other ways to fail than a
list or a table among the names of variables and a file that cannot be looked into. -/
theorem build_verdict (h : Host) (a : Absolute) (v : Setting) :
    let given := [("executable".toList, v)]
    (∀ c, build h a given = .ok c ↔
      ∃ s, load h.tree a = .ok s ∧ Named h ∧ c.MadeOf (effective h s given) ∧ c.Sound) ∧
    ((∃ c, build h a given = .ok c ∧ c.Sound) ∨ (∃ fault, build h a given = .error (.config fault)) ↔
      Decided h a) ∧
    ∀ e, build h a given = .error e → Faulty e ∨ e = .nestedNames ∨ Obstacle e := by
  intro given
  refine ⟨fun c => ⟨fun hbuild => ?_, ?_⟩, ⟨fun hcome => ?_, fun hdecided => ?_⟩, failsWith_build h a v⟩
  · obtain ⟨s, hload, hmade, hsound⟩ := effective_of_build hbuild
    rw [build_executable] at hbuild
    obtain ⟨s', hload', hbuild⟩ := bind_eq_ok.1 hbuild
    obtain ⟨executable, hexecutable, -⟩ := bind_eq_ok.1 hbuild
    exact ⟨s, hload, succeeds_executableIn_iff.1 ⟨executable, hexecutable⟩, hmade, hsound⟩
  · rintro ⟨s, hload, hnamed, hmade, hsound⟩
    obtain ⟨executable, hexecutable⟩ := succeeds_executableIn_iff.2 hnamed
    obtain ⟨s', hover, -⟩ := exists_override_executable { s with executable } v
    have hget : s'.get = effective h s given := by
      funext f
      rw [get_of_override hover, get_environed hexecutable, effective]
    rw [build_executable]
    refine bind_eq_ok.2 ⟨s, hload, bind_eq_ok.2 ⟨executable, hexecutable, bind_eq_ok.2 ⟨s', hover, ?_⟩⟩⟩
    exact ofSettings_eq_ok_iff.2 ⟨hget ▸ hmade, hsound⟩
  · by_contra hdecided
    obtain ⟨e, he, hforeign⟩ := exists_foreign_of_not_decided hdecided v
    rcases hcome with ⟨c, hc, -⟩ | ⟨fault, hfault⟩
    · cases hc.symm.trans he
    · cases hfault.symm.trans he
      exact hforeign fault rfl
  · cases hbuild : build h a given with
    | ok c =>
      obtain ⟨-, -, -, hsound⟩ := effective_of_build hbuild
      exact .inl ⟨c, rfl, hsound⟩
    | error e =>
      obtain ⟨fault, rfl⟩ := hdecided.failsWith v e hbuild
      exact .inr ⟨fault, rfl⟩

/-- The host with one file in its root. -/
def hostOf (bytes : Bytes) : Host :=
  ⟨treeOf [(["pyproject.toml".toList], bytes)], [], [], [], 0⟩

/-- A date and numbers where they do not belong are a fault of the configuration. -/
theorem build_verdict_dated :
    let h := hostOf (Utf8.encode
      "[tool.deno-report]\nchunk_size = 2024-01-01\nenv_passthrough = [1, 1.5, true, \"A\"]\n".toList)
    Decided h [] ∧ ∃ fault, build h [] [("executable".toList, .null)] = .error (.config fault) := by
  intro h
  have hall : ∀ place ∈ places [], Legible h.tree place.1 := by decide +kernel
  have hnormal : ∀ s ∈ (load h.tree []).toOption, Succeeds s.normalize := by decide +kernel
  have hdecided : Decided h [] := by
    refine ⟨?_, fun s hload _ => ?_⟩
    · rintro place ⟨before, after, heq, -⟩
      exact hall place (heq ▸ List.mem_append_right _ List.mem_cons_self)
    · exact Settings.succeeds_normalize_iff.1 (hnormal s (by rw [hload]; rfl))
  obtain ⟨-, hverdict, -⟩ := build_verdict h [] .null
  refine ⟨hdecided, (hverdict.2 hdecided).resolve_left ?_⟩
  rintro ⟨c, hc, -⟩
  have hfails : ¬ Succeeds (build h [] [("executable".toList, .null)]) := by decide +kernel
  exact hfails ⟨c, hc⟩

/-- A list among the names of variables, and bytes that are no text: there is no configuration, and no fault of the
configuration either. -/
theorem build_undecided :
    let nested := hostOf (Utf8.encode "[tool.deno-report]\nenv_passthrough = [[\"A\"]]\n".toList)
    let given := [("executable".toList, Setting.null)]
    build nested [] given = .error .nestedNames ∧ build (hostOf [0xFF]) [] given = .error .malformedText ∧
      ¬ Faulty .nestedNames ∧ ¬ Faulty .malformedText :=
  ⟨by decide +kernel, by decide +kernel, not_faulty_of_foreign nofun, not_faulty_of_foreign nofun⟩

end Config

end Fenceline
