import Fenceline.Config.Lookup
import Fenceline.Proofs.Config.Settings
import Fenceline.Proofs.Toml.Written
import Mathlib.Data.List.Infix

/-!
# The nearest table

A configuration is written in a table of a file. There are three places for it in a directory, and the directories
are gone through from one up to the root (`places`). Files are looked at until a place holds a table; it alone gives
the settings, and without one there are the defaults.

**The laws.** `places_concat`: the places of a directory come before those of the one above it. `load_eq_ofValue`,
`load_eq_default_of_none`: the settings are those of the first table, or the defaults. `exists_foreign_of_reached`: a
file on the way that cannot be looked into ends the search.

**What the laws do not establish.** A file whose bytes are no text, or that holds a number of too many digits, is not
passed over like one that is no TOML: the search fails, and not for a fault of the configuration. So the laws say
what comes of files that are `Legible`, and that nothing comes of others.
-/

namespace Fenceline.Config

variable {t : FileTree} {a directory file : Absolute}

/-- A place for a table: a file, and the key that leads to the table in it. -/
abbrev Place := Absolute × List Text

/-- The places of a directory, in the order in which they are looked at. -/
def placesIn (directory : Absolute) : List Place :=
  let shared := ["tool".toList, "deno-report".toList]
  let own := ["deno-report".toList]
  let project := directory ++ ["pyproject.toml".toList]
  let dotfile := directory ++ [".deno-report.toml".toList]
  [(project, shared), (dotfile, own), (dotfile, shared)]

/-- The places of a directory and of those above it. -/
def places (a : Absolute) : List Place :=
  a.inits.reverse.flatMap placesIn

/-- The table that a file is. -/
def table? (t : FileTree) (file : Absolute) : Option Table :=
  match t.look [] (.ofAbsolute file) with
  | .ok (.file f) => (Utf8.decode? f.bytes).bind fun text => (Toml.read text).toOption
  | _ => none

/-- What is written at a place. -/
def written? (t : FileTree) (place : Place) : Option Setting :=
  (table? t place.1).bind fun root => (Setting.table root).at? place.2

/-- **A file that can be looked into**, if it is there: its path is not too long, its bytes are those of a text, and
there is no number of too many digits in it. -/
structure Legible (t : FileTree) (file : Absolute) : Prop where
  path : t.look [] (.ofAbsolute file) ≠ .error .nameTooLong
  text : ∀ f, t.look [] (.ofAbsolute file) = .ok (.file f) →
    ∃ text, Utf8.decode? f.bytes = some text ∧ ∀ digits, Toml.read text ≠ .error (.longNumeral digits)

/-- A place that is come to: nothing is written at those before it. -/
def Reached (t : FileTree) (a : Absolute) (place : Place) : Prop :=
  ∃ before after, places a = before ++ place :: after ∧ ∀ p ∈ before, written? t p = none

/-! ## The way up -/

/-- The directories that are gone through are the beginnings of the path, the longest first. -/
theorem upward_eq (a : Absolute) : upward a = a.inits.reverse := by
  refine List.ext_getElem (by simp [upward]) fun n hn hn' => ?_
  simp [upward, List.getElem_reverse]

/-- **A directory and the one above it**: its places come before all those from there on. -/
theorem places_concat (directory : Absolute) (name : Text) :
    places (directory ++ [name]) = placesIn (directory ++ [name]) ++ places directory := by
  have hinits : (directory ++ [name]).inits.reverse = (directory ++ [name]) :: directory.inits.reverse := by
    rw [List.inits_append, List.reverse_append]
    rfl
  rw [places, hinits, List.flatMap_cons, places]

/-! ## One place -/

theorem tableOf_of_legible (h : Legible t file) : tableOf t file = .ok (table? t file) := by
  unfold tableOf table?
  cases hlook : t.look [] (.ofAbsolute file) with
  | error fault =>
    cases fault with
    | nameTooLong => exact absurd hlook h.path
    | _ => rfl
  | ok node =>
    cases node with
    | directory => rfl
    | file f =>
      obtain ⟨text, htext, hshort⟩ := h.text f hlook
      simp only [htext, Option.bind_some]
      cases hread : Toml.read text with
      | ok root => rfl
      | error fault =>
        cases fault with
        | malformed => rfl
        | longNumeral digits => exact absurd hread (hshort digits)

/-- A failure that is no fault of the configuration. -/
def Foreign (e : Failure) : Prop :=
  ∀ fault, e ≠ .config fault

theorem exists_foreign_of_not_legible (h : ¬ Legible t file) : ∃ e, tableOf t file = .error e ∧ Foreign e := by
  unfold tableOf
  cases hlook : t.look [] (.ofAbsolute file) with
  | error fault =>
    cases fault with
    | nameTooLong => exact ⟨_, rfl, fun _ h => by cases h⟩
    | _ => exact absurd ⟨by simp [hlook], by simp [hlook]⟩ h
  | ok node =>
    cases node with
    | directory => exact absurd ⟨by simp [hlook], by simp [hlook]⟩ h
    | file f =>
      cases htext : Utf8.decode? f.bytes with
      | none => exact ⟨.malformedText, by simp [htext], fun _ h => by cases h⟩
      | some text =>
        cases hread : Toml.read text with
        | ok root => exact absurd ⟨by simp [hlook], by simp [hlook, htext, hread]⟩ h
        | error fault =>
          cases fault with
          | malformed => exact absurd ⟨by simp [hlook], by simp [hlook, htext, hread]⟩ h
          | longNumeral digits => exact ⟨.longNumeral digits, by simp [htext, hread], fun _ h => by cases h⟩

theorem legible_iff : Legible t file ↔ Succeeds (tableOf t file) := by
  constructor
  · exact fun h => ⟨_, tableOf_of_legible h⟩
  · intro h
    by_contra hnot
    obtain ⟨e, he, -⟩ := exists_foreign_of_not_legible hnot
    exact not_succeeds_error e (he ▸ h)

instance (t : FileTree) (file : Absolute) : Decidable (Legible t file) :=
  decidable_of_iff _ legible_iff.symm

/-! ## The search -/

/-- The settings of the first of several places where something is written. -/
def firstWritten (t : FileTree) : List Place → Except Failure Settings
  | [] => .ok {}
  | place :: rest => do
    match (← tableOf t place.1).bind fun root => (Setting.table root).at? place.2 with
    | some v => Settings.ofValue v (.ofAbsolute place.1) place.2
    | none => firstWritten t rest

theorem settingsIn_cons (file : Path) (root : Table) (key : List Text) (keys : List (List Text)) :
    settingsIn file root (key :: keys) =
      match (Setting.table root).at? key with
      | some v => (Settings.ofValue v file key).map some
      | none => settingsIn file root keys := by
  rw [settingsIn, List.findSome?_cons]
  cases (Setting.table root).at? key <;> rfl

/-- The places of a file come to what the file comes to. -/
theorem firstWritten_file {keys : List (List Text)} (hkeys : keys ≠ []) (rest : List Place) :
    firstWritten t (keys.map (file, ·) ++ rest) =
      (settingsOf t file keys >>= fun s => s.elim (firstWritten t rest) .ok) := by
  cases htable : tableOf t file with
  | error e =>
    cases keys with
    | nil => exact absurd rfl hkeys
    | cons key keys =>
      rw [List.map_cons, List.cons_append, firstWritten, settingsOf, htable]
      rfl
  | ok root =>
    clear hkeys
    rw [settingsOf, htable]
    cases root with
    | none =>
      induction keys with
      | nil => rfl
      | cons key keys ih =>
        rw [List.map_cons, List.cons_append, firstWritten, htable]
        exact ih
    | some root =>
      induction keys with
      | nil => rfl
      | cons key keys ih =>
        rw [List.map_cons, List.cons_append, firstWritten, htable]
        have hkeys : (some root).bind (fun root => (Setting.table root).at? key) = (Setting.table root).at? key := rfl
        simp only [bind, Except.bind, settingsIn_cons, hkeys] at ih ⊢
        cases (Setting.table root).at? key with
        | none => exact ih
        | some v =>
          dsimp only
          cases Settings.ofValue v (.ofAbsolute file) key <;> rfl

theorem firstSettings_eq {l : List (Absolute × List (List Text))} (h : ∀ c ∈ l, c.2 ≠ []) :
    firstSettings t l = firstWritten t (l.flatMap fun c => c.2.map (c.1, ·)) := by
  induction l with
  | nil => rfl
  | cons c l ih =>
    obtain ⟨hc, hl⟩ := List.forall_mem_cons.1 h
    rw [List.flatMap_cons, firstWritten_file hc, ← ih hl, firstSettings]
    congr 1
    funext s
    cases s <;> rfl

/-- **The search goes through the places.** -/
theorem load_eq (t : FileTree) (a : Absolute) : load t a = firstWritten t (places a) := by
  have hplaces : places a = (candidates a).flatMap fun c => c.2.map (c.1, ·) := by
    rw [places, candidates, upward_eq, List.flatMap_assoc]
    rfl
  rw [hplaces, load, firstSettings_eq]
  intro c hc
  have hsources : ∀ source ∈ sources, source.2 ≠ [] := by decide
  obtain ⟨directory, -, hc⟩ := List.mem_flatMap.1 hc
  obtain ⟨source, hsource, rfl⟩ := List.mem_map.1 hc
  exact hsources source hsource

/-! ## What the search comes to -/

variable {place : Place} {before after rest : List Place} {v : Setting}

theorem firstWritten_cons_of_legible (h : Legible t place.1) (rest : List Place) :
    firstWritten t (place :: rest) =
      (written? t place).elim (firstWritten t rest) (Settings.ofValue · (.ofAbsolute place.1) place.2) := by
  rw [firstWritten, tableOf_of_legible h]
  show (match written? t place with
    | some v => _
    | none => _) = _
  cases written? t place <;> rfl

/-- Places without a table are passed over. -/
theorem firstWritten_append (hlegible : ∀ p ∈ before, Legible t p.1) (hnone : ∀ p ∈ before, written? t p = none) :
    firstWritten t (before ++ rest) = firstWritten t rest := by
  induction before with
  | nil => rfl
  | cons p before ih =>
    obtain ⟨hp, hbefore⟩ := List.forall_mem_cons.1 hlegible
    obtain ⟨hpnone, hnone⟩ := List.forall_mem_cons.1 hnone
    rw [List.cons_append, firstWritten_cons_of_legible hp, hpnone]
    exact ih hbefore hnone

theorem Reached.of_places (h : places a = before ++ rest) (hnone : ∀ p ∈ before, written? t p = none) :
    ∀ p ∈ before, Reached t a p := by
  intro p hp
  obtain ⟨first, last, rfl⟩ := List.append_of_mem hp
  exact ⟨first, last ++ rest, by simpa using h, fun q hq => hnone q (List.mem_append_left _ hq)⟩

/-- **Without a table there are the defaults.** -/
theorem load_eq_default_of_none (hlegible : ∀ p, Reached t a p → Legible t p.1)
    (hnone : ∀ p ∈ places a, written? t p = none) : load t a = .ok {} := by
  have hplaces : places a = places a ++ [] := (List.append_nil _).symm
  rw [load_eq, hplaces, firstWritten_append (fun p hp => hlegible p (Reached.of_places hplaces hnone p hp)) hnone]
  rfl

/-- **The first table alone gives the settings.** -/
theorem load_eq_ofValue (hlegible : ∀ p, Reached t a p → Legible t p.1) (hreached : Reached t a place)
    (hwritten : written? t place = some v) : load t a = Settings.ofValue v (.ofAbsolute place.1) place.2 := by
  obtain ⟨before, after, hplaces, hnone⟩ := id hreached
  rw [load_eq, hplaces, firstWritten_append (fun p hp => hlegible p (Reached.of_places hplaces hnone p hp)) hnone,
    firstWritten_cons_of_legible (hlegible place hreached), hwritten]
  rfl

/-- **A file on the way that cannot be looked into ends the search.** -/
theorem exists_foreign_of_reached (hreached : Reached t a place) (h : ¬ Legible t place.1) :
    ∃ e, load t a = .error e ∧ Foreign e := by
  obtain ⟨before, after, hplaces, hnone⟩ := hreached
  rw [load_eq, hplaces]
  clear hplaces
  induction before with
  | nil =>
    obtain ⟨e, he, hforeign⟩ := exists_foreign_of_not_legible h
    exact ⟨e, by rw [List.nil_append, firstWritten, he]; rfl, hforeign⟩
  | cons p before ih =>
    obtain ⟨hp, hbefore⟩ := List.forall_mem_cons.1 hnone
    by_cases hlegible : Legible t p.1
    · rw [List.cons_append, firstWritten_cons_of_legible hlegible, hp]
      exact ih hbefore
    · obtain ⟨e, he, hforeign⟩ := exists_foreign_of_not_legible hlegible
      exact ⟨e, by rw [List.cons_append, firstWritten, he]; rfl, hforeign⟩

/-- A place where something is written holds what a document can say. -/
theorem ne_null_of_written? (h : written? t place = some v) : v ≠ .null := by
  obtain ⟨root, hroot, hat⟩ := Option.bind_eq_some_iff.1 h
  unfold table? at hroot
  split at hroot
  · obtain ⟨text, -, hread⟩ := Option.bind_eq_some_iff.1 hroot
    cases hok : Toml.read text with
    | error fault =>
      rw [hok] at hread
      cases hread
    | ok table =>
      rw [hok] at hread
      cases hread
      exact Toml.at?_of_read hok hat
  · cases hroot

end Fenceline.Config
