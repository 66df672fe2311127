import Fenceline.CommandLine.Program
import Fenceline.Proofs.Config.Nearest
import Fenceline.Proofs.Distinct
import Fenceline.Proofs.Files.Found
import Fenceline.Proofs.Path.Spelling
import Fenceline.Proofs.Run.Prepared

/-!
# The files that a command is given

Paths are looked for from the working directory, and the files that are found are spelled anew, as seen from the
directory that the toolchain runs in. The new spelling leads from there to the place of the file
(`resolve_spelledFrom`), and a place has one such spelling only.

**The law** (`collects_exactly`): from where the toolchain runs, the files of a command lead to the places of the
files that are found, and the run has each place once among its results, its documents and its arguments, however
often and under whatever spelling the paths lead there.
-/

namespace Fenceline

namespace CommandLine

open Fenceline.Path (IsPlace)

variable {h : Host} {base place : Absolute} {paths found files : List Text}

/-! ## The spelling of a place -/

/-- Where a spelled file is, seen from a directory. -/
def placeFrom (directory : Absolute) (file : Text) : Absolute :=
  (Path.ofText file).resolve directory

theorem isPlace_placeFrom {directory : Absolute} (hdirectory : IsPlace directory) (file : Text) :
    IsPlace (placeFrom directory file) :=
  Path.isPlace_resolve hdirectory file

/-- **A place is where its spelling leads.** -/
theorem placeFrom_spelledFrom (hplace : IsPlace place) (base : Absolute) :
    placeFrom base (spelledFrom base place) = place := by
  obtain ⟨hspellable, hup⟩ := hplace
  unfold placeFrom spelledFrom
  split
  · rename_i hwithin
    obtain ⟨names, rfl⟩ := List.isPrefixOf_iff_prefix.1 hwithin
    rw [List.drop_left, Path.ofText_toText_relative fun name hname => hspellable name (List.mem_append_right _ hname)]
    exact Path.foldl_step (fun hmem => hup (List.mem_append_right _ hmem)) base
  · rw [Path.ofText_toText hspellable]
    exact Path.resolve_ofAbsolute hup

/-! ## What is collected -/

/-- The paths that are looked for: the directory that the toolchain runs in, if there are none. -/
def searched (base : Absolute) (paths : List Text) : List Text :=
  if paths.isEmpty then [(Path.ofAbsolute base).toText] else paths

theorem collect_eq (h : Host) (base : Absolute) (paths : List Text) : collect h base paths =
    h.tree.find h.cwd (searched base paths) (some supported) >>= fun found => found.mapM (respelled h.cwd base) :=
  rfl

theorem respelled_of_spelled {file : Text} (hspelled : (Path.ofText file).hasNull = false) (cwd base : Absolute) :
    respelled cwd base file = .ok (spelledFrom base (placeFrom cwd file)) :=
  if_neg (Bool.eq_false_iff.1 hspelled)

theorem failsWith_respelled (cwd base : Absolute) (file : Text) :
    FailsWith (· = .nullInPath) (respelled cwd base file) := by
  unfold respelled
  dsimp only
  split
  · exact failsWith_error rfl
  · exact failsWith_ok _

/-- What is found is collected if no null character is in it. -/
theorem collect_of_spelled (hfound : h.tree.find h.cwd (searched base paths) (some supported) = .ok found)
    (hspelled : ∀ file ∈ found, (Path.ofText file).hasNull = false) :
    collect h base paths = .ok (found.map fun file => spelledFrom base (placeFrom h.cwd file)) := by
  rw [collect_eq, hfound, ok_bind]
  exact mapM_eq_ok_map fun file hfile => respelled_of_spelled (hspelled file hfile) h.cwd base

/-- **A null character in what is found** keeps everything from being collected. -/
theorem collect_of_null (hfound : h.tree.find h.cwd (searched base paths) (some supported) = .ok found)
    (hnull : ∃ file ∈ found, (Path.ofText file).hasNull = true) : collect h base paths = .error .nullInPath := by
  obtain ⟨file, hfile, hnull⟩ := hnull
  rw [collect_eq, hfound, ok_bind]
  cases hdone : found.mapM (respelled h.cwd base) with
  | error failure =>
    rw [failsWith_mapM (fun file _ => failsWith_respelled h.cwd base file) failure hdone]
  | ok files =>
    obtain ⟨spelled, hspelled⟩ := succeeds_mapM_iff.1 ⟨files, hdone⟩ file hfile
    rw [respelled, if_pos hnull] at hspelled
    cases hspelled

/-- **The collected files are those that are found.** -/
theorem map_placeFrom_collected (hcwd : IsPlace h.cwd) (base : Absolute) (found : List Text) :
    (found.map fun file => spelledFrom base (placeFrom h.cwd file)).map (placeFrom base) =
      found.map (placeFrom h.cwd) := by
  rw [List.map_map]
  exact List.map_congr_left fun file _ => placeFrom_spelledFrom (isPlace_placeFrom hcwd file) base

/-- Different spellings of collected files are of different places. -/
theorem nodup_placeFrom_collected (hcwd : IsPlace h.cwd) (base : Absolute) (found : List Text) :
    ((found.map fun file => spelledFrom base (placeFrom h.cwd file)).eraseDups.map (placeFrom base)).Nodup := by
  refine List.Nodup.map_on (fun x hx y hy heq => ?_) (nodup_eraseDups _)
  obtain ⟨file, _, rfl⟩ := List.mem_map.1 (List.mem_eraseDups.1 hx)
  obtain ⟨other, _, rfl⟩ := List.mem_map.1 (List.mem_eraseDups.1 hy)
  rw [placeFrom_spelledFrom (isPlace_placeFrom hcwd file), placeFrom_spelledFrom (isPlace_placeFrom hcwd other)] at heq
  rw [heq]

/-! ## Null characters -/

theorem hasNull_spelledFrom (hplace : ∀ name ∈ place, '\x00' ∉ name) (base : Absolute) :
    (Path.ofText (spelledFrom base place)).hasNull = false := by
  refine Path.hasNull_eq_false_iff.2 (Path.null_not_mem_components ?_)
  unfold spelledFrom
  split
  · exact Path.null_not_mem_toText fun name hname => hplace name (List.mem_of_mem_drop hname)
  · exact Path.null_not_mem_toText hplace

/-- **What is found holds no null character** if neither the paths nor the places of the tree do. -/
theorem hasNull_found {extensions : Option (List Text)}
    (hfound : h.tree.find h.cwd paths extensions = .ok found)
    (hpaths : ∀ path ∈ paths, (Path.ofText path).hasNull = false)
    (htree : ∀ a node, h.tree.node? a = some node → ∀ name ∈ a, '\x00' ∉ name) :
    ∀ file ∈ found, (Path.ofText file).hasNull = false := by
  obtain ⟨_, _, hdone⟩ := bind_eq_ok.1 hfound
  cases hdone
  intro file hfile
  obtain ⟨input, hinput, p, hstands, -, rfl⟩ := FileTree.mem_matching_iff_standsFor.1 hfile
  have hown := Path.hasNull_eq_false_iff.1 (hpaths input hinput)
  refine Path.hasNull_eq_false_iff.2 (Path.null_not_mem_components (Path.null_not_mem_toText ?_))
  cases hstands with
  | itself => exact hown
  | below _ _ hreached =>
    obtain ⟨_, f, hplace⟩ := hreached.exists_file
    have hbelow := htree _ _ (FileTree.file?_eq_some_iff.1 hplace)
    intro name hname
    rcases List.mem_append.1 hname with hname | hname
    · exact hown name hname
    · exact hbelow name (List.mem_append_right _ hname)

/-- Nor does what is collected of it, if the working directory holds none either. -/
theorem hasNull_collected (hspelled : ∀ file ∈ found, (Path.ofText file).hasNull = false)
    (hcwd : ∀ name ∈ h.cwd, '\x00' ∉ name) (base : Absolute) :
    ∀ file ∈ found.map fun file => spelledFrom base (placeFrom h.cwd file), (Path.ofText file).hasNull = false := by
  intro file hfile
  obtain ⟨other, hother, rfl⟩ := List.mem_map.1 hfile
  have hnames := Path.hasNull_eq_false_iff.1 (hspelled other hother)
  exact hasNull_spelledFrom (Path.forall_mem_resolve hcwd fun name hname _ => hnames name hname) base

/-! ## A command line that was checked -/

/-- Steps that all went well went well one by one. -/
theorem forall_of_forIn {ε α : Type} {f : α → Except ε Unit} {xs : List α} {r : PUnit}
    (hall : (forIn xs PUnit.unit fun x _ => do f x; pure (ForInStep.yield PUnit.unit)) = .ok r) :
    ∀ x ∈ xs, f x = .ok () := by
  induction xs with
  | nil => exact List.forall_mem_nil _
  | cons x xs ih =>
    rw [List.forIn_cons] at hall
    cases hx : f x with
    | error e => rw [hx] at hall; cases hall
    | ok u =>
      rw [hx] at hall
      exact List.forall_mem_cons.2 ⟨hx, ih hall⟩

theorem checkPath_of_readCommand {name : Text} {switches : List Switch} {words : List Text} {own : Words}
    (hread : readCommand h name switches words = .ok own) :
    ∀ path ∈ own.arguments, checkPath h (some name) "[PATHS]..." .path path = .ok () := by
  unfold readCommand at hread
  dsimp only at hread
  split at hread
  · rename_i w _
    obtain ⟨_, hw, hread⟩ := bind_eq_ok.1 hread
    cases hw
    split at hread
    · cases hread
    · obtain ⟨_, hall, hdone⟩ := bind_eq_ok.1 hread
      cases hdone
      exact forall_of_forIn hall
  · cases hread

/-- **A path that was checked can be looked for.** -/
theorem not_tooLong_of_checkPath {command : Option Text} {parameter : String} {path : Text}
    (hcheck : checkPath h command parameter .path path = .ok ()) : ¬ h.tree.TooLong h.cwd (.ofText path) := by
  rintro ⟨hnull, hlook⟩
  have hmissing : look h path = .ok none := by
    unfold look
    dsimp only
    rw [hnull, if_neg Bool.false_ne_true, hlook]
    split <;> rfl
  unfold checkPath at hcheck
  dsimp only at hcheck
  rw [hmissing] at hcheck
  cases hcheck

theorem hasNull_of_checkPath {command : Option Text} {parameter : String} {path : Text}
    (hcheck : checkPath h command parameter .path path = .ok ()) : (Path.ofText path).hasNull = false := by
  refine Bool.eq_false_iff.2 fun hnull => ?_
  have hrefused : look h path = .error .nullInPath := by
    unfold look
    exact if_pos hnull
  unfold checkPath at hcheck
  dsimp only at hcheck
  rw [hrefused] at hcheck
  cases hcheck

/-! ## A directory with a configuration -/

/-- **A directory with a configuration can be looked for.** -/
theorem not_tooLong_of_load {t : FileTree} {s : Settings} (hbase : IsPlace base) (hload : Config.load t base = .ok s)
    (cwd : Absolute) : ¬ t.TooLong cwd (.ofText (Path.ofAbsolute base).toText) := by
  rw [Path.ofText_toText hbase.1]
  rintro ⟨_, hlook⟩
  have hlong := FileTree.look_append_of_tooLong hlook "pyproject.toml".toList
  rw [Config.load_eq] at hload
  obtain ⟨rest, hplaces⟩ : ∃ rest, Config.places base = Config.placesIn base ++ rest := by
    rcases List.eq_nil_or_concat' base with rfl | ⟨directory, name, rfl⟩
    · exact ⟨[], (List.append_nil _).symm⟩
    · exact ⟨_, Config.places_concat directory name⟩
  rw [hplaces, Config.placesIn, List.cons_append, Config.firstWritten, Config.tableOf, hlong] at hload
  cases hload

/-- **The directory that the toolchain runs in is a place.** -/
theorem isPlace_baseOf (hcwd : IsPlace h.cwd) (w : Words) : IsPlace (baseOf h w) := by
  unfold baseOf
  split
  · exact isPlace_placeFrom hcwd _
  · exact hcwd

/-- **What a checked command line asks for can be looked for.** -/
theorem exists_found {name : Text} {switches : List Switch} {words : List Text} {own : Words} {s : Settings}
    (hbase : IsPlace base) (hread : readCommand h name switches words = .ok own)
    (hload : Config.load h.tree base = .ok s) :
    ∃ found, h.tree.find h.cwd (searched base own.arguments) (some supported) = .ok found := by
  refine ⟨_, FileTree.find_of_fit fun text htext => ?_⟩
  unfold searched at htext
  split at htext
  · obtain rfl := List.mem_singleton.1 htext
    exact not_tooLong_of_load hbase hload h.cwd
  · exact not_tooLong_of_checkPath (checkPath_of_readCommand hread text htext)

/-! ## What a run does with the files -/

/-- **A run over files of distinct places** has each place once among its files, and so among its documents and
its arguments. -/
theorem nodup_files {r : Run.Setup} (hnodup : (files.eraseDups.map (placeFrom base)).Nodup) :
    ((Run.files r files).map (placeFrom base)).Nodup ∧
      ((r.command.direct (Run.files r files)).map (placeFrom base)).Nodup := by
  have haccepted : (Run.files r files).Sublist files.eraseDups := r.command.accepted_sublist _
  have hfiles := hnodup.sublist (haccepted.map (placeFrom base))
  exact ⟨hfiles, hfiles.sublist (List.filter_sublist.map (placeFrom base))⟩

/-- The documents of a run over files of distinct places. -/
theorem displayNames_of_nodup {r : Run.Setup} (hspelled : ∀ file ∈ files, (Path.ofText file).hasNull = false)
    (hnodup : (files.eraseDups.map (placeFrom r.cwd)).Nodup) : Run.displayNames r.cwd (Run.files r files) =
      .ok ((Run.files r files).map fun file => (.ofAbsolute (placeFrom r.cwd file), file)) := by
  have hmem : ∀ file ∈ Run.files r files, file ∈ files := fun file hfile =>
    List.mem_eraseDups.1 ((r.command.accepted_sublist _).subset hfile)
  have hkeys : (((Run.files r files).map fun file => (Run.document r file, file)).map (·.1)).Nodup := by
    have hplaces := (nodup_files (r := r) hnodup).1
    have hinjective : Function.Injective Path.ofAbsolute := fun a b hab => congrArg Path.names hab
    rw [List.map_map]
    rw [← List.nodup_map_iff hinjective, List.map_map] at hplaces
    exact hplaces
  rw [Run.displayNames_eq_ok fun file hfile => hspelled file (hmem file hfile), Keyed.ofList_of_nodup hkeys]
  rfl

theorem files_blank (r : Run.Setup) (files : List Text) : (Run.blank r files).files = files.eraseDups := by
  have hfiles : (Run.blank r files).files = files.eraseDups.eraseDups := by
    rw [Ledger.files, Run.blank, Ledger.ofFiles, List.map_map]
    exact List.map_id _
  rw [hfiles, eraseDups_of_nodup (nodup_eraseDups files)]

/-- **The files of a command are those that its paths lead to, each once.** If the paths cannot be looked for, or if
there is a null character in what is found, nothing is collected; and there is none if there is none in the paths and
the places of the tree. Otherwise the files lead, from the directory that the toolchain runs in, to just the places of
what is found from the working directory; each of these is the place of one of the different files; a run there has one
result for each of these, and among what it accepts, searches and passes on no place comes twice. Without paths it
is the directory that is looked for; and what a checked command line asks for can be looked for. -/
theorem collects_exactly (h : Host) (w : Words) (paths : List Text) (hcwd : IsPlace h.cwd) :
    let base := baseOf h w
    (∀ failure, h.tree.find h.cwd (searched base paths) (some supported) = .error failure →
        collect h base paths = .error failure) ∧
      (∀ found, h.tree.find h.cwd (searched base paths) (some supported) = .ok found →
        ((∃ file ∈ found, (Path.ofText file).hasNull = true) → collect h base paths = .error .nullInPath) ∧
          ((∀ path ∈ searched base paths, (Path.ofText path).hasNull = false) →
            (∀ a node, h.tree.node? a = some node → ∀ name ∈ a, '\x00' ∉ name) →
            ∀ file ∈ found, (Path.ofText file).hasNull = false) ∧
          ((∀ file ∈ found, (Path.ofText file).hasNull = false) → ∃ files, collect h base paths = .ok files ∧
            (∀ place, (∃ file ∈ files, placeFrom base file = place) ↔ ∃ file ∈ found, placeFrom h.cwd file = place) ∧
            (∀ file ∈ found, (files.eraseDups.map (placeFrom base)).count (placeFrom h.cwd file) = 1) ∧
            ((∀ name ∈ h.cwd, '\x00' ∉ name) → ∀ file ∈ files, (Path.ofText file).hasNull = false) ∧
            ∀ r : Run.Setup, r.cwd = base →
              (Run.blank r files).files = files.eraseDups ∧
                ((∀ file ∈ files, (Path.ofText file).hasNull = false) →
                  Run.displayNames r.cwd (Run.files r files) =
                    .ok ((Run.files r files).map fun file => (.ofAbsolute (placeFrom base file), file))) ∧
                ((Run.files r files).map (placeFrom base)).Nodup ∧
                ((r.command.direct (Run.files r files)).map (placeFrom base)).Nodup)) ∧
      placeFrom h.cwd (Path.ofAbsolute base).toText = base ∧
      ∀ (name : Text) (switches : List Switch) (words : List Text) (own : Words) (s : Settings),
        readCommand h name switches words = .ok own → own.arguments = paths → Config.load h.tree base = .ok s →
        (∀ path ∈ paths, (Path.ofText path).hasNull = false) ∧
          ∃ found, h.tree.find h.cwd (searched base paths) (some supported) = .ok found := by
  have hbase := isPlace_baseOf hcwd w
  generalize baseOf h w = base at hbase
  dsimp only
  refine ⟨fun failure hfailure => ?_, fun found hfound => ?_, ?_, ?_⟩
  · rw [collect_eq, hfailure]
    rfl
  · refine ⟨collect_of_null hfound, fun hpaths htree => hasNull_found hfound hpaths htree, fun hspelled => ?_⟩
    refine ⟨found.map fun file => spelledFrom base (placeFrom h.cwd file), collect_of_spelled hfound hspelled, ?_⟩
    generalize hfiles : (found.map fun file => spelledFrom base (placeFrom h.cwd file)) = files
    have hplaces : files.map (placeFrom base) = found.map (placeFrom h.cwd) :=
      hfiles ▸ map_placeFrom_collected hcwd base found
    have hnodup : (files.eraseDups.map (placeFrom base)).Nodup := hfiles ▸ nodup_placeFrom_collected hcwd base found
    have hsame : ∀ place, (∃ file ∈ files, placeFrom base file = place) ↔
        ∃ file ∈ found, placeFrom h.cwd file = place := fun place => by
      rw [← List.mem_map, ← List.mem_map, hplaces]
    refine ⟨hsame, fun file hfile => List.count_eq_one_of_mem hnodup ?_, fun hnames =>
      hfiles ▸ hasNull_collected hspelled hnames base, ?_⟩
    · obtain ⟨other, hother, heq⟩ := (hsame _).2 ⟨file, hfile, rfl⟩
      exact List.mem_map.2 ⟨other, List.mem_eraseDups.2 hother, heq⟩
    · rintro r rfl
      exact ⟨files_blank r files, fun hspelled => displayNames_of_nodup hspelled hnodup, nodup_files hnodup⟩
  · rw [placeFrom, Path.ofText_toText hbase.1]
    exact Path.resolve_ofAbsolute hbase.2
  · rintro name switches words own s hread rfl hload
    exact ⟨fun path hpath => hasNull_of_checkPath (checkPath_of_readCommand hread path hpath),
      exists_found hbase hread hload⟩

/-- A working directory with a project in it, and two files under it and beside it. -/
def workHost : Host where
  tree := (({} : FileTree).put ["w".toList, "p".toList, "a.ts".toList] []).put ["w".toList, "b.md".toList] []
  cwd := ["w".toList]
  temporary := []

/-- Spellings of two files, and of a directory with one of them, from beside the project: two files are left. -/
theorem collects_exactly_project :
    let w : Words := { switches := [("--cwd".toList, "./p".toList)] }
    let paths := ["p/a.ts", "./p/../p", "/w/p//a.ts", "b.md", "../w/b.md"].map String.toList
    IsPlace workHost.cwd ∧ ∃ files, collect workHost (baseOf workHost w) paths = .ok files ∧
      (∀ place, (∃ file ∈ files, placeFrom (baseOf workHost w) file = place) ↔
        place ∈ [["w".toList, "b.md".toList], ["w".toList, "p".toList, "a.ts".toList]]) ∧
      (files.eraseDups.map (placeFrom (baseOf workHost w))).count ["w".toList, "b.md".toList] = 1 := by
  intro w paths
  have hcwd : IsPlace workHost.cwd := by decide
  have hfit : ∀ text ∈ paths, ¬ workHost.tree.TooLong workHost.cwd (.ofText text) := by decide +kernel
  have hfound : workHost.tree.find workHost.cwd paths (some supported) = .ok _ := FileTree.find_of_fit hfit
  let spellings := ["../w/b.md", "/w/p/a.ts", "b.md", "p/../p/a.ts", "p/a.ts"].map String.toList
  have hmem (text : Text) : text ∈ workHost.tree.matching workHost.cwd paths (some supported) ↔ text ∈ spellings := by
    rw [FileTree.matching, List.mem_mergeSort]
    exact List.Perm.mem_iff (by decide +kernel)
  obtain ⟨-, hcollects, -⟩ := collects_exactly workHost w paths hcwd
  have hspelled : ∀ file ∈ workHost.tree.matching workHost.cwd paths (some supported),
      (Path.ofText file).hasNull = false := by
    have hall : ∀ file ∈ spellings, (Path.ofText file).hasNull = false := by decide +kernel
    exact fun file hfile => hall file ((hmem file).1 hfile)
  obtain ⟨files, hfiles, hplaces, hcount, -⟩ := (hcollects _ hfound).2.2 hspelled
  refine ⟨hcwd, files, hfiles, fun place => ?_, hcount _ ((hmem "b.md".toList).2 (by decide))⟩
  rw [hplaces]
  simp only [hmem]
  constructor
  · rintro ⟨file, hfile, rfl⟩
    have hall : ∀ file ∈ spellings, placeFrom workHost.cwd file ∈
        [["w".toList, "b.md".toList], ["w".toList, "p".toList, "a.ts".toList]] := by decide +kernel
    exact hall file hfile
  · have hall : ∀ place ∈ [["w".toList, "b.md".toList], ["w".toList, "p".toList, "a.ts".toList]],
        ∃ file ∈ spellings, placeFrom workHost.cwd file = place := by decide +kernel
    exact hall place

end CommandLine

end Fenceline
