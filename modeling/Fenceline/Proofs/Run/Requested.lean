import Fenceline.Proofs.Location.Requested
import Fenceline.Proofs.Run.Filing
import Fenceline.Proofs.Run.Stages

/-!
# One entry for each requested document

A ledger has entries for the files of its reports, and its reporter may remember the file of an earlier report.
If all files that reports are brought back to are fine, and so is what stands for no file, then a ledger that
begins with fine files holds no others (`HoldsOnly`): one report keeps it so, and so does a whole output.

**The laws.** `resolve_requested`: a report on a requested document, however it spells the document's path, is
brought back to the spelling under which the document was requested, and no output makes a second entry for a
requested document (`IsSingle`). `perform_single`: nor does a run.
-/

namespace Fenceline

variable {fine : Text → Prop} {d e : Draft}

/-! ## Fine files -/

theorem fine_textOr (hunknown : fine unknown) (hd : ∀ file, d.get? "file" = some file → fine file) :
    fine (d.textOr "file" unknown) := by
  unfold Draft.textOr
  cases hfile : d.get? "file" with
  | none => exact hunknown
  | some file => exact hd file hfile

/-- A diagnostic is on the file that it tells, or on none. -/
theorem Draft.file_of_diagnostic? {made : Report} (h : d.diagnostic? = .ok (some made)) :
    made.file = d.textOr "file" unknown := by
  obtain ⟨kind, -, h⟩ := bind_eq_ok.1 h
  obtain ⟨message, -, h⟩ := bind_eq_ok.1 h
  cases kind <;> cases h <;> rfl

/-- A reporter of tests reports on fine files, and remembers one. -/
theorem TestRun.report_fine {run next : TestRun} {report : Option Report} (hunknown : fine unknown)
    (hrun : fine run.file) (hd : ∀ file, d.get? "file" = some file → fine file)
    (h : run.report d = .ok (report, next)) : (∀ made ∈ report, fine made.file) ∧ fine next.file := by
  have htold := fine_textOr hunknown hd
  obtain ⟨kind, hkind, h⟩ := bind_eq_ok.1 h
  obtain ⟨message, hmessage, h⟩ := bind_eq_ok.1 h
  have hdiagnostic : ∀ {made}, d.diagnostic? = .ok (some made) → fine made.file := fun hmade => by
    rw [Draft.file_of_diagnostic? hmade]
    exact htold
  cases kind with
  | test =>
    obtain ⟨rfl, rfl⟩ := Prod.ext_iff.1 (Except.ok.inj h)
    unfold status
    cases d.get? "name" with
    | none => exact ⟨nofun, htold⟩
    | some name =>
      cases d.get? "status" with
      | none => exact ⟨nofun, hrun⟩
      | some status => exact ⟨fun made hmade => Option.some.inj hmade ▸ hrun, hrun⟩
  | output =>
    cases h
    exact ⟨fun made hmade => Option.some.inj hmade ▸ hrun, hrun⟩
  | failure =>
    cases h
    exact ⟨fun made hmade => Option.some.inj hmade ▸ htold, hrun⟩
  | error | check | lint | diff | debug | fatal =>
    obtain ⟨made?, hmade?, h⟩ := bind_eq_ok.1 h
    cases h
    exact ⟨fun made hmade => hdiagnostic (hmade?.trans (congrArg Except.ok hmade)), hrun⟩

/-- Whoever makes reports makes them on fine files, and remembers no other. -/
theorem Reporter.report_fine {reporter next : Reporter} {report : Option Report} (hunknown : fine unknown)
    (hreporter : ∀ run, reporter = .tests run → fine run.file) (hd : ∀ file, d.get? "file" = some file → fine file)
    (h : reporter.report d = .ok (report, next)) :
    (∀ made ∈ report, fine made.file) ∧ ∀ run, next = .tests run → fine run.file := by
  cases reporter with
  | diagnostic =>
    obtain ⟨made?, hmade?, h⟩ := bind_eq_ok.1 h
    cases h
    refine ⟨fun made hmade => ?_, nofun⟩
    rw [Draft.file_of_diagnostic? (hmade?.trans (congrArg Except.ok hmade))]
    exact fine_textOr hunknown hd
  | tests run =>
    obtain ⟨⟨made?, run'⟩, hmade?, h⟩ := bind_eq_ok.1 h
    cases h
    obtain ⟨hfiles, hrun⟩ := TestRun.report_fine hunknown (hreporter run rfl) hd hmade?
    exact ⟨hfiles, fun run hsame => Reporter.tests.inj hsame ▸ hrun⟩

namespace Ledger

variable {l next : Ledger} {watch : Watch} {events : List Event}

/-- **What becomes of a ledger with a draft**: its entries and its reporter stay, or the reporter makes a report
of the draft, or none. -/
theorem add_cases (h : l.add watch d = .ok (events, next)) :
    (next.results = l.results ∧ next.reporter = l.reporter) ∨
      ∃ reporter reporter' report, l.reporter = some reporter ∧ reporter.report d = .ok (report, reporter') ∧
        next = report.elim { l with reporter := some reporter' } (Ledger.file { l with reporter := some reporter' }) := by
  unfold Ledger.add at h
  obtain ⟨kind, -, h⟩ := bind_eq_ok.1 h
  dsimp only at h
  split at h
  · obtain ⟨message, -, h⟩ := bind_eq_ok.1 h
    cases h
    exact .inl ⟨rfl, rfl⟩
  · split at h
    · obtain ⟨notice, -, h⟩ := bind_eq_ok.1 h
      cases h
      exact .inl ⟨rfl, rfl⟩
    · cases h
      exact .inl ⟨rfl, rfl⟩
  all_goals
    split at h
    · obtain ⟨message, -, h⟩ := bind_eq_ok.1 h
      cases h
      exact .inl ⟨rfl, rfl⟩
    · rename_i reporter hreporter
      obtain ⟨⟨report, reporter'⟩, hreport, h⟩ := bind_eq_ok.1 h
      refine .inr ⟨reporter, reporter', report, hreporter, hreport, ?_⟩
      cases report <;> cases h <;> rfl

/-- **A ledger of fine files only**: it has entries for no others, and its reporter remembers no other. -/
structure HoldsOnly (fine : Text → Prop) (l : Ledger) : Prop where
  entries : ∀ file ∈ l.files, fine file
  running : ∀ run, l.reporter = some (.tests run) → fine run.file

theorem HoldsOnly.file (h : l.HoldsOnly fine) {report : Report} (hreport : fine report.file) :
    (l.file report).HoldsOnly fine := by
  refine ⟨fun file hfile => ?_, h.running⟩
  rw [files_file] at hfile
  split at hfile
  · exact h.entries file hfile
  · rcases List.mem_append.1 hfile with hfile | hfile
    · exact h.entries file hfile
    · exact List.mem_singleton.1 hfile ▸ hreport

/-- **A draft on a fine file is filed under fine files.** -/
theorem HoldsOnly.add (hunknown : fine unknown) (h : l.HoldsOnly fine)
    (hd : ∀ file, d.get? "file" = some file → fine file) (hadd : l.add watch d = .ok (events, next)) :
    next.HoldsOnly fine := by
  rcases add_cases hadd with ⟨hresults, hreporter⟩ | ⟨reporter, reporter', report, hreporter, hreport, rfl⟩
  · exact ⟨by rw [files, hresults]; exact h.entries, by rw [hreporter]; exact h.running⟩
  · obtain ⟨hfiles, hrun⟩ := Reporter.report_fine hunknown
      (fun run hsame => h.running run (hreporter.trans (congrArg some hsame))) hd hreport
    have hnext : HoldsOnly fine { l with reporter := some reporter' } :=
      ⟨h.entries, fun run hsame => hrun run (Option.some.inj hsame)⟩
    cases report with
    | none => exact hnext
    | some made => exact hnext.file (hfiles made rfl)

end Ledger

/-! ## Outputs -/

namespace Intake

variable {i : Intake} {r : Resolver}

/-- **An intake that files under fine files only**: its resolver brings reports back to no others. -/
structure FilesOnly (fine : Text → Prop) (i : Intake) : Prop where
  unknown : fine unknown
  placed : ∀ d e, Draft.placed? i.resolver d = .ok e → ∀ file, e.get? "file" = some file → fine file
  ledger : i.ledger.HoldsOnly fine

theorem FilesOnly.take (h : i.FilesOnly fine) (o : Outcome) : (i.take o).FilesOnly fine := by
  unfold Intake.take
  split
  · exact h
  · cases o with
    | unrecognized line => exact ⟨h.unknown, h.placed, h.ledger.entries, h.ledger.running⟩
    | flush d done =>
      have hplaced := place_snd i d
      dsimp only
      split
      · rename_i notices e heq
        rw [heq] at hplaced
        unfold Intake.file
        split
        · split
          · rename_i events next hadd
            exact ⟨h.unknown, h.placed, h.ledger.add h.unknown (h.placed d e hplaced.symm) hadd⟩
          · exact ⟨h.unknown, h.placed, h.ledger⟩
        · split <;> exact ⟨h.unknown, h.placed, h.ledger⟩
      · exact ⟨h.unknown, h.placed, h.ledger⟩

theorem FilesOnly.foldl_take (h : i.FilesOnly fine) (outcomes : List Outcome) :
    (outcomes.foldl Intake.take i).FilesOnly fine := by
  induction outcomes generalizing i with
  | nil => exact h
  | cons o outcomes ih => exact ih (h.take o)

/-- The reader does not matter. -/
theorem FilesOnly.withReader (h : i.FilesOnly fine) (reader : Reader) : FilesOnly fine { i with reader } :=
  ⟨h.unknown, h.placed, h.ledger⟩

theorem FilesOnly.feed (h : i.FilesOnly fine) (line : Line) : (i.feed line).FilesOnly fine := by
  unfold Intake.feed
  split
  · exact h
  · exact (h.withReader (i.reader.feed line).2).foldl_take (i.reader.feed line).1

/-- **A whole output is filed under fine files only.** -/
theorem FilesOnly.feedAll (h : i.FilesOnly fine) (lines : List Line) : (i.feedAll lines).FilesOnly fine := by
  induction lines generalizing i with
  | nil => exact h
  | cons line lines ih => exact ih (h.feed line)

theorem FilesOnly.close (h : i.FilesOnly fine) : i.close.FilesOnly fine := by
  unfold Intake.close
  split
  · exact h
  · exact (h.withReader i.reader.close.2).foldl_take i.reader.close.1

end Intake

/-! ## Requested documents -/

namespace Resolver

open Reference

variable {r : Resolver} {files requested : List Text}

/-- **A file that is no second entry for a requested document**: it was requested itself, it stands for no file,
or it leads elsewhere than every requested document. -/
def IsSingle (r : Resolver) (requested files : List Text) (file : Text) : Prop :=
  file ∈ requested ∨ file = unknown ∨ ∀ document ∈ files, r.place document ≠ r.place file

/-- A report is brought back to no second name of a requested document. -/
theorem Requests.isSingle_of_resolve (hrequests : r.Requests files) (hfiles : ∀ file ∈ files, file ∈ requested)
    (h : r.resolve d = .ok e) {file : Text} (hfile : e.get? "file" = some file) :
    r.IsSingle requested files file := by
  obtain ⟨kind, hkind, -⟩ := bind_eq_ok.1 h
  obtain ⟨fields, -, hshown⟩ := hrequests.get?_file_of_resolve hkind h
  rw [hfile] at hshown
  obtain ⟨told, -, rfl⟩ := Option.map_eq_some_iff.1 hshown.symm
  rcases r.spelling_cases files (unmarked told) with ⟨hmem, -⟩ | ⟨hself, hother⟩
  · exact .inl (hfiles _ hmem)
  · rw [hself]
    exact .inr (.inr hother)

/-- **A reporter that remembers no file yet.** -/
def Fresh (reporter : Option Reporter) : Prop :=
  ∀ run, reporter = some (.tests run) → run.file = unknown

/-- An intake at the beginning of a run over requested documents files under fine files only. -/
theorem Requests.filesOnly (hrequests : r.Requests files) (hfiles : ∀ file ∈ files, file ∈ requested)
    {reporter : Option Reporter} (hreporter : Fresh reporter) {i : Intake} (hresolver : i.resolver = some r)
    (hledger : i.ledger = Ledger.ofFiles requested reporter) : i.FilesOnly (r.IsSingle requested files) := by
  refine ⟨.inr (.inl rfl), fun d e he file hfile => ?_, ?_⟩
  · rw [hresolver] at he
    exact hrequests.isSingle_of_resolve hfiles he hfile
  · rw [hledger]
    refine ⟨fun file hfile => .inl ?_, fun run hrun => .inr (.inl (hreporter run hrun))⟩
    simpa [Ledger.files, Ledger.ofFiles] using hfile

/-- **A requested document is recognised under every spelling**, and gets no second entry. A report on a path is
brought back just if its mark can be counted from and its message can be interpreted, and then to the spelling
under which the path's document was requested, or to the path itself if it was not. And whatever an output says,
an entry that was not requested is the one of reports on no file, or leads to no requested document. -/
theorem resolve_requested (hrequests : r.Requests files) {kind : Kind} (hkind : d.kind = .ok kind)
    {message value p mark : Text} (hmessage : d.message = .ok message) (hvalue : d.get? "file" = some value)
    (hdenotes : Denotes value p mark)
    (houtside : r.isInSampleDir (p ++ mark) = true → r.sampleAt? (p ++ mark) = none) :
    (Succeeds (r.resolve d) ↔
      (r.isInSampleDir (p ++ mark) = false → ∀ m, whole.matchStart (p ++ mark) = some m →
        MarkInterpretable (integer? d "line") (integer? d "column") (r.offset kind) m) ∧
      r.MessageInterpretable message (r.offset kind) (some p)) ∧
      (∀ e, r.resolve d = .ok e → e.get? "file" = some (r.spelling files p)) ∧
      ∀ (requested : List Text) (reporter : Option Reporter) (i : Intake) (lines : List Line),
        (∀ file ∈ files, file ∈ requested) → Fresh reporter → i.resolver = some r →
        i.ledger = Ledger.ofFiles requested reporter →
        ∀ file ∈ ((i.feedAll lines).close).ledger.files, r.IsSingle requested files file := by
  obtain ⟨hreturns, hshown⟩ := resolve_denoted hrequests hkind hmessage hvalue hdenotes houtside
  refine ⟨hreturns, hshown, fun requested reporter i lines hfiles hreporter hresolver hledger => ?_⟩
  exact ((hrequests.filesOnly hfiles hreporter hresolver hledger).feedAll lines).close.ledger.entries

/-- A document that was requested twice, and a report that tells of it by a file URL with a detour, an escaped
letter and a mark. -/
theorem resolve_requested_url :
    let files : List Text := ["é.ts".toList, "./é.ts".toList]
    let r : Resolver :=
      { cwd := .ofAbsolute ["p".toList]
        displayNames := [(.ofAbsolute ["p".toList, "é.ts".toList], "./é.ts".toList)] }
    let p : Text := "/p/x/../é.ts".toList
    let value : Text := "file:///p/x/../%C3%A9.ts$3-5.ts".toList
    let d : Draft := [("kind", "check".toList), ("message", ['m']), ("file", value), ("line", ['7'])]
    let i : Intake :=
      { resolver := some r, reader := { grammar := Grammar.check }, ledger := .ofFiles files (some .diagnostic) }
    let lines : List Line :=
      [⟨.stderr, "TS1 [ERROR]: bad".toList, true⟩, ⟨.stderr, "  at file:///p/%C3%A9.ts:1:2".toList, true⟩]
    r.Requests files ∧ Denotes value p "$3-5.ts".toList ∧
      (∃ e, r.resolve d = .ok e ∧ e.get? "file" = some "./é.ts".toList) ∧
      ((i.feedAll lines).close).ledger.files = files ∧
      ∀ file ∈ ((i.feedAll lines).close).ledger.files, r.IsSingle files files file := by
  intro files r p value d i lines
  have hrequests : r.Requests files := ⟨by decide +kernel, by decide +kernel⟩
  have hdenotes : Denotes value p "$3-5.ts".toList := by
    have hescaped : FileUrl.percentEncode p = "/p/x/../%C3%A9.ts".toList := by decide +kernel
    have hencodes := FileUrl.encodes_percentEncode p
    rw [hescaped] at hencodes
    have hmark : IsMark ('$' :: (['3'] ++ '-' :: (['5'] ++ '.' :: "ts".toList))) :=
      .extended (by decide) (by decide) (by decide) (List.all_eq_true.1 (by decide))
    exact
      { named := .url rfl hencodes
        marked := .inl hmark }
  have hkind : d.kind = .ok .check := by rfl
  have hmessage : d.message = .ok ['m'] := by rfl
  have hvalue : d.get? "file" = some value := by rfl
  have houtside : r.isInSampleDir (p ++ "$3-5.ts".toList) = true → r.sampleAt? (p ++ "$3-5.ts".toList) = none :=
    fun _ => rfl
  obtain ⟨-, hshown, hsingle⟩ := resolve_requested hrequests hkind hmessage hvalue hdenotes houtside
  have hspelling : r.spelling files p = "./é.ts".toList := by decide +kernel
  refine ⟨hrequests, hdenotes, ?_, by decide +kernel, ?_⟩
  · have hresolved : (r.resolve d).toOption.isSome = true := by decide +kernel
    cases hresolve : r.resolve d with
    | error failure =>
      rw [hresolve] at hresolved
      cases hresolved
    | ok e => exact ⟨e, rfl, by rw [hshown e hresolve, hspelling]⟩
  · exact hsingle files (some .diagnostic) i lines (fun _ h => h) (by rintro run ⟨⟩) rfl rfl

/-- Requested documents that a report misses: one whose path has a line feed behind what would be a mark, so that
the report is on another path, and one whose mark has a number with too many digits; and a path with the null
character, on which no report is brought back. -/
theorem resolve_missed :
    let marked : Text := "/p/x$1-2\n".toList
    let long : Text := '$' :: (List.replicate 4301 '1' ++ "-2".toList)
    let null : Text := "/p/x\x00".toList
    let r : Resolver :=
      { cwd := .ofAbsolute ["p".toList]
        displayNames := [(.ofAbsolute ["p".toList, "x$1-2\n".toList], "x$1-2\n".toList),
          (.ofAbsolute ["p".toList, "x".toList], "x".toList)] }
    let on (file : Text) : Draft := [("kind", "check".toList), ("message", ['m']), ("file", file)]
    r.Requests ["x$1-2\n".toList, "x".toList] ∧
      (r.place marked = r.place "x$1-2\n".toList ∧ r.place "/p/x".toList = r.place "x".toList) ∧
      (∀ stem mark, IsMark mark → marked ≠ stem ++ mark ∧ "/p/x".toList ≠ stem ++ mark ∧ null ≠ stem ++ mark) ∧
      IsMark long ∧
      (r.resolve (on marked)).toOption.bind (·.get? "file") = some "/p/x\n".toList ∧
      (r.resolve (on ("/p/x".toList ++ long))).toOption = none ∧
      (r.resolve (on null)).toOption = none := by
  intro marked long null r on
  refine ⟨⟨by decide +kernel, by decide +kernel⟩, ⟨by decide +kernel, by decide +kernel⟩, ?_, ?_,
    by decide +kernel, by decide +kernel, by decide +kernel⟩
  · intro stem mark hmark
    obtain ⟨tail, htail, -⟩ := hmark.exists_tail
    have hdollar : ∀ {p : Text}, '$' ∉ p → p ≠ stem ++ mark := by
      rintro p hp rfl
      simp [htail] at hp
    exact ⟨hmark.ne_append_newline stem "/p/x$1-2".toList, hdollar (by decide), hdollar (by decide)⟩
  · refine .bare ⟨List.cons_ne_nil _ _, fun x hx => ?_⟩ (by decide)
    rw [List.eq_of_mem_replicate hx]
    decide

end Resolver

/-! ## Runs -/

namespace Run

open Act

variable {r : Setup} {requested : List Text} {sampleDir : Option Absolute} {m : Material}

/-- Seen from a resolved place, a path leads where the files of a run are looked for. -/
theorem place_resolver (hcwd : ['.', '.'] ∉ r.cwd) (file : Text) :
    (resolver r sampleDir m).place file = (Path.ofText file).resolve r.cwd := by
  have hbase : r.cwd.foldl Path.step [] = r.cwd := Path.resolve_ofAbsolute hcwd
  have horigin : (resolver r sampleDir m).origin file = if (Path.ofText file).root = .relative then r.cwd else [] := by
    have hroot : (Path.ofText file).root = .relative ↔ file.head? ≠ some '/' := Path.rootOf_eq_relative_iff file
    simp only [hroot, ite_not, Resolver.origin]
    exact congrArg (fun base => if file.head? = some '/' then [] else base) hbase
  rw [Resolver.place_eq, horigin]
  rfl

/-- **The resolver of a run knows the spellings of its files.** -/
theorem requests_resolver (hcwd : ['.', '.'] ∉ r.cwd) (hnull : (Path.ofAbsolute r.cwd).hasNull = false)
    {files : List Text} (hnames : displayNames r.cwd files = .ok m.names) :
    (resolver r sampleDir m).Requests files := by
  obtain ⟨places, hplaces, hnames⟩ := bind_eq_ok.1 hnames
  have hspelled : ∀ file ∈ files, (Path.ofText file).hasNull = false := by
    intro file hfile
    obtain ⟨place, hplace⟩ := succeeds_mapM_iff.1 ⟨places, hplaces⟩ file hfile
    dsimp only at hplace
    split at hplace
    · cases hplace
    · exact Bool.eq_false_iff.2 ‹_›
  refine ⟨fun file hfile => ?_, ?_⟩
  · unfold Resolver.Locatable Path.join
    split
    · simp only [Path.hasNull, List.any_append, Bool.or_eq_false_iff]
      exact ⟨hnull, hspelled file hfile⟩
    · exact hspelled file hfile
  · have hplaced : ∀ file ∈ files,
        (if (Path.ofText file).hasNull then .error Failure.nullInPath
          else .ok (Path.ofAbsolute ((Path.ofText file).resolve r.cwd), file)) =
          Except.ok (Path.ofAbsolute ((resolver r sampleDir m).place file), file) := fun file hfile => by
      rw [hspelled file hfile, place_resolver hcwd]
      rfl
    have hmapped := mapM_eq_ok_map hplaced
    obtain rfl := Except.ok.inj (hplaces.symm.trans hmapped)
    exact (Except.ok.inj hnames).symm

/-- A preparation gives the spellings of the files. -/
theorem gives_prepare (r : Setup) (sampleDir : Option Absolute) (requested : List Text) :
    Gives (fun m => displayNames r.cwd (files r requested) = .ok m.names) (prepare r sampleDir requested) :=
  (gives_ofExcept fun _ hnames => hnames).bind fun _ hnames => (gives_any _).bind fun _ _ => gives_pure hnames

/-- What is taken in is filed under fine files only, if the run begins so. -/
theorem gives_takeIn {fine : Text → Prop} {start : Intake} (h : start.FilesOnly fine) (r : Setup)
    (output : List Transcript.Item) : Gives (Ledger.HoldsOnly fine) (takeIn r start output) := by
  unfold takeIn
  cases Transcript.lines (streams r) r.config.chunkSize.toNat output with
  | mk lines broken =>
    refine (gives_any _).bind fun _ _ => ?_
    have hledger := (h.feedAll lines).close.ledger
    cases broken with
    | some message =>
      simp only [Option.isSome_some, if_true]
      cases (start.feedAll lines).failure <;> exact gives_fail _
    | none =>
      simp only [Option.isSome_none, Bool.false_eq_true, if_false]
      cases (start.feedAll lines).close.failure with
      | some failure => exact gives_fail _
      | none => exact gives_pure hledger

/-- A run that is concluded gives the entries of its ledger. -/
theorem gives_conclude (r : Setup) (args : List Text) (samples : List Sample) (code : Int) (ledger : Ledger) :
    Gives (· = ledger.results) (conclude r args samples code ledger) := by
  by_cases hcomplaints : ledger.unrecognized = []
  · rw [conclude_of_no_complaints hcomplaints]
    exact (gives_any _).bind fun _ _ => (gives_any _).bind fun _ _ => (gives_any _).bind fun _ _ => gives_pure rfl
  · rw [conclude_of_complaints hcomplaints]
    exact gives_fail _

/-- **A run has one result for each requested document**: a result that was not requested is the one of reports on
no file, or its file leads to none of the documents that the run is over. -/
theorem perform_single (hcwd : ['.', '.'] ∉ r.cwd) (hnull : (Path.ofAbsolute r.cwd).hasNull = false)
    (hreporter : Resolver.Fresh r.command.reporter) {s t : Session} {results : List FileResult}
    (h : (perform r requested).perform s = (.ok results, t)) :
    ∀ result ∈ results, result.file ∈ requested ∨ result.file = unknown ∨ ∀ document ∈ files r requested,
      (Path.ofText document).resolve r.cwd ≠ (Path.ofText result.file).resolve r.cwd := by
  have hfiles : ∀ file ∈ files r requested, file ∈ requested.eraseDups := fun file hfile =>
    (r.command.accepted_sublist _).subset hfile
  have hblank : ∀ file ∈ (blank r requested).files, file ∈ requested := by
    simp [blank, Ledger.files, Ledger.ofFiles]
  have hwithin : Gives (fun results => ∀ result ∈ results, result.file ∈ requested ∨ result.file = unknown ∨
      ∀ document ∈ files r requested,
        (Path.ofText document).resolve r.cwd ≠ (Path.ofText result.file).resolve r.cwd)
      (within r (directory r s) requested) := by
    rw [within_eq]
    split
    · exact gives_fail _
    · refine (gives_prepare r (directory r s) requested).bind fun m hnames => ?_
      split
      · exact gives_pure fun result hresult => .inl (hblank _ (List.mem_map_of_mem hresult))
      · refine (gives_any _).bind fun done _ => ?_
        have hstart : (start r (directory r s) requested m).FilesOnly
            ((resolver r (directory r s) m).IsSingle requested.eraseDups (files r requested)) :=
          (requests_resolver hcwd hnull hnames).filesOnly hfiles hreporter rfl rfl
        refine (gives_takeIn hstart r done.output).bind fun ledger hledger => ?_
        refine fun s results t hresults result hresult => ?_
        obtain rfl := gives_conclude _ _ _ _ _ s results t hresults
        rcases hledger.entries result.file (List.mem_map_of_mem hresult) with hmem | hunknown | hother
        · exact .inl (List.mem_eraseDups.1 hmem)
        · exact .inr (.inl hunknown)
        · refine .inr (.inr fun document hdocument => ?_)
          have hplace : ∀ file, (resolver r (directory r s) m).place file = (Path.ofText file).resolve r.cwd :=
            place_resolver hcwd
          rw [← hplace, ← hplace]
          exact hother document hdocument
  rw [perform_eq] at h
  obtain ⟨hresults, -⟩ := Prod.ext_iff.1 h
  have hperform : (within r (directory r s) requested).perform (opened r s) =
      (.ok results, ((within r (directory r s) requested).perform (opened r s)).2) := Prod.ext hresults rfl
  exact hwithin _ results _ hperform

end Run

end Fenceline
