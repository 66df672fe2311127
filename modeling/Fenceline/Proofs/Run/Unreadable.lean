import Fenceline.CommandLine.Program
import Fenceline.Proofs.Files.Faithful
import Fenceline.Proofs.Run.Ending
import Mathlib.Data.List.Infix

/-!
# What cannot be read is reported

Samples are extracted from documents and patched into them; both read, and both write texts only, so documents
and samples that are texts, or no files, remain so on the way (`Session.Legible`). So all that can go wrong is
what the file system has against one of them, and for such failures the program has words.

**The law** (`reading_reported`): reading is faithful or fails for a reason of the file system, with the path
in its words; and so do extracting and patching, whose failure the program then reports as an error. It takes
documents and samples that are texts: bytes that are none, and paths with a null character, end a run without a
word about them (`reading_unreported`).
-/

namespace Fenceline

open Act

/-- **A session in which paths lead to texts, or to no files**: all those that are meant. -/
def Session.Legible (meant : Path → Prop) (s : Session) : Prop :=
  ∀ p, meant p → s.host.tree.Textual s.host.cwd p

/-- A failure about one of the paths that are meant. -/
def IsAboutMeant (meant : Path → Prop) (failure : Failure) : Prop :=
  ∃ p, meant p ∧ failure.IsAbout p

namespace Sample

variable {meant : Path → Prop} {s : Session}

/-! ## Extracting -/

/-- A session in which samples can be stored in a directory, and paths are legible. -/
structure Storing (directory : Absolute) (meant : Path → Prop) (s : Session) : Prop where
  stands : s.host.tree.Stands directory
  legible : s.Legible meant

theorem guards_store {directory : Absolute} {Q : Failure → Prop} (hs : Storing directory meant s) (sample : Sample)
    (extension : Text) : Guards (Storing directory meant) Q s (store directory sample extension) :=
  ⟨failsWith_ok _, hs.stands.put _ _, fun p hp => (hs.legible p hp).of_retold (hs.stands.retold_put _ _)⟩

/-- **Extraction from a document fails for the document only.** -/
theorem guards_extractFrom {directory : Absolute} {document : Path} (hmeant : meant document)
    (hs : Storing directory meant s) (languages : List Text) :
    Guards (Storing directory meant) (Failure.IsAbout document) s (extractFrom directory languages document) := by
  refine guards_host_bind (guards_ofExcept_bind hs (hs.legible document hmeant).failsWith_read? fun text _ => ?_)
  cases text with
  | none => exact ⟨failsWith_ok _, hs.stands, hs.legible⟩
  | some text =>
    refine (guards_mapM hs fun x _ t ht => guards_store ht x.1 x.2).bind fun samples t _ ht => ?_
    exact ⟨failsWith_ok _, ht.stands, ht.legible⟩

/-- **Extraction fails for one of its documents only.** -/
theorem guards_extract {directory : Absolute} {documents : List Path} {workers : Int} (hworkers : 0 < workers)
    (h : ∀ d ∈ documents, meant d) (hs : Storing directory meant s) (languages : List Text) :
    Guards (Storing directory meant) (IsAboutMeant meant) s (extract directory languages workers documents) := by
  unfold extract
  rw [if_neg (by omega)]
  refine (guards_pooled hs fun d hd t ht => ?_).bind fun _ t _ ht => guards_pure ht _
  obtain ⟨hfails, hkeeps⟩ := guards_extractFrom (h d hd) ht languages
  exact ⟨fun failure hfailure => ⟨d, h d hd, hfails failure hfailure⟩, hkeeps⟩

/-! ## Patching -/

theorem guards_change? (hs : s.Legible meant) (sample : Sample) {path : Path} (hpath : meant path) :
    Guards (Session.Legible meant) (IsAboutMeant meant) s (sample.change? path) := by
  refine guards_host_bind (guards_ofExcept_bind hs (fun failure hfailure => ?_) fun _ _ => guards_pure hs _)
  exact ⟨path, hpath, (hs path hpath).failsWith_read failure hfailure⟩

theorem guards_changes (hs : s.Legible meant) {samples : List Sample}
    (h : ∀ x ∈ samples, ∀ p, x.path = some p → meant p) :
    Guards (Session.Legible meant) (IsAboutMeant meant) s (changes samples) := by
  refine (guards_mapM hs fun x hx t ht => ?_).bind fun _ t _ ht => guards_pure ht _
  cases hpath : x.path with
  | none => exact guards_pure ht none
  | some path => exact guards_change? ht x (h x hx path hpath)

/-- **A document that is written** stays legible, and so does every other one. -/
theorem legible_write {after : Host} {document : Path} {text : Text} {stamp : Stamp} (hs : s.Legible meant)
    (hwrite : s.host.write document text stamp = .ok after) (events : List Event) :
    Session.Legible meant { s with host := after, events } := by
  obtain ⟨hstamp, a, hfollow, rfl⟩ := Host.write_eq_ok_iff.1 hwrite
  obtain ⟨_, b, f, hfollow', hfile, _⟩ := FileTree.stamp_eq_ok_iff.1 hstamp
  obtain rfl : a = b := Except.ok.inj (hfollow.symm.trans hfollow')
  exact fun p hp => (hs p hp).of_retold (FileTree.retold_replace hfile text)

/-- **A document is patched, or patching fails** for the document or a sample of it. -/
theorem guards_patchDocument (hs : s.Legible meant) {document : Path} {samples : List Sample}
    (hdocument : meant document) (h : ∀ x ∈ samples, ∀ p, x.path = some p → meant p) :
    Guards (Session.Legible meant) (IsAboutMeant meant) s (patchDocument document samples) := by
  refine (guards_changes hs h).bind fun changes t _ ht => ?_
  have htextual := ht document hdocument
  have hmeant (failure : Failure) (hfailure : failure.IsOf document) : IsAboutMeant meant failure :=
    ⟨document, hdocument, hfailure.isAbout htextual.spelled⟩
  split
  · exact guards_pure ht false
  refine guards_host_bind (guards_ofExcept_bind ht ((t.host.tree.failsWith_stamp _ _).mono hmeant) fun stamp _ => ?_)
  refine guards_ofExcept_bind ht (htextual.failsWith_read.mono fun e he => hmeant e (.inl he)) fun text _ => ?_
  refine Guards.bind ⟨failsWith_ok _, ht⟩ fun _ u hu htold => ?_
  obtain rfl : { t with events := t.events ++ patchAllNotices text changes } = u := (Prod.mk.inj hu).2
  dsimp only
  split
  · exact guards_pure htold false
  refine guards_ofExcept_bind htold ((t.host.failsWith_write _ _ _).mono hmeant) fun after hafter => ?_
  exact ⟨failsWith_ok _, legible_write ht hafter _⟩

/-- **Patching fails for a document or a sample only.** -/
theorem guards_patchDocuments {samples : List Sample} {workers : Int} (hworkers : 0 < workers)
    (h : ∀ x ∈ samples, ∀ p, x.path = some p → meant p ∧ meant x.file) (hs : s.Legible meant) :
    Guards (Session.Legible meant) (IsAboutMeant meant) s (patchDocuments samples workers) := by
  unfold patchDocuments
  rw [if_neg (by omega)]
  refine (guards_pooled hs fun d hd t ht => ?_).bind fun _ t _ ht => guards_pure ht _
  obtain ⟨hdocument, hsamples⟩ := forall_mem_byDocument h d hd
  exact (guards_patchDocument ht hdocument hsamples).bind fun _ u _ hu => guards_pure hu _

end Sample

namespace Run

variable {r : Setup} {requested : List Text} {s : Session}

/-! ## A run -/

/-- The documents of a run: those of its files that are searched for samples. -/
def IsDocument (r : Setup) (requested : List Text) (p : Path) : Prop :=
  ∃ file ∈ files r requested, r.command.isScanned file = true ∧ p = document r file

/-- **The preparation of a run fails for one of its documents only.** -/
theorem failsWith_prepare (hsound : r.config.Sound) (husable : r.unusable = [])
    (hspelled : ∀ file ∈ files r requested, (Path.ofText file).hasNull = false) {sampleDir : Option Absolute}
    (hs : ∀ place, sampleDir = some place → Sample.Storing place (IsDocument r requested) s) :
    FailsWith (IsAboutMeant (IsDocument r requested)) ((prepare r sampleDir requested).perform s).1 := by
  rw [prepare, displayNames_eq_ok hspelled, perform_bind_ok (perform_ofExcept _ s)]
  cases sampleDir with
  | none => exact failsWith_ok _
  | some place =>
    rw [gather, need_of_usable husable, pure_bind]
    refine (Guards.bind (Sample.guards_extract hsound.extractWorkers (fun p hp => ?_) (hs place rfl) _)
      fun samples t _ ht => guards_pure ht _).1
    obtain ⟨name, hname, rfl⟩ := List.mem_map.1 hp
    obtain ⟨hname, hscanned⟩ := List.mem_filter.1 hname
    obtain ⟨file, hfile, rfl⟩ := List.mem_map.1 (Keyed.mem_of_mem_ofList hname)
    exact ⟨file, hfile, hscanned, rfl⟩

/-- A run that cannot be prepared fails so. -/
theorem perform_of_unprepared (htargets : files r requested ≠ [] ∨ r.command.permitsNoFiles = true)
    {failure : Failure} {t : Session}
    (h : (prepare r (directory r s) requested).perform (opened r s) = (.error failure, t)) :
    (perform r requested).perform s = (.error failure, closed (directory r s) t) := by
  rw [perform_eq, within_eq, if_neg (by rw [enough_files htargets]; exact Bool.false_ne_true), perform_bind, h]

/-- What a run has in its hands when its documents are patched. -/
def Course.IsHeld (c : Course r requested s) (p : Path) : Prop :=
  ∃ x ∈ c.material.samples, ∃ q, x.path = some q ∧ (p = q ∨ p = x.file)

/-- **A run without a complaint fails for a document or a sample only.** -/
theorem Course.failsWith_perform (c : Course r requested s) (hg : r.command.grammar.Spares "kind") (h : c.Heard)
    (hcomplaints : complaints c.given = [])
    (hlegible : ∀ p, c.IsHeld p → c.done.tree.Textual c.ready.host.cwd p) :
    FailsWith (IsAboutMeant c.IsHeld) ((perform r requested).perform s).1 := by
  have hlegible : Session.Legible c.IsHeld (c.ended []) := hlegible
  have hpatched := (Sample.guards_patchDocuments c.sound.patchWorkers
    (fun x hx p hp => ⟨⟨x, hx, p, hp, .inl rfl⟩, ⟨x, hx, p, hp, .inr rfl⟩⟩) hlegible).1
  rw [c.perform_of_no_complaints hg h hcomplaints]
  generalize ((Sample.patchDocuments c.material.samples r.config.patchWorkers).perform (c.ended [])).1 = result
    at hpatched
  cases result with
  | ok _ => exact failsWith_ok _
  | error failure => exact failsWith_error (hpatched failure rfl)

end Run

namespace CommandLine

/-! ## What the program says -/

/-- For a failure that the file system has with a path there are words. -/
theorem hasWords_of_isAbout {failure : Failure} {p : Path} (h : failure.IsAbout p) : hasWords failure = true := by
  cases failure with
  | inaccessible | notRegular | changed | refused => rfl
  | _ => exact h.elim

theorem endingOf_of_isAbout {failure : Failure} {p : Path} (h : failure.IsAbout p) (verbose tests : Bool)
    (s : Session) : endingOf verbose tests (.error failure) s =
      { code := 1
        printed := s.events.flatMap (print verbose tests) ++ [line .stderr ("Error: ".toList ++ failure.message)]
        session := s } := by
  rw [endingOf, if_pos (hasWords_of_isAbout h)]

end CommandLine

open Run in
/-- **Documents are read faithfully, or the program says which one it could not read**, if they are texts or no
files at all. What is read has the bytes of the file; and extracting, patching, preparing a run, and the run
itself fail for one of the documents and samples only, with its path in the words that the program ends with. -/
theorem reading_reported (s : Session) :
    (∀ p,
      (∀ text, s.host.tree.read s.host.cwd p = .ok text ↔ p.hasNull = false ∧
        ∃ f, s.host.tree.look s.host.cwd p = .ok (.file f) ∧ Utf8.encode text = f.bytes) ∧
      (∀ text, s.host.tree.read? s.host.cwd p = .ok (some text) ↔ s.host.tree.read s.host.cwd p = .ok text) ∧
      (s.host.tree.read? s.host.cwd p = .ok none ↔
        p.hasNull = false ∧ s.host.tree.look s.host.cwd p = .error .noEntry) ∧
      (FailsWith (Failure.IsAbout p) (s.host.tree.read s.host.cwd p) ↔ s.host.tree.Textual s.host.cwd p) ∧
      (FailsWith (Failure.IsAbout p) (s.host.tree.read? s.host.cwd p) ↔ s.host.tree.Textual s.host.cwd p)) ∧
    (∀ directory languages workers documents, 0 < workers → Sample.Storing directory (· ∈ documents) s →
      FailsWith (IsAboutMeant (· ∈ documents))
        ((Sample.extract directory languages workers documents).perform s).1) ∧
    (∀ samples workers meant, 0 < workers →
      (∀ x ∈ samples, ∀ p, x.path = some p → meant p ∧ meant x.file) → s.Legible meant →
      FailsWith (IsAboutMeant meant) ((Sample.patchDocuments samples workers).perform s).1) ∧
    (∀ r requested, r.config.Sound → r.unusable = [] →
      (files r requested ≠ [] ∨ r.command.permitsNoFiles = true) →
      (∀ file ∈ files r requested, (Path.ofText file).hasNull = false) →
      (∀ place, directory r s = some place → Sample.Storing place (IsDocument r requested) (opened r s)) →
      ∀ failure, ((prepare r (directory r s) requested).perform (opened r s)).1 = .error failure →
        IsAboutMeant (IsDocument r requested) failure ∧ ((perform r requested).perform s).1 = .error failure) ∧
    (∀ r requested, ∀ c : Course r requested s, r.command.grammar.Spares "kind" → c.Heard →
      complaints c.given = [] → (∀ p, c.IsHeld p → c.done.tree.Textual c.ready.host.cwd p) →
      FailsWith (IsAboutMeant c.IsHeld) ((perform r requested).perform s).1) ∧
    ∀ failure p, Failure.IsAbout p failure →
      (p.toText <:+: failure.message ∨ p.toText.quoted <:+: failure.message) ∧
      ∀ verbose tests, CommandLine.endingOf verbose tests (.error failure) s =
        { code := 1
          printed := s.events.flatMap (CommandLine.print verbose tests) ++
            [CommandLine.line .stderr ("Error: ".toList ++ failure.message)]
          session := s } := by
  refine ⟨FileTree.reads_faithfully s.host.tree s.host.cwd, ?_, ?_, ?_, fun r requested c => c.failsWith_perform, ?_⟩
  · intro directory languages workers documents hworkers hs
    exact (Sample.guards_extract hworkers (fun _ hd => hd) hs languages).1
  · intro samples workers meant hworkers h hs
    exact (Sample.guards_patchDocuments hworkers h hs).1
  · intro r requested hsound husable htargets hspelled hs failure hfailure
    refine ⟨failsWith_prepare hsound husable hspelled hs failure hfailure, ?_⟩
    rw [perform_of_unprepared htargets (Prod.ext hfailure rfl)]
  · intro failure p h
    exact ⟨h.names, fun verbose tests => CommandLine.endingOf_of_isAbout h verbose tests s⟩

namespace Run

/-- The file of the document's sample. -/
def readmeSampleFile : Absolute :=
  linterDirectory ++ ["tmp1$1-3.ts".toList]

/-- A session with a directory that is named as a document. -/
def directorySession : Session :=
  { readmeSession with
    host := { readmeSession.host with
      tree := readmeSession.host.tree.addDirectories ["project".toList, "guide.md".toList] } }

end Run

open Run in
/-- A document that is a directory ends the run before it starts, and a sample that the linter deletes ends it
afterwards; the program says so. -/
theorem reading_reported_missing :
    let r := linter [] (·.remove readmeSampleFile)
    (∃ failure, ((perform r ["guide.md".toList]).perform directorySession).1 = .error failure ∧
      failure.IsAbout (document r "guide.md".toList) ∧
      (CommandLine.endingOf false false (.error failure) directorySession).failure = none) ∧
      ∃ failure, ((perform r ["README.md".toList]).perform readmeSession).1 = .error failure ∧
        failure.IsAbout (.ofAbsolute readmeSampleFile) ∧
        (CommandLine.endingOf false false (.error failure) readmeSession).failure = none := by
  intro r
  constructor
  · obtain ⟨-, -, -, hprepare, -, hending⟩ := reading_reported directorySession
    have hprepared : ((prepare r (directory r directorySession) ["guide.md".toList]).perform
        (opened r directorySession)).1 = .error (.inaccessible (document r "guide.md".toList) .isDirectory) := rfl
    have hstoring (place : Absolute) (hplace : directory r directorySession = some place) :
        Sample.Storing place (IsDocument r ["guide.md".toList]) (opened r directorySession) := by
      obtain rfl : linterDirectory = place := Option.some.inj hplace
      have hstands : ∀ a ∈ linterDirectory.inits,
          (opened r directorySession).host.tree.node? a = some .directory := by decide +kernel
      have htextual : ∀ file ∈ files r ["guide.md".toList],
          (opened r directorySession).host.tree.Textual readmeSession.host.cwd (document r file) := by decide +kernel
      refine ⟨fun a ha => hstands a ((List.mem_inits _ _).2 ha), ?_⟩
      rintro p ⟨file, hfile, -, rfl⟩
      exact htextual file hfile
    obtain ⟨⟨p, ⟨file, hfile, -, rfl⟩, habout⟩, hfails⟩ := hprepare r ["guide.md".toList]
      sound_default rfl (by decide +kernel) (by decide +kernel) hstoring _ hprepared
    refine ⟨_, hfails, rfl, ?_⟩
    rw [(hending _ _ habout).2]
  · obtain ⟨-, -, -, -, hrun, hending⟩ := reading_reported readmeSession
    let c := readmeCourse [] (·.remove readmeSampleFile)
    have hheard : c.Heard := ⟨by decide +kernel, by decide +kernel⟩
    have htextual (p : Path) (hp : c.IsHeld p) : c.done.tree.Textual c.ready.host.cwd p := by
      obtain ⟨x, hx, q, hq, hp⟩ := hp
      obtain rfl := List.mem_singleton.1 hx
      obtain rfl := Option.some.inj hq
      rcases hp with rfl | rfl <;> decide +kernel
    have hfails : ((perform r ["README.md".toList]).perform readmeSession).1 =
        .error (.inaccessible (.ofAbsolute readmeSampleFile) .noEntry) := by
      rw [c.perform_of_no_complaints (by decide +kernel) hheard (by decide +kernel)]
      rfl
    obtain ⟨p, hheld, habout⟩ := hrun r ["README.md".toList] c (by decide +kernel) hheard
      (by decide +kernel) htextual _ hfails
    refine ⟨_, hfails, rfl, ?_⟩
    rw [(hending _ _ habout).2]

open Run in
/-- Bytes that are no text, and a path with a null character: reading fails for no path at all, so do extracting
a document, patching a sample and a run, and the program has no words for it. -/
theorem reading_unreported :
    let r := linter [] (·.replace readmeSampleFile [0xFF])
    let bad : Session := { readmeSession with
      host := { readmeSession.host with tree := readmeSession.host.tree.replace readmePlace [0xFF] } }
    readmeSession.host.tree.read [] (.ofAbsolute ["a\x00b".toList]) = .error .nullInPath ∧
      bad.host.tree.read [] (.ofAbsolute readmePlace) = .error .malformedText ∧
      ((Sample.extract linterDirectory [] 1 [.ofAbsolute readmePlace]).perform bad).1 = .error .malformedText ∧
      ((perform r ["README.md".toList]).perform readmeSession).1 = .error .malformedText ∧
      (∀ p, ¬ Failure.IsAbout p .nullInPath ∧ ¬ Failure.IsAbout p .malformedText) ∧
      (CommandLine.endingOf false false (.error .malformedText) bad).failure = some .malformedText := by
  intro r bad
  refine ⟨rfl, rfl, rfl, ?_, fun p => ⟨id, id⟩, rfl⟩
  let c := readmeCourse [] (·.replace readmeSampleFile [0xFF])
  rw [c.perform_of_no_complaints (by decide +kernel) ⟨by decide +kernel, by decide +kernel⟩ (by decide +kernel)]
  rfl

end Fenceline
