import Fenceline.Command.Deno
import Fenceline.Proofs.Run.Complaints
import Fenceline.Proofs.Run.ExitCode
import Fenceline.Proofs.Run.Patched
import Fenceline.Proofs.Run.Prepared
import Fenceline.Proofs.Sample.Blocks

/-!
# How a run ends

A run that has files to run over finds out what it has to work on, and then the toolchain decides: `Course` is
such a run up to the point at which the toolchain is started, and what the toolchain does is a function of
that start. From there on the run ends in one of two ways. It fails if something that the toolchain wrote was
not accounted for, and then the files are as the toolchain left them; or it has a result for every file, and
the changes of the samples are in their documents.

**The law** (`perform_ends`): a run without files fails before anything is done; of all others it is decided by
the roles of the finished lines alone which way they end, and what they fail with is what was given out as
unrecognized and the fatal reports, in this order. The code of the toolchain decides nothing, and no run
leaves the directory of its samples behind.

**What it does not establish** (`perform_ends_otherwise`). A run has its results only if its samples and their
documents can still be read when the toolchain has ended: one whose sample was deleted fails in a way of its own.
The rules have to leave the kind of a report alone: a rule that reads a kind can make a harmless report out of a
fatal one. And names and settings have to be such that they can be worked with.
-/

namespace Fenceline

namespace Run

/-- **A run up to the start of the toolchain**: there are files to run over, or none are needed; the settings
can be worked with; the files could be searched for samples; and the toolchain is found. -/
structure Course (r : Setup) (requested : List Text) (s : Session) where
  material : Material
  ready : Session
  executable : Text
  targets : files r requested ≠ [] ∨ r.command.permitsNoFiles = true
  sound : r.config.Sound
  usable : r.unusable = []
  prepared : (prepare r (directory r s) requested).perform (opened r s) = (.ok material, ready)
  found : ready.host.which? r.config.executable = some executable

/-- **What a run needs to get to the toolchain**: files, if they are needed, settings that can be worked with,
documents that can be read, if they are searched for samples, and the toolchain. -/
structure Given (r : Setup) (requested : List Text) (s : Session) : Prop where
  targets : files r requested ≠ [] ∨ r.command.permitsNoFiles = true
  sound : r.config.Sound
  usable : r.unusable = []
  spelled : ∀ file ∈ files r requested, (Path.ofText file).hasNull = false
  readable : r.command.extracts = true → ∀ file ∈ files r requested, r.command.isScanned file = true →
    Succeeds (s.host.tree.read s.host.cwd (document r file))
  found : ∃ executable, s.host.which? r.config.executable = some executable

/-- **A run that is given what it needs gets to the toolchain.** -/
theorem Given.course {r : Setup} {requested : List Text} {s : Session} (h : Given r requested s) :
    Nonempty (Course r requested s) := by
  have hsearched : (directory r s).isSome = true → r.command.extracts = true := by
    unfold directory
    split
    · exact fun _ => ‹_›
    · exact fun hsome => nomatch hsome
  obtain ⟨material, ready, hprepared, hgrows⟩ :=
    thrives_prepare h.sound h.usable h.spelled (fun hsome => h.readable (hsearched hsome)) (opened r s)
      (grows_opened r s)
  obtain ⟨executable, hexecutable⟩ := h.found
  obtain ⟨executable, hfound⟩ := hgrows.exists_which? hexecutable
  exact ⟨⟨material, ready, executable, h.targets, h.sound, h.usable, hprepared, hfound⟩⟩

namespace Course

variable {r : Setup} {requested : List Text} {s : Session} (c : Course r requested s)

/-- How the toolchain is started. -/
def launch : Launch :=
  launchOf r (args r (directory r s) requested c.material) c.executable c.ready

/-- What the toolchain does. -/
def done : Performance :=
  r.toolchain c.launch

/-- Whether there is nothing to start the toolchain for. -/
def idle : Bool :=
  isIdle r requested c.material

/-- What is read of the toolchain's output, and the message of the read that failed. -/
def read : List Line × Option Text :=
  Transcript.lines (streams r) r.config.chunkSize.toNat (if c.idle then [] else c.done.output)

/-- Who reads the lines. -/
def reader (_ : Course r requested s) : Reader where
  grammar := r.command.grammar

/-- The lines, each with what it is to the reader when it comes. -/
def marked : List (Role × Line) :=
  c.reader.marked c.read.1

/-- What is given out, brought back to documents. -/
def given : List Outcome :=
  c.reader.given (some (resolver r (directory r s) c.material)) c.read.1

/-- The ledger of all that is given out. -/
def ledger : Ledger :=
  c.given.foldl (Ledger.filed r.watch) (blank r requested)

/-- The session when the toolchain has ended. -/
def ended (events : List Event) : Session where
  host := { c.ready.host with tree := c.done.tree }
  events := events
  launches := c.ready.launches ++ [c.launch]

/-- **The output is heard to its end**: every read goes well, and every report can be brought back. -/
structure Heard : Prop where
  read : c.read.2 = none
  placed : ∀ o ∈ (c.reader.readAll c.read.1).1, o.IsPlaced (some (resolver r (directory r s) c.material))

/-- **What the run reads once more is there**: the samples and their documents can be read when the toolchain
has ended. -/
def Intact : Prop :=
  ∀ sample ∈ c.material.samples, ∀ p, sample.path = some p →
    Succeeds (c.done.tree.read c.ready.host.cwd p) ∧ Succeeds (c.done.tree.read c.ready.host.cwd sample.file)

/-! ## The run from its start on -/

theorem perform_within : (within r (directory r s) requested).perform (opened r s) =
    if c.idle then (.ok (blank r requested).results, c.ready)
    else (work r (directory r s) requested c.material).perform c.ready := by
  rw [within_eq, if_neg (by rw [enough_files c.targets]; exact Bool.false_ne_true), Act.perform_bind_ok c.prepared]
  unfold idle
  split <;> rfl

/-- What is taken in of the output. -/
theorem close_feedAll (hg : r.command.grammar.Spares "kind") (h : c.Heard) :
    ∃ events, ((start r (directory r s) requested c.material).feedAll c.read.1).close =
      { start r (directory r s) requested c.material with
        events := events
        reader := (c.reader.readAll c.read.1).2
        ledger := c.ledger } :=
  Intake.close_feedAll_filed c.read.1 hg (fun _ hp => nomatch hp) rfl h.placed

/-- **A run concludes with what was given out**, on the files that the toolchain left. -/
theorem perform_work (hg : r.command.grammar.Spares "kind") (h : c.Heard) (hidle : c.idle = false) :
    ∃ events, (work r (directory r s) requested c.material).perform c.ready =
      (conclude r (args r (directory r s) requested c.material) c.material.samples c.done.code
        c.ledger).perform (c.ended events) := by
  have hstart : (Run.launch r (args r (directory r s) requested c.material)).perform c.ready =
      (.ok c.done, launched r (args r (directory r s) requested c.material) c.executable c.ready) := by
    rw [perform_launch, perform_seek c.usable c.found]
    rfl
  have hread : Transcript.lines (streams r) r.config.chunkSize.toNat c.done.output = (c.read.1, none) := by
    rw [← h.read]
    simp only [read, hidle, Bool.false_eq_true, if_false]
  obtain ⟨events, htaken⟩ := c.close_feedAll hg h
  have hfailure : ((start r (directory r s) requested c.material).feedAll c.read.1).close.failure = none := by
    rw [htaken]
    rfl
  rw [work, Act.perform_bind_ok hstart, Act.perform_bind_ok (perform_takeIn hread hfailure _), htaken]
  exact ⟨_, rfl⟩

theorem unrecognized_ledger (hg : r.command.grammar.Spares "kind") (h : c.Heard) :
    c.ledger.unrecognized = complaints c.given :=
  Ledger.unrecognized_foldl_filed c.given (Reader.headed_given hg rfl h.placed) _ _

theorem ledger_of_idle (hidle : c.idle = true) : c.marked = [] ∧ c.given = [] := by
  have hread : c.read = ([], none) := by
    rw [read, hidle]
    rfl
  rw [marked, given, hread]
  exact ⟨rfl, rfl⟩

/-- Nothing that stood before the run is another one when the toolchain is started. -/
theorem grows : s.Grows c.ready := by
  have h := grows_prepare r (directory r s) requested s (opened r s) (grows_opened r s)
  rwa [c.prepared] at h

/-! ## The two ends -/

/-- **What it means that a run fails for what the toolchain wrote.** -/
structure FailsFor (f : RunFault) (t : Session) : Prop where
  /-- It fails with the unrecognized lines and the fatal messages, in the order of their coming. -/
  lines : f.lines = complaints c.given
  /-- The unrecognized lines are the finished lines of the standard error that were rejected. -/
  unrecognized : c.given.filterMap Outcome.unrecognized? =
    Reader.rejectedTexts (c.marked.filter (·.2.final))
  /-- The reports are those that finished lines open, each of the kind that it was opened with. -/
  kinds : (c.given.filterMap Outcome.settled?).map Draft.kind =
    (Reader.openings c.marked).map fun o => .ok o.1
  launches : t.launches = s.launches ++ [c.launch]
  /-- What stood before the run stands as it did when the toolchain is started. -/
  stood : ∀ a node, s.host.tree.node? a = some node → c.launch.tree.node? a = some node
  /-- What the toolchain leaves is left as it is, but for the directory of the samples. -/
  left : ∀ a, (∀ place, directory r s = some place → ¬ place <+: a) →
    t.host.tree.node? a = c.done.tree.node? a

/-- **A run with a complaint fails for it.** -/
theorem perform_of_complaints (hg : r.command.grammar.Spares "kind") (h : c.Heard)
    (hcomplaints : complaints c.given ≠ []) :
    ∃ f t, (perform r requested).perform s = (.error (.run f), t) ∧ c.FailsFor f t := by
  have hbusy : c.idle = false := by
    refine Bool.eq_false_iff.2 fun hidle => hcomplaints ?_
    rw [(c.ledger_of_idle hidle).2]
    rfl
  have hlines := c.unrecognized_ledger hg h
  obtain ⟨events, hwork⟩ := c.perform_work hg h hbusy
  rw [conclude_of_complaints (by rwa [hlines]), Act.perform_fail] at hwork
  rw [perform_eq, c.perform_within, hbusy, if_neg Bool.false_ne_true, hwork]
  refine ⟨_, _, rfl, hlines, Reader.unrecognized_given _ _ _, Reader.kinds_given hg rfl _ _, ?_,
    c.grows.stays, fun a ha => ?_⟩
  · rw [← c.grows.launches]
    cases directory r s <;> rfl
  · cases hdirectory : directory r s with
    | none => rfl
    | some place => exact FileTree.node?_remove_of_not_prefix _ (ha place hdirectory)

/-- **A run without a complaint ends as the patching of its documents does.** -/
theorem perform_of_no_complaints (hg : r.command.grammar.Spares "kind") (h : c.Heard)
    (hcomplaints : complaints c.given = []) :
    ((perform r requested).perform s).1 =
      ((Sample.patchDocuments c.material.samples r.config.patchWorkers).perform (c.ended [])).1.map
        fun _ => c.ledger.results := by
  rw [perform_eq, c.perform_within]
  cases hidle : c.idle with
  | true =>
    have hsamples : c.material.samples = [] := by
      rw [idle, isIdle, Bool.and_eq_true] at hidle
      exact List.isEmpty_iff.1 hidle.2
    have hworkers := c.sound.patchWorkers
    rw [if_pos rfl, ledger, (c.ledger_of_idle hidle).2, hsamples, Sample.patchDocuments, if_neg (by omega)]
    rfl
  | false =>
    rw [if_neg Bool.false_ne_true]
    obtain ⟨events, hwork⟩ := c.perform_work hg h hidle
    obtain ⟨told, htold⟩ := perform_tellCode r c.done.code (c.ended events)
    rw [conclude_of_no_complaints ((c.unrecognized_ledger hg h).trans hcomplaints),
      Act.perform_bind_ok htold, need_of_usable c.usable, pure_bind, Act.perform_bind] at hwork
    obtain ⟨hresult, _⟩ := Sample.deaf_patchDocuments c.material.samples r.config.patchWorkers
      { c.ended events with events := told } (c.ended []) rfl
    rw [hwork, ← hresult]
    generalize (Sample.patchDocuments c.material.samples r.config.patchWorkers).perform _ = patched
    obtain ⟨result, t⟩ := patched
    cases result <;> rfl

/-- **A run that finds everything again has its results.** -/
theorem perform_of_intact (hg : r.command.grammar.Spares "kind") (h : c.Heard) (hintact : c.Intact)
    (hcomplaints : complaints c.given = []) :
    ((perform r requested).perform s).1 = .ok c.ledger.results := by
  obtain ⟨patched, t, hpatched, _⟩ :=
    Sample.thrives_patchDocuments c.sound.patchWorkers hintact (c.ended []) fun p hp => hp
  rw [c.perform_of_no_complaints hg h hcomplaints, hpatched]
  rfl

theorem ends (hg : r.command.grammar.Spares "kind") (h : c.Heard) :
    ((∃ f, ((perform r requested).perform s).1 = .error (.run f)) ↔ ∃ m ∈ c.marked, Reader.IsFault m) ∧
      (∀ f, ((perform r requested).perform s).1 = .error (.run f) →
        c.FailsFor f ((perform r requested).perform s).2) ∧
      (c.Intact → (∀ f, ((perform r requested).perform s).1 ≠ .error (.run f)) →
        ((perform r requested).perform s).1 = .ok c.ledger.results) := by
  have hfaults : complaints c.given ≠ [] ↔ ∃ m ∈ c.marked, Reader.IsFault m :=
    Reader.complaints_ne_nil_iff hg rfl h.placed
  by_cases hcomplaints : complaints c.given = []
  · have hforeign : ∀ f, ((perform r requested).perform s).1 ≠ .error (.run f) := by
      intro f hf
      rw [c.perform_of_no_complaints hg h hcomplaints] at hf
      have hpatching := Sample.failsOnly_patchDocuments c.material.samples r.config.patchWorkers (c.ended [])
      generalize ((Sample.patchDocuments c.material.samples r.config.patchWorkers).perform _).1 = patched
        at hf hpatching
      cases patched with
      | ok _ => cases hf
      | error failure =>
        obtain rfl : failure = .run f := Except.error.inj hf
        exact hpatching _ rfl
    refine ⟨?_, fun f hf => absurd hf (hforeign f), fun hintact _ => c.perform_of_intact hg h hintact hcomplaints⟩
    rw [← hfaults]
    exact ⟨fun ⟨f, hf⟩ => absurd hf (hforeign f), fun hne => absurd hcomplaints hne⟩
  · obtain ⟨f, t, hdone, hfails⟩ := c.perform_of_complaints hg h hcomplaints
    rw [hdone]
    refine ⟨⟨fun _ => hfaults.1 hcomplaints, fun _ => ⟨f, rfl⟩⟩, fun g hg => ?_,
      fun _ hnone => absurd rfl (hnone f)⟩
    cases hg
    exact hfails

end Course

/-- A run without files fails before anything is told, stored or started. -/
theorem perform_of_no_files {r : Setup} {requested : List Text} (hfiles : files r requested = [])
    (hneeded : r.command.permitsNoFiles = false) (s : Session) :
    (perform r requested).perform s = (.error .noTargets, closed (directory r s) (opened r s)) := by
  rw [perform_eq, within_eq, if_pos (by simp [hfiles, hneeded])]
  rfl

/-- **How a run ends.** Without files it fails before anything is told or started, if files are needed. A run
that is given what it needs gets to the toolchain, and if the output is heard to its end, it fails for what the
toolchain wrote just if a finished line of the standard error was rejected or a finished line opened a fatal
report; it fails with these, and on the files that the toolchain left; and otherwise it has its results, if its
samples and their documents are still there. The code of the toolchain decides nothing, and no run leaves its
directory behind. -/
theorem perform_ends (r : Setup) (requested : List Text) (s : Session) :
    (files r requested = [] → r.command.permitsNoFiles = false →
      (perform r requested).perform s = (.error .noTargets, closed (directory r s) (opened r s)) ∧
        (closed (directory r s) (opened r s)).events = s.events ∧
        (closed (directory r s) (opened r s)).launches = s.launches) ∧
      (Given r requested s → Nonempty (Course r requested s)) ∧
      (∀ c : Course r requested s, r.command.grammar.Spares "kind" → c.Heard →
        ((∃ f, ((perform r requested).perform s).1 = .error (.run f)) ↔ ∃ m ∈ c.marked, Reader.IsFault m) ∧
        (∀ f, ((perform r requested).perform s).1 = .error (.run f) →
          c.FailsFor f ((perform r requested).perform s).2) ∧
        (c.Intact → (∀ f, ((perform r requested).perform s).1 ≠ .error (.run f)) →
          ((perform r requested).perform s).1 = .ok c.ledger.results)) ∧
      (∀ code : Launch → Int,
        SameEnd ((perform r requested).perform s) ((perform (r.endingWith code) requested).perform s)) ∧
      ∀ place, directory r s = some place → ∀ names,
        ((perform r requested).perform s).2.host.tree.node? (place ++ names) = none := by
  refine ⟨fun hfiles hneeded => ⟨perform_of_no_files hfiles hneeded s, ?_, ?_⟩, Given.course, fun c => c.ends,
    fun code => sameEnd_perform r code requested s, fun place hplace => directory_gone r requested hplace⟩
  · unfold directory opened
    cases r.command.extracts <;> rfl
  · unfold directory opened
    cases r.command.extracts <;> rfl

/-! ## Runs over one file -/

/-- The configuration of someone who has set nothing can be worked with. -/
theorem sound_default : ({} : Config).Sound :=
  ⟨by decide, by decide, by decide, by decide, by decide⟩

/-- A document with one sample. -/
def readme : Text :=
  "```ts\nx\n```\n".toList

/-- The place of the document. -/
def readmePlace : Absolute :=
  ["project".toList, "README.md".toList]

/-- A session with the document and an executable of the toolchain. -/
def readmeSession : Session where
  host :=
    { tree :=
        ((({} : FileTree).put ["bin".toList, "deno".toList] [] true).put readmePlace
          (Utf8.encode readme)).addDirectories ["tmp".toList]
      cwd := ["project".toList]
      temporary := ["tmp".toList] }

/-- The sample of the document. -/
def readmeSample : Sample where
  file := .ofAbsolute readmePlace
  startLine := 1
  lineCount := 1
  column := 1
  indent := []
  language := some "ts".toList
  content := "x\n".toList

theorem chosen_readme :
    Sample.chosen readme (.ofAbsolute readmePlace) Command.lint.languages = [(readmeSample, "ts".toList)] := by
  have hall : Sample.findAll readme (.ofAbsolute readmePlace) = [readmeSample] :=
    Sample.findAll_eq_of_scanWithin 4 (by decide +kernel)
  rw [Sample.chosen, hall]
  decide +kernel

/-- A linter that tells something on its standard error and leaves the files somehow. -/
def linter (told : Text) (leaves : FileTree → FileTree) : Setup where
  command := Command.lint
  toolchain launch := { output := [.chunk .stderr (Utf8.encode told)], tree := leaves launch.tree }
  cwd := ["project".toList]

/-- The directory that the linter finds its samples in. -/
def linterDirectory : Absolute :=
  ["tmp".toList, "deno-report-0".toList]

/-- The place of the sample, and the host on which it is stored. -/
def readmeStored : Absolute × Host :=
  (opened (linter [] id) readmeSession).host.addFile linterDirectory (readmeSample.fileEnding "ts".toList)
    (Utf8.encode readmeSample.content)

/-- The linter has the sample of the document to work on. -/
def readmeMaterial : Material where
  names := [(.ofAbsolute readmePlace, "README.md".toList)]
  samples := [{ readmeSample with path := some (.ofAbsolute readmeStored.1) }]

/-- The session in which the linter is started. -/
def readmeReady : Session where
  host := readmeStored.2
  events := [.logged .debug .sampling
    ("Extracted 1 samples from ".toList ++ (Path.ofAbsolute readmePlace).toText)]

theorem prepare_readme :
    (prepare (linter [] id) (some linterDirectory) ["README.md".toList]).perform
      (opened (linter [] id) readmeSession) = (.ok readmeMaterial, readmeReady) := by
  have hfiles : files (linter [] id) ["README.md".toList] = ["README.md".toList] := by decide +kernel
  have hnames : displayNames (linter [] id).cwd ["README.md".toList] =
      .ok [(.ofAbsolute readmePlace, "README.md".toList)] := rfl
  have hdocuments : (([(.ofAbsolute readmePlace, "README.md".toList)] : Keyed Path Text).filter
      fun p => (linter [] id).command.isScanned p.2).map (·.1) = [.ofAbsolute readmePlace] := rfl
  have hread : (opened (linter [] id) readmeSession).host.tree.read ["project".toList]
      (.ofAbsolute readmePlace) = .ok readme := rfl
  have hchosen : Sample.chosen readme (.ofAbsolute readmePlace) (linter [] id).command.languages =
      [(readmeSample, "ts".toList)] := chosen_readme
  have hextracted : (Sample.extractFrom linterDirectory (linter [] id).command.languages (.ofAbsolute readmePlace)).perform
      (opened (linter [] id) readmeSession) = (.ok readmeMaterial.samples, readmeReady) := by
    rw [Sample.perform_extractFrom hread, hchosen]
    rfl
  rw [prepare, hfiles, hnames, Act.perform_bind_ok (Act.perform_ofExcept _ _), gather, need_of_usable rfl,
    pure_bind]
  dsimp only
  rw [hdocuments, Sample.extract, if_neg (by decide)]
  simp only [bind_assoc, pure_bind]
  rw [Act.perform_bind, Act.perform_pooled_cons hextracted rfl]
  rfl

/-- The run of the linter over the document. -/
def readmeCourse (told : Text) (leaves : FileTree → FileTree) :
    Course (linter told leaves) ["README.md".toList] readmeSession where
  material := readmeMaterial
  ready := readmeReady
  executable := "/bin/deno".toList
  targets := .inl (show Command.lint.accepted ["README.md".toList].eraseDups ≠ [] by decide +kernel)
  sound := sound_default
  usable := rfl
  prepared := prepare_readme
  found := rfl

/-- A linter that tells of a line of nobody's and of an error: the run fails for both. -/
theorem perform_ends_readme :
    let r := linter "stray\nerror: x\n".toList id
    Given r ["README.md".toList] readmeSession ∧ r.command.grammar.Spares "kind" ∧
      ∃ c : Course r ["README.md".toList] readmeSession, c.Heard ∧ c.Intact ∧
        (∃ m ∈ c.marked, Reader.IsFault m) ∧
        ∃ f, ((perform r ["README.md".toList]).perform readmeSession).1 = .error (.run f) ∧
          f.lines = ["stray".toList, "error: x".toList] := by
  intro r
  let c := readmeCourse "stray\nerror: x\n".toList id
  have hgiven : Given r ["README.md".toList] readmeSession :=
    ⟨c.targets, c.sound, rfl, by decide +kernel, fun _ => by decide +kernel, "/bin/deno".toList, rfl⟩
  have hspares : r.command.grammar.Spares "kind" := by decide +kernel
  have hheard : c.Heard := ⟨by decide +kernel, by decide +kernel⟩
  have hintact : c.Intact := by
    intro sample hsample p hp
    obtain rfl := List.mem_singleton.1 hsample
    obtain rfl := Option.some.inj hp
    exact ⟨by decide +kernel, by decide +kernel⟩
  have hfault : ∃ m ∈ c.marked, Reader.IsFault m := by decide +kernel
  obtain ⟨_, _, hends, _⟩ := perform_ends r ["README.md".toList] readmeSession
  obtain ⟨hfails, hfor, _⟩ := hends c hspares hheard
  obtain ⟨f, hf⟩ := hfails.2 hfault
  refine ⟨hgiven, hspares, c, hheard, hintact, hfault, f, hf, ?_⟩
  rw [(hfor f hf).lines]
  decide +kernel

/-- A command whose rules take the kind of a report from the line below its first one, and a toolchain that
tells of an error. -/
def downgrading : Setup where
  command :=
    { name := "lint".toList
      grammar := [Grammar.fatal,
        { patterns := [Grammar.line [.group "kind" (.lit "debug")]]
          states := ["fatal"]
          effect := .extends [] }] }
  toolchain launch :=
    { output := [.chunk .stderr (Utf8.encode "error: x\ndebug\n".toList)], tree := launch.tree }
  cwd := ["project".toList]

/-- The run of the command over a file. -/
def downgradingCourse : Course downgrading ["mod.ts".toList] readmeSession where
  material :=
    { names := [(.ofAbsolute ["project".toList, "mod.ts".toList], "mod.ts".toList)], samples := [] }
  ready := readmeSession
  executable := "/bin/deno".toList
  targets := .inl (by decide +kernel)
  sound := sound_default
  usable := rfl
  prepared := rfl
  found := rfl

/-- A linter that deletes the file of a sample and tells nothing: the run fails nevertheless. A fatal report that
a rule makes a harmless one: the run has its results nevertheless. And a name with a null character in it, and
a configuration that allows nobody to patch: the run fails whatever the toolchain does. -/
theorem perform_ends_otherwise :
    let lost : Absolute := linterDirectory ++ ["tmp1$1-3.ts".toList]
    let deleting := linter [] (·.remove lost)
    (∃ c : Course deleting ["README.md".toList] readmeSession, c.Heard ∧
        (∀ m ∈ c.marked, ¬ Reader.IsFault m) ∧
        ((perform deleting ["README.md".toList]).perform readmeSession).1 =
          .error (.inaccessible (.ofAbsolute lost) .noEntry)) ∧
      (∃ c : Course downgrading ["mod.ts".toList] readmeSession, c.Heard ∧
        (∃ m ∈ c.marked, Reader.IsFault m) ∧
        ((perform downgrading ["mod.ts".toList]).perform readmeSession).1 =
          .ok [{ file := "mod.ts".toList }]) ∧
      ((perform downgrading ["mod\x00.ts".toList]).perform readmeSession).1 = .error .nullInPath ∧
      ((perform { downgrading with config := { patchWorkers := 0 } } ["mod.ts".toList]).perform
        readmeSession).1 = .error .noWorkers := by
  intro lost deleting
  refine ⟨?_, ?_, by decide +kernel, by decide +kernel⟩
  · let c := readmeCourse [] (·.remove lost)
    have hheard : c.Heard := ⟨by decide +kernel, by decide +kernel⟩
    refine ⟨c, hheard, by decide +kernel, ?_⟩
    rw [c.perform_of_no_complaints (by decide +kernel) hheard (by decide +kernel)]
    rfl
  · exact ⟨downgradingCourse, ⟨by decide +kernel, by decide +kernel⟩, by decide +kernel, by decide +kernel⟩

end Run

end Fenceline
