import Fenceline.Proofs.Session
import Fenceline.Run.Basic

/-!
# The stages of a run

A run finds out what it has to work on, starts the toolchain, takes its output in, and concludes: it fails if
something was not accounted for, and patches the documents otherwise. Each stage is an act of its own, and a
run is their sequence (`within_eq`), in a session that has a directory for samples if the command searches
its files for them (`perform_eq`).
-/

namespace Fenceline

namespace Run

variable (r : Setup) (sampleDir : Option Absolute) (requested : List Text)

/-! ## What a run works on -/

/-- The files that a run is over. -/
def files : List Text :=
  r.command.accepted requested.eraseDups

/-- What a run has to work on: the spellings of its files, and its samples. -/
structure Material where
  names : Keyed Path Text
  samples : List Sample

/-- The files named, and searched for samples. -/
def prepare : Act Material := do
  let names ← Act.ofExcept (displayNames r.cwd (files r requested))
  let samples ← gather r sampleDir names
  return { names, samples }

/-- The ledger before anything was reported. -/
def blank : Ledger :=
  Ledger.ofFiles requested.eraseDups r.command.reporter

variable (m : Material)

/-- Whether there is nothing to start the toolchain for. -/
def isIdle : Bool :=
  (r.command.direct (files r requested)).isEmpty && m.samples.isEmpty

/-- The arguments of the toolchain. -/
def args : List Text :=
  let direct := r.command.direct (files r requested)
  Invocation.toArgs
    { command := r.command.name
      args := r.command.args
      conditionalArgs := r.command.conditionalArgs
      files := direct
      sampleDir := if m.samples.isEmpty then none else sampleDir.map Path.ofAbsolute
      scriptArgs := r.command.scriptArgs
      separator := r.command.separator
      hasScripts := Command.hasScripts direct }

/-- How the locations of a run are brought back. -/
def resolver : Resolver where
  cwd := .ofAbsolute r.cwd
  samples := Sample.indexed m.samples
  sampleDir := sampleDir.map Path.ofAbsolute
  displayNames := m.names
  offsets := r.command.offsets

/-- A run that has read nothing yet. -/
def start : Intake where
  watch := r.watch
  resolver := some (resolver r sampleDir m)
  reader := { grammar := r.command.grammar }
  ledger := blank r requested

/-- The end of a run whose output was taken in: it fails, or the documents are patched. -/
def conclude (args : List Text) (samples : List Sample) (code : Int) (ledger : Ledger) :
    Act (List FileResult) := do
  if !ledger.unrecognized.isEmpty then
    Act.fail (.run
      { command := r.command.name
        args
        code := some code
        lines := ledger.unrecognized
        cwd := some (Path.ofAbsolute r.cwd).toText })
  if code ≠ 0 then
    Act.log .debug .running
      ("deno ".toList ++ r.command.name ++ " exited with code ".toList ++ Text.ofInt code)
  need r .patchWorkers
  let _ ← Sample.patchDocuments samples r.config.patchWorkers
  return ledger.results

/-- The part of a run for which the toolchain is started. -/
def work : Act (List FileResult) := do
  let done ← launch r (args r sampleDir requested m)
  let ledger ← takeIn r (start r sampleDir requested m) done.output
  conclude r (args r sampleDir requested m) m.samples done.code ledger

/-- **The stages of a run.** -/
theorem within_eq :
    within r sampleDir requested =
      if (files r requested).isEmpty && !r.command.permitsNoFiles then Act.fail .noTargets
      else prepare r sampleDir requested >>= fun m =>
        if isIdle r requested m then pure (blank r requested).results
        else work r sampleDir requested m := by
  unfold within
  dsimp only
  refine ite_congr rfl (fun _ => rfl) fun _ => ?_
  simp only [prepare, bind_assoc, pure_bind]
  rfl

variable {r requested} in
/-- A run does not stop for want of files if there are some, or none are needed. -/
theorem enough_files (h : files r requested ≠ [] ∨ r.command.permitsNoFiles = true) :
    ((files r requested).isEmpty && !r.command.permitsNoFiles) = false := by
  rcases h with h | h <;> simp [h]

/-! ## The directory of the samples -/

/-- The directory that a run stores samples in, if it looks for some. -/
def directory (s : Session) : Option Absolute :=
  if r.command.extracts then some (s.host.addDirectory "deno-report-".toList).1 else none

/-- The session that a run works in. -/
def opened (s : Session) : Session :=
  if r.command.extracts then { s with host := (s.host.addDirectory "deno-report-".toList).2 } else s

/-- The session that a run leaves behind. -/
def closed (directory : Option Absolute) (s : Session) : Session :=
  match directory with
  | some place => dropDirectory place s
  | none => s

theorem host_closed_congr {s t : Session} (h : s.host = t.host) (directory : Option Absolute) :
    (closed directory s).host = (closed directory t).host := by
  cases directory with
  | none => exact h
  | some place => exact congrArg (fun h : Host => { h with tree := h.tree.remove place }) h

/-- **A run works in its directory and leaves none.** -/
theorem perform_eq (s : Session) :
    (perform r requested).perform s =
      (((within r (directory r s) requested).perform (opened r s)).1,
        closed (directory r s) ((within r (directory r s) requested).perform (opened r s)).2) := by
  unfold perform directory opened
  by_cases hextracts : r.command.extracts = true
  · simp only [if_pos hextracts]
    rfl
  · simp only [if_neg hextracts]
    rfl

/-- **The directory of the samples is gone**, whatever came of the run. -/
theorem directory_gone {s : Session} {place : Absolute} (h : directory r s = some place)
    (names : List Text) :
    ((perform r requested).perform s).2.host.tree.node? (place ++ names) = none := by
  rw [perform_eq, h]
  refine sampleDir_removed place _ names ?_
  unfold directory at h
  split at h
  · rw [← Option.some.inj h]
    simp [Host.addDirectory]
  · cases h

/-! ## What the stages come to -/

section

variable {r : Setup}

theorem need_of_usable (h : r.unusable = []) (f : Field) : need r f = pure () := by
  rw [need, if_neg (by simp [h])]

/-- The executable of the toolchain. -/
def seek (r : Setup) : Act Text := do
  need r .passedOn
  need r .executable
  let host ← Act.host
  match host.which? r.config.executable with
  | some executable => return executable
  | none => Act.fail (.executableNotFound r.config.executable)

/-- How the toolchain is started. -/
def launchOf (r : Setup) (arguments : List Text) (executable : Text) (s : Session) : Launch where
  argv := executable :: arguments
  cwd := r.cwd
  environment := pick r.config.passedOn s.host.environment
  inheritsStdout := r.command.inheritsStdout
  tree := s.host.tree

/-- The session after the toolchain was started. -/
def launched (r : Setup) (arguments : List Text) (executable : Text) (s : Session) : Session :=
  let launch := launchOf r arguments executable s
  { host := { s.host with tree := (r.toolchain launch).tree }
    events := s.events ++ [.logged .debug .launching
      ("Running ".toList ++ executable ++ ' ' :: Text.joinWith [' '] arguments ++ " in ".toList ++
        (Path.ofAbsolute r.cwd).toText)]
    launches := s.launches ++ [launch] }

theorem perform_seek (husable : r.unusable = []) {executable : Text} {s : Session}
    (hfound : s.host.which? r.config.executable = some executable) :
    (seek r).perform s = (.ok executable, s) := by
  rw [seek, need_of_usable husable, need_of_usable husable, pure_bind, pure_bind,
    Act.perform_bind_ok (Act.perform_host s), hfound]
  rfl

/-- **A toolchain that is found is started once**, and leaves the files as it does. -/
theorem perform_launch (r : Setup) (arguments : List Text) (s : Session) :
    (launch r arguments).perform s =
      match (seek r).perform s with
      | (.ok executable, t) =>
        (.ok (r.toolchain (launchOf r arguments executable t)), launched r arguments executable t)
      | (.error failure, t) => (.error failure, t) := by
  unfold launch seek
  simp only [Act.perform_bind]
  obtain ⟨passed, s⟩ := (need r .passedOn).perform s
  cases passed with
  | error failure => rfl
  | ok _ =>
    dsimp only
    obtain ⟨named, s⟩ := (need r .executable).perform s
    cases named with
    | error failure => rfl
    | ok _ =>
      dsimp only [Act.perform_host]
      cases s.host.which? r.config.executable <;> rfl

/-- **An output that can be read and filed is taken in.** -/
theorem perform_takeIn {start : Intake} {output : List Transcript.Item} {lines : List Line}
    (hread : Transcript.lines (streams r) r.config.chunkSize.toNat output = (lines, none))
    (hfiled : (start.feedAll lines).close.failure = none) (s : Session) :
    (takeIn r start output).perform s =
      (.ok (start.feedAll lines).close.ledger,
        { s with events := s.events ++ (start.feedAll lines).close.events }) := by
  simp only [takeIn, hread, Option.isSome_none, Bool.false_eq_true, if_false]
  rw [Act.perform_bind_ok (Act.perform_tell _ s), hfiled]
  rfl

/-- What a run fails with whose output was not accounted for. -/
def fault (r : Setup) (args : List Text) (code : Int) (lines : List Text) : RunFault where
  command := r.command.name
  args
  code := some code
  lines
  cwd := some (Path.ofAbsolute r.cwd).toText

/-- **What is not accounted for fails the run.** -/
theorem conclude_of_complaints {args : List Text} {samples : List Sample} {code : Int}
    {ledger : Ledger} (h : ledger.unrecognized ≠ []) :
    conclude r args samples code ledger = Act.fail (.run (fault r args code ledger.unrecognized)) := by
  rw [conclude, if_pos (by simp [h])]
  rfl

/-- The code of a toolchain, told if it is not zero. -/
def tellCode (r : Setup) (code : Int) : Act Unit :=
  if code ≠ 0 then
    Act.log .debug .running
      ("deno ".toList ++ r.command.name ++ " exited with code ".toList ++ Text.ofInt code)
  else pure ()

theorem perform_tellCode (r : Setup) (code : Int) (s : Session) :
    ∃ events, (tellCode r code).perform s = (.ok (), { s with events }) := by
  unfold tellCode
  split
  · exact ⟨_, rfl⟩
  · exact ⟨s.events, rfl⟩

/-- The end of a run of which everything was accounted for. -/
theorem conclude_of_no_complaints {args : List Text} {samples : List Sample} {code : Int}
    {ledger : Ledger} (h : ledger.unrecognized = []) :
    conclude r args samples code ledger =
      tellCode r code >>= fun _ => need r .patchWorkers >>= fun _ =>
        Sample.patchDocuments samples r.config.patchWorkers >>= fun _ => pure ledger.results := by
  rw [conclude, if_neg (by simp [h])]
  dsimp only
  unfold tellCode
  split <;> rfl

end

end Run

end Fenceline
