import Fenceline.Command.Basic
import Fenceline.Config.Basic
import Fenceline.Run.Intake
import Fenceline.Run.Invocation
import Fenceline.Sample.Extraction
import Fenceline.Sample.Patching
import Fenceline.Transcript

/-!
# Runs

A run of a command: the accepted files are searched for samples, the toolchain is started over files and
samples, its output is taken in, and samples that it changed are patched into their documents. A run
whose output was not accounted for fails, and nothing is patched.

**The law.** `sampleDir_removed`: whatever comes of a run, the directory of its samples is gone
afterwards.
-/

namespace Fenceline

/-- What a toolchain does once it is started: what it writes, what it leaves the files like, and the code
with which it ends. -/
structure Performance where
  output : List Transcript.Item := []
  code : Int := 0
  tree : FileTree

/-- A toolchain, by what it does when it is started. -/
abbrev Toolchain := Launch → Performance

namespace Run

/-- What a run is over. -/
structure Setup where
  command : Command
  config : Config := {}
  watch : Watch := {}
  toolchain : Toolchain
  /-- The directory that the toolchain is started in. -/
  cwd : Absolute
  /-- Settings whose values cannot be worked with, if the configuration was not checked. -/
  unusable : List Field := []

/-- Nothing, unless a setting that is needed has a value that cannot be worked with. -/
def need (r : Setup) (f : Field) : Act Unit :=
  if r.unusable.contains f then Act.fail (.unusableSetting f.name) else pure ()

/-- The spelling under which each file was given, the last one if there are several. -/
def displayNames (cwd : Absolute) (files : List Text) : Except Failure (Keyed Path Text) := do
  let places ← files.mapM fun file =>
    let p := Path.ofText file
    if p.hasNull then .error .nullInPath else .ok (.ofAbsolute (p.resolve cwd), file)
  return Keyed.ofList places

/-- The samples of the files that are searched, stored in a directory if there is one. -/
def gather (r : Setup) (sampleDir : Option Absolute) (names : Keyed Path Text) :
    Act (List Sample) := do
  match sampleDir with
  | some directory =>
    need r .extractWorkers
    let documents := (names.filter fun p => r.command.isScanned p.2).map (·.1)
    Sample.extract directory r.command.languages r.config.extractWorkers documents
  | none => return []

/-- The toolchain started with arguments. -/
def launch (r : Setup) (args : List Text) : Act Performance := do
  need r .passedOn
  need r .executable
  let host ← Act.host
  let some executable := host.which? r.config.executable
    | Act.fail (.executableNotFound r.config.executable)
  Act.log .debug .launching
    ("Running ".toList ++ executable ++ ' ' :: Text.joinWith [' '] args ++ " in ".toList ++
      (Path.ofAbsolute r.cwd).toText)
  let launch : Launch :=
    { argv := executable :: args
      cwd := r.cwd
      environment := pick r.config.passedOn host.environment
      inheritsStdout := r.command.inheritsStdout
      tree := host.tree }
  modify fun s => { s with launches := s.launches ++ [launch] }
  let done := r.toolchain launch
  Act.setTree done.tree
  return done

/-- The streams of the toolchain that are read. -/
def streams (r : Setup) : List Stream :=
  if r.command.inheritsStdout then [.stderr] else [.stdout, .stderr]

/-- The ledger of an output, all of it taken in. -/
def takeIn (r : Setup) (start : Intake) (output : List Transcript.Item) : Act Ledger := do
  let (lines, broken) := Transcript.lines (streams r) r.config.chunkSize.toNat output
  let read := start.feedAll lines
  let done := if broken.isSome then read else read.close
  Act.tell done.events
  match done.failure, broken with
  | some failure, _ => Act.fail failure
  | none, some message => Act.fail (.unreadable message)
  | none, none => return done.ledger

/-- A run, its samples being stored in a directory if there is one. -/
def within (r : Setup) (sampleDir : Option Absolute) (requested : List Text) :
    Act (List FileResult) := do
  let requested := requested.eraseDups
  let files := r.command.accepted requested
  if files.isEmpty && !r.command.permitsNoFiles then Act.fail .noTargets
  let names ← Act.ofExcept (displayNames r.cwd files)
  let samples ← gather r sampleDir names
  let direct := r.command.direct files
  let ledger := Ledger.ofFiles requested r.command.reporter
  if direct.isEmpty && samples.isEmpty then
    return ledger.results
  let sampleDir := sampleDir.map Path.ofAbsolute
  let invocation : Invocation :=
    { command := r.command.name
      args := r.command.args
      conditionalArgs := r.command.conditionalArgs
      files := direct
      sampleDir := if samples.isEmpty then none else sampleDir
      scriptArgs := r.command.scriptArgs
      separator := r.command.separator
      hasScripts := Command.hasScripts direct }
  let args := invocation.toArgs
  let resolver : Resolver :=
    { cwd := .ofAbsolute r.cwd
      samples := Sample.indexed samples
      sampleDir := sampleDir
      displayNames := names
      offsets := r.command.offsets }
  let done ← launch r args
  let start : Intake :=
    { watch := r.watch, resolver := some resolver, reader := { grammar := r.command.grammar }, ledger }
  let ledger ← takeIn r start done.output
  if !ledger.unrecognized.isEmpty then
    Act.fail (.run
      { command := r.command.name
        args := args
        code := some done.code
        lines := ledger.unrecognized
        cwd := some (Path.ofAbsolute r.cwd).toText })
  if done.code ≠ 0 then
    Act.log .debug .running
      ("deno ".toList ++ r.command.name ++ " exited with code ".toList ++ Text.ofInt done.code)
  need r .patchWorkers
  let _ ← Sample.patchDocuments samples r.config.patchWorkers
  return ledger.results

/-- The session without a directory. -/
def dropDirectory (directory : Absolute) (s : Session) : Session :=
  { s with host := { s.host with tree := s.host.tree.remove directory } }

/-- A run over the files requested, with one result for each of them. -/
def perform (r : Setup) (requested : List Text) : Act (List FileResult) := do
  if r.command.extracts then
    let (directory, host) := (← Act.host).addDirectory "deno-report-".toList
    Act.setHost host
    (within r (some directory) requested).andThen (dropDirectory directory)
  else
    within r none requested

/-- **The directory of samples is gone afterwards.** -/
theorem sampleDir_removed (directory : Absolute) (s : Session) (names : List Text)
    (h : directory ++ names ≠ []) :
    (dropDirectory directory s).host.tree.node? (directory ++ names) = none := by
  simp only [dropDirectory, FileTree.remove, FileTree.node?, h, if_false]
  induction s.host.tree.nodes with
  | nil => rfl
  | cons p nodes ih =>
    rw [List.filter_cons]
    split
    · rename_i hp
      rw [Keyed.get?]
      split
      · rename_i he
        rw [he, List.isPrefixOf_iff_prefix.2 (List.prefix_append ..)] at hp
        simp at hp
      · exact ih
    · exact ih

end Run

end Fenceline
