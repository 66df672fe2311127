import Fenceline.Event
import Fenceline.Report.Reporter

/-!
# Filing reports

A ledger has one entry for every requested file, in the order of the requests, and one more for every
other file that a report belongs to, in the order of the reports. It also collects the messages that
fail the run.

**The law.** `files_file`: filing a report adds at most the report's own file. A report that is still
growing only gives a signal; it does not touch the ledger.
-/

namespace Fenceline

/-- What was reported on one file. -/
structure FileResult where
  /-- The file, as it was requested. -/
  file : Text
  problems : List Report := []
  infos : List Report := []
  deriving DecidableEq, Repr

namespace FileResult

/-- The entry with one more report. -/
def add (r : FileResult) (report : Report) : FileResult :=
  if report.isProblem then { r with problems := r.problems ++ [report] }
  else { r with infos := r.infos ++ [report] }

end FileResult

/-- The entries, the messages that fail the run, and who turns drafts into reports. -/
structure Ledger where
  results : List FileResult
  unrecognized : List Text := []
  reporter : Option Reporter

namespace Ledger

/-- The ledger of a run over these files. -/
def ofFiles (files : List Text) (reporter : Option Reporter) : Ledger where
  results := files.eraseDups.map fun file => { file }
  reporter := reporter

/-- The entries with one more report. -/
def fileInto (report : Report) : List FileResult → List FileResult
  | [] => [FileResult.add { file := report.file } report]
  | r :: rs => if r.file = report.file then r.add report :: rs else r :: fileInto report rs

/-- The ledger with one more report. -/
def file (l : Ledger) (report : Report) : Ledger :=
  { l with results := fileInto report l.results }

/-- The ledger with one more message that fails the run. -/
def reject (l : Ledger) (message : Text) : Ledger :=
  { l with unrecognized := l.unrecognized ++ [message] }

/-- Signals, if finished reports are watched. -/
def told (watch : Watch) (signal : Signal) : List Event :=
  if watch.finished then [.signal signal] else []

/-- The signal for a finished report. -/
def signalOf (report : Report) : Signal :=
  if report.isProblem then .problem report else .info report

/-- What becomes of the draft of a finished report. -/
def add (watch : Watch) (l : Ledger) (d : Draft) : Except Failure (List Event × Ledger) := do
  let kind ← d.kind
  match kind.category with
  | .fatal =>
    let message := Text.trimEnd (← d.message)
    return (told watch (.fatal message), l.reject message)
  | .debug =>
    if watch.finished then
      return (told watch (.debug (← d.notice)), l)
    else
      return ([], l)
  | .problem | .info =>
    match l.reporter with
    | none =>
      let message ← d.message
      return ([.logged .debug .filing ("No reporter for ".toList ++ kind.name.toList ++
        " report: ".toList ++ message)], l)
    | some reporter =>
      let (report, reporter) ← reporter.report d
      let l := { l with reporter := some reporter }
      match report with
      | some report => return (told watch (signalOf report), l.file report)
      | none => return ([], l)

/-- The signal for a report that is still growing. -/
def growing (watch : Watch) (d : Draft) : Except Failure (List Event) := do
  let kind ← d.kind
  if watch.growing then
    match kind.category with
    | .problem => return [.signal (.partialProblem d)]
    | .info => return [.signal (.partialInfo d)]
    | .debug => return [.signal (.partialDebug d)]
    | .fatal => return []
  else
    return []

/-- The files of the entries. -/
def files (l : Ledger) : List Text :=
  l.results.map (·.file)

@[simp] theorem file_add (r : FileResult) (report : Report) : (r.add report).file = r.file := by
  unfold FileResult.add
  split <;> rfl

theorem files_fileInto (report : Report) (rs : List FileResult) :
    (fileInto report rs).map (·.file) =
      if report.file ∈ rs.map (·.file) then rs.map (·.file) else rs.map (·.file) ++ [report.file] := by
  induction rs with
  | nil => simp [fileInto]
  | cons r rs ih =>
    by_cases h : r.file = report.file
    · simp [fileInto, h]
    · have h' : ¬ report.file = r.file := fun e => h e.symm
      simp only [fileInto, h, if_false, List.map_cons, ih, List.mem_cons, h', false_or]
      split <;> simp

/-- **Filing a report adds at most the report's own file.** -/
theorem files_file (l : Ledger) (report : Report) :
    (l.file report).files =
      if report.file ∈ l.files then l.files else l.files ++ [report.file] :=
  files_fileInto report l.results

end Ledger

end Fenceline
