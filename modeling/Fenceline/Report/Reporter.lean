import Fenceline.Report.Basic
import Fenceline.Text.Numeral

/-!
# From drafts to reports

A diagnostic speaks for itself. A test does not: which file it is in and which test a step belongs to
was said on lines before, so a reporter of tests remembers the file that is running and the names of
the test and the steps that are open, two spaces of indentation to a step.
-/

namespace Fenceline

/-- What stands for a text that the toolchain did not give. -/
def unknown : Text :=
  "<unknown>".toList

namespace Draft

/-- A number of the draft, `-1` if there is none. -/
def number (d : Draft) (name : String) : Int :=
  ((d.get? name).bind Text.readInt?).getD (-1)

/-- A number of the draft, if there is one other than `-1`. -/
def number? (d : Draft) (name : String) : Option Int :=
  let n := d.number name
  if n = -1 then none else some n

/-- A text of the draft, or what stands for it. -/
def textOr (d : Draft) (name : String) (default : Text) : Text :=
  (d.get? name).getD default

/-- What a rule found. -/
def finding (d : Draft) (message : Text) : Finding where
  message := message
  file := d.textOr "file" unknown
  line := d.number "line"
  column := d.number "column"
  rule := d.textOr "rule" unknown
  reason := d.textOr "reason" unknown

/-- The report of a diagnostic. -/
def diagnostic? (d : Draft) : Except Failure (Option Report) := do
  let kind ← d.kind
  let message := Text.trimEnd (← d.message)
  let file := d.textOr "file" unknown
  return match kind with
    | .check => some (.check (d.finding message))
    | .lint => some (.lint (d.finding message))
    | .diff => some (.diff message file)
    | .error => some (.error message file (d.number? "line") (d.number? "column"))
    | _ => none

/-- What is shown of a report that is dropped. -/
def notice (d : Draft) : Except Failure Notice := do
  let message ← d.message
  return ⟨message.trimEnd, d.filter fun f => f.1 != "kind" && f.1 != "message"⟩

end Draft

/-- What a reporter of tests remembers. -/
structure TestRun where
  /-- The file that is running. -/
  file : Text := unknown
  /-- The line of a test in a document. -/
  line : Option Int := none
  /-- The names of the test and the steps that are open. -/
  test : List Text := []
  deriving DecidableEq, Repr

namespace Text

/-- The texts between the occurrences of `sep`. An empty `sep` stands nowhere. -/
def cutAtText (sep : Text) : Text → List Text
  | [] => [[]]
  | c :: r =>
    match cutPrefix? sep (c :: r) with
    | some rest =>
      if rest.length < (c :: r).length then [] :: cutAtText sep rest else glue c (cutAtText sep r)
    | none => glue c (cutAtText sep r)
termination_by t => t.length
decreasing_by all_goals simp_all
where
  /-- The pieces with a character before the first of them. -/
  glue (c : Char) : List Text → List Text
    | [] => [[c]]
    | p :: ps => (c :: p) :: ps

end Text

namespace TestRun

/-- The steps of an indentation. -/
def depth (d : Draft) : Nat :=
  (d.textOr "step" []).length / 2

/-- The run after a test was named, with the names open before it cut to its depth. -/
def enter (run : TestRun) (d : Draft) (name : Text) : TestRun :=
  { run with test := run.test.take (depth d) ++ [name] }

/-- A status that is no failure. -/
def isSuccess (status : Text) : Bool :=
  status == "ok".toList || status == "ignored".toList

/-- What a line about tests gives. -/
def status (run : TestRun) (d : Draft) (message : Text) : Option Report × TestRun :=
  match d.get? "name" with
  | none => (none, { run with file := d.textOr "file" unknown, line := d.number? "line" })
  | some name =>
    let run := run.enter d name
    match d.get? "status" with
    | none => (none, run)
    | some status =>
      (some (.test {
        message, file := run.file, test := run.test, success := isSuccess status, status,
        line := run.line, time := d.get? "time" }), run)

/-- What a draft gives. -/
def report (run : TestRun) (d : Draft) : Except Failure (Option Report × TestRun) := do
  let kind ← d.kind
  let message := Text.trimEnd (← d.message)
  match kind with
  | .test => return run.status d message
  | .output => return (some (.output message run.file run.test (d.textOr "output" [])), run)
  | .failure =>
    return (some (.failure message (d.textOr "file" unknown) (d.number "line") (d.number "column")
      (Text.cutAtText " ... ".toList (d.textOr "name" unknown))), run)
  | _ => return (← d.diagnostic?, run)

end TestRun

/-- Who turns drafts into reports. -/
inductive Reporter where
  | diagnostic
  | tests (run : TestRun)
  deriving DecidableEq, Repr

namespace Reporter

/-- What a draft gives, and the reporter after it. -/
def report (r : Reporter) (d : Draft) : Except Failure (Option Report × Reporter) :=
  match r with
  | diagnostic => do return (← d.diagnostic?, diagnostic)
  | tests run => do
    let (report, run) ← run.report d
    return (report, tests run)

end Reporter

end Fenceline
