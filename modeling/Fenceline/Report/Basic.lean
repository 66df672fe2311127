import Fenceline.Report.Draft

/-!
# Reports

A finished report with what it is about. A line or column that the toolchain did not give is `-1`, or
absent where the report allows it.
-/

namespace Fenceline

/-- A problem at a place, found by a rule. -/
structure Finding where
  message : Text
  file : Text
  line : Int
  column : Int
  rule : Text
  reason : Text
  deriving DecidableEq, Repr

/-- What a test or a step of it came to. -/
structure TestOutcome where
  message : Text
  file : Text
  /-- The name of the test, then the names of the steps within it. -/
  test : List Text
  /-- Whether the test passed or was left out. -/
  success : Bool
  status : Text
  /-- The line of a test in a document. -/
  line : Option Int
  time : Option Text
  deriving DecidableEq, Repr

/-- A finished report. -/
inductive Report where
  | error (message file : Text) (line column : Option Int)
  | check (finding : Finding)
  | lint (finding : Finding)
  | diff (message file : Text)
  | failure (message file : Text) (line column : Int) (test : List Text)
  | test (outcome : TestOutcome)
  | output (message file : Text) (test : List Text) (output : Text)
  deriving DecidableEq, Repr

/-- A report that is shown and dropped: what it says, and the fields beside it. -/
structure Notice where
  message : Text
  fields : Draft
  deriving DecidableEq, Repr

namespace Report

/-- The kind of a report. -/
def kind : Report → Kind
  | error .. => .error
  | check _ => .check
  | lint _ => .lint
  | diff .. => .diff
  | failure .. => .failure
  | test _ => .test
  | output .. => .output

/-- The file that a report belongs to. -/
def file : Report → Text
  | error _ file _ _ => file
  | check f => f.file
  | lint f => f.file
  | diff _ file => file
  | failure _ file _ _ _ => file
  | test o => o.file
  | output _ file _ _ => file

/-- What a report says. -/
def message : Report → Text
  | error message _ _ _ => message
  | check f => f.message
  | lint f => f.message
  | diff message _ => message
  | failure message _ _ _ _ => message
  | test o => o.message
  | output message _ _ _ => message

/-- Whether the report is a problem; otherwise it is a piece of information. -/
def isProblem (r : Report) : Bool :=
  r.kind.category == .problem

end Report

end Fenceline
