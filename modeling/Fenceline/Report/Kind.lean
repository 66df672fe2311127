import Fenceline.Text.Basic

/-!
# Kinds of reports

**The law.** `ofText?_name`: a kind is found by its name.
-/

namespace Fenceline

/-- What a report is about. -/
inductive Kind where
  | error
  | check
  | lint
  | diff
  | failure
  | test
  | output
  | debug
  | fatal
  deriving DecidableEq, Repr

/-- What becomes of a finished report. -/
inductive Category where
  /-- It fails the run. -/
  | fatal
  /-- It is filed as a problem of a file. -/
  | problem
  /-- It is filed as a piece of information on a file. -/
  | info
  /-- It is shown and dropped. -/
  | debug
  deriving DecidableEq, Repr

namespace Kind

/-- The name of a kind. -/
def name : Kind → String
  | error => "error"
  | check => "check"
  | lint => "lint"
  | diff => "diff"
  | failure => "failure"
  | test => "test"
  | output => "output"
  | debug => "debug"
  | fatal => "fatal"

/-- All kinds. -/
def all : List Kind :=
  [error, check, lint, diff, failure, test, output, debug, fatal]

/-- The kind of a name. -/
def ofText? (t : Text) : Option Kind :=
  all.find? (·.name.toList == t)

theorem ofText?_name (k : Kind) : ofText? k.name.toList = some k := by
  cases k <;> decide

/-- What becomes of a report of this kind. -/
def category : Kind → Category
  | error | check | lint | diff | failure => .problem
  | test | output => .info
  | debug => .debug
  | fatal => .fatal

end Kind

end Fenceline
