import Fenceline.Report.Basic

/-!
# Events

What a run tells while it goes on, in the order in which it tells it: signals for whoever watches the
reports, and log records.
-/

namespace Fenceline

/-- How much a log record matters. -/
inductive Level where
  | debug
  | info
  | warning
  deriving DecidableEq, Repr

namespace Level

/-- The name of a level. -/
def name : Level → String
  | debug => "DEBUG"
  | info => "INFO"
  | warning => "WARNING"

/-- The order of the levels, least first. -/
def rank : Level → Nat
  | debug => 0
  | info => 1
  | warning => 2

end Level

/-- What a log record is about. -/
inductive Topic where
  /-- Reading lines. -/
  | reading
  /-- Bringing locations back to documents. -/
  | locations
  /-- Filing reports. -/
  | filing
  /-- Taking samples out of documents. -/
  | sampling
  /-- Writing samples back. -/
  | patching
  /-- Starting the toolchain. -/
  | launching
  /-- A run as a whole. -/
  | running
  deriving DecidableEq, Repr

namespace Topic

/-- The name of the logger for a topic. -/
def logger : Topic → String
  | reading => "deno_report.machine"
  | locations => "deno_report.resolver"
  | filing => "deno_report.aggregator"
  | sampling => "deno_report.extractor"
  | patching => "deno_report.rewriter"
  | launching => "deno_report.process"
  | running => "deno_report.runner"

end Topic

/-- A log record. -/
structure LogRecord where
  level : Level
  topic : Topic
  message : Text
  deriving DecidableEq, Repr

/-- What whoever watches the reports is told. -/
inductive Signal where
  | problem (report : Report)
  | info (report : Report)
  | debug (notice : Notice)
  | fatal (message : Text)
  | partialProblem (draft : Draft)
  | partialInfo (draft : Draft)
  | partialDebug (draft : Draft)
  deriving DecidableEq, Repr

/-- Which signals are watched. -/
structure Watch where
  /-- Those about finished reports. -/
  finished : Bool := true
  /-- Those about reports that are still growing. -/
  growing : Bool := true
  deriving DecidableEq, Repr

/-- One thing that a run tells. -/
inductive Event where
  | signal (signal : Signal)
  | log (record : LogRecord)
  deriving DecidableEq, Repr

namespace Event

/-- The signal of an event. -/
def signal? : Event → Option Signal
  | signal s => some s
  | log _ => none

/-- The log record of an event. -/
def log? : Event → Option LogRecord
  | signal _ => none
  | log r => some r

/-- A log record as an event. -/
def logged (level : Level) (topic : Topic) (message : Text) : Event :=
  log ⟨level, topic, message⟩

end Event

end Fenceline
