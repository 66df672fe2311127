import Fenceline.Grammar.Reader
import Fenceline.Ledger
import Fenceline.Location.Resolver

/-!
# Taking in output

Lines go to a reader; the drafts that it gives out are brought back to documents and then filed, or shown
if they are still growing; lines that no rule accounts for go to the ledger. The first failure ends it.

**The law.** `feedAll_append`: taking in two lists of lines is taking in their concatenation.
-/

namespace Fenceline

/-- A reader, a ledger, what has been told, and the failure that ended it. -/
structure Intake where
  watch : Watch := {}
  /-- How locations are brought back to documents; none leaves them as they are. -/
  resolver : Option Resolver := none
  reader : Reader
  ledger : Ledger
  events : List Event := []
  failure : Option Failure := none

namespace Intake

/-- The intake with more events and, unless it failed, another ledger. -/
def withResult (i : Intake) (events : List Event) (r : Except Failure Ledger) : Intake :=
  match r with
  | .ok ledger => { i with events := i.events ++ events, ledger }
  | .error failure => { i with events := i.events ++ events, failure := some failure }

/-- A draft brought back to documents, and what is told of that. -/
def place (i : Intake) (d : Draft) : List Event × Except Failure Draft :=
  match i.resolver with
  | some r => (r.notices d, r.resolve d)
  | none => ([], .ok d)

/-- The intake after a draft that is in its place. -/
def file (i : Intake) (d : Draft) (done : Bool) : Intake :=
  if done then
    match i.ledger.add i.watch d with
    | .ok (events, ledger) => i.withResult events (.ok ledger)
    | .error failure => i.withResult [] (.error failure)
  else
    match Ledger.growing i.watch d with
    | .ok events => i.withResult events (.ok i.ledger)
    | .error failure => i.withResult [] (.error failure)

/-- The intake after something that the reader gives out. -/
def take (i : Intake) (o : Outcome) : Intake :=
  if i.failure.isSome then i
  else
    match o with
    | .unrecognized line =>
      i.withResult [.logged .warning .reading ("Unrecognized output: ".toList ++ line)]
        (.ok (i.ledger.reject line))
    | .flush d done =>
      match i.place d with
      | (notices, .ok d) => (i.withResult notices (.ok i.ledger)).file d done
      | (notices, .error failure) => i.withResult notices (.error failure)

/-- The intake after a line. -/
def feed (i : Intake) (line : Line) : Intake :=
  if i.failure.isSome then i
  else
    let (outcomes, reader) := i.reader.feed line
    outcomes.foldl take { i with reader }

/-- The intake after several lines. -/
def feedAll (i : Intake) (lines : List Line) : Intake :=
  lines.foldl feed i

/-- The intake after the end of the output. -/
def close (i : Intake) : Intake :=
  if i.failure.isSome then i
  else
    let (outcomes, reader) := i.reader.close
    outcomes.foldl take { i with reader }

/-- **Taking in two lists of lines is taking in their concatenation.** -/
theorem feedAll_append (i : Intake) (a b : List Line) :
    i.feedAll (a ++ b) = (i.feedAll a).feedAll b :=
  List.foldl_append

end Intake

end Fenceline
