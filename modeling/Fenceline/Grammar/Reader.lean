import Fenceline.Grammar.Rule
import Fenceline.Line.Basic
import Fenceline.Report.Draft
import Fenceline.Text.Escape

/-!
# Reading lines with a grammar

A reader holds one draft at most. A rule that opens a report delivers the draft that was held before,
a rule that extends it adds to it, and after either the draft is shown as far as it has come. Only a
finished line changes the state. A finished line of the standard error that no rule accounts for is
given out as unrecognized.

**The laws.** `state_feed_fragment`: a part of a line leaves the state as it is.
`feedAll_append`: reading two lists of lines is reading their concatenation.
-/

namespace Fenceline

/-- The draft that a reader holds, and whether the line that opened it was finished. -/
structure Pending where
  draft : Draft
  done : Bool

/-- A reader of lines. -/
structure Reader where
  grammar : Grammar
  state : String := "default"
  pending : Option Pending := none

/-- What a reader gives out. -/
inductive Outcome where
  /-- A draft, finished or as far as it has come. -/
  | flush (draft : Draft) (done : Bool)
  /-- A line that no rule accounts for. -/
  | unrecognized (line : Text)
  deriving DecidableEq, Repr

namespace Draft

/-- The draft of a report that a line opens. -/
def opened (captured : List (String × Text)) (kind : Kind) (line : Text) : Draft :=
  ((setAll [] captured).set "kind" kind.name.toList).set "message" line

/-- The draft with `value` on a line of its own below what stands under `name`. -/
def appendLine (d : Draft) (name : String) (value : Text) : Draft :=
  match d.get? name with
  | some text => d.set name (text ++ '\n' :: value)
  | none => d.set name value

/-- The draft with the parts that a part of a line names. -/
def absorb (d : Draft) (collected : List String) (captured : List (String × Text)) : Draft :=
  d.setAll (captured.filter (!collected.contains ·.1))

/-- The draft with a finished line. -/
def extended (d : Draft) (collected : List String) (captured : List (String × Text)) (line : Text) :
    Draft :=
  collected.foldl
    (fun d name =>
      match captured.lookup name with
      | some value => d.appendLine name value
      | none => d)
    ((d.absorb collected captured).appendLine "message" line)

end Draft

namespace Reader

/-- What is given out for a line that no rule accounts for. -/
def reject (line : Line) (text : Text) : List Outcome :=
  if line.final && line.stream == .stderr then [.unrecognized text] else []

/-- The draft that is held, given out as finished if its first line was. -/
def deliver (r : Reader) : List Outcome :=
  match r.pending with
  | some p => [.flush p.draft p.done]
  | none => []

/-- The reader after a line that a rule read: it shows its draft, and goes on if the line is
finished. -/
def advance (r : Reader) (rule : Rule) (line : Line) (pending : Pending) : List Outcome × Reader :=
  ([.flush pending.draft false],
    { r with
      pending := some pending
      state := if line.final then rule.stateAfter r.state else r.state })

/-- What a line gives. -/
def feed (r : Reader) (line : Line) : List Outcome × Reader :=
  let text := Text.stripEscapes line.text
  match r.grammar.select r.state text with
  | none => (reject line text, r)
  | some { rule, reading, .. } =>
    match rule.effect, r.pending with
    | .ignored, _ => ([], r)
    | .opens kind, _ =>
      let (shown, s) := r.advance rule line ⟨.opened reading.captured kind text, line.final⟩
      (r.deliver ++ shown, s)
    | .extends collected, some pending =>
      let draft :=
        if line.final then pending.draft.extended collected reading.captured text
        else pending.draft.absorb collected reading.captured
      r.advance rule line { pending with draft }
    | .extends _, none => (reject line text, r)

/-- What the end of the output gives. -/
def close (r : Reader) : List Outcome × Reader :=
  (r.deliver, { r with pending := none })

/-- What several lines give. -/
def feedAll (r : Reader) : List Line → List Outcome × Reader
  | [] => ([], r)
  | line :: rest =>
    let (outcomes, r) := r.feed line
    let (more, r) := r.feedAll rest
    (outcomes ++ more, r)

/-- What a whole output gives. -/
def readAll (r : Reader) (lines : List Line) : List Outcome × Reader :=
  let (outcomes, r) := r.feedAll lines
  let (more, r) := r.close
  (outcomes ++ more, r)

/-- **A part of a line leaves the state as it is.** -/
theorem state_feed_fragment (r : Reader) {line : Line} (h : line.final = false) :
    (r.feed line).2.state = r.state := by
  simp only [feed]
  split
  · rfl
  · split <;> simp [advance, h]

/-- **Reading two lists of lines is reading their concatenation.** -/
theorem feedAll_append (r : Reader) (a b : List Line) :
    r.feedAll (a ++ b) =
      ((r.feedAll a).1 ++ ((r.feedAll a).2.feedAll b).1, ((r.feedAll a).2.feedAll b).2) := by
  induction a generalizing r with
  | nil => simp [feedAll]
  | cons line a ih => simp [feedAll, ih]

end Reader

end Fenceline
