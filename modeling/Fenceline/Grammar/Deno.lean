import Fenceline.Grammar.Rule

/-!
# The output of the deno commands

One grammar for each command. Rules that take any line are confined to the states of the report that
they extend, so a line is never taken for a part of another report.
-/

namespace Fenceline.Grammar

open Pattern

/-- A whole line made of these pieces. -/
def line (pieces : List Pattern) : Pattern :=
  all (atStart :: pieces ++ [atEnd])

/-- A capital letter of ASCII. -/
def isCapital (c : Char) : Bool :=
  decide ('A' ≤ c) && decide (c ≤ 'Z')

/-- `file:line:column`, the file as short as possible. -/
def place : List Pattern :=
  [group "file" solid, lit ":", group "line" digits, lit ":", group "column" digits]

/-- What the toolchain tells of its work. -/
def narration : Rule where
  patterns := [line [anyOf (lit "Check") [lit "Download", lit "Compile", lit "Emit", lit "Warning"],
    lit " ", one notBlank, anything]]
  effect := .opens .debug

/-- An error that ends the command. -/
def fatal : Rule where
  patterns := [line [lit "error: ", anything]]
  effect := .opens .fatal
  next := some "fatal"

/-- Indented lines below an error that ends the command. -/
def fatalBody : Rule where
  patterns := [line [some1 .greedy Text.isBlank, one notBlank, anything]]
  states := ["fatal"]
  effect := .extends []

/-- A line with nothing on it. -/
def blank : Rule where
  patterns := [line [many .greedy Text.isBlank]]
  effect := .ignored

/-- Any line, in some states only. -/
def body (states : List String) : Rule where
  patterns := [line [anything]]
  states := states
  effect := .extends []

/-- How many files were looked at. -/
def checkedFiles : Pattern :=
  line [lit "Checked ", digits, lit " file", maybe "s"]

/-- The output of `deno check`. The first location of an error is its own; the later ones belong to
what is related to it. -/
def check : Grammar := [
  narration,
  { patterns := [
      line [lit "Found ", digits, lit " error", maybe "s", lit "."],
      line [lit "error: Type checking failed."]]
    effect := .opens .debug },
  { patterns := [
      line [maybe "error: ", group "rule" (seq (lit "TS") digits), lit " [",
        group "severity" (some1 .greedy isCapital), lit "]: ", group "reason" anything]]
    effect := .opens .check },
  { patterns := [line (some1 .greedy Text.isBlank :: lit "at " :: place)]
    states := ["check"]
    effect := .extends []
    next := some "related" },
  fatal,
  fatalBody,
  body ["check", "related"],
  blank]

/-- The output of `deno fmt`. -/
def fmt : Grammar := [
  narration,
  { patterns := [
      line [lit "error: Found ", digits, lit " not formatted file", maybe "s", lit " in ", digits,
        lit " file", maybe "s"],
      checkedFiles]
    effect := .opens .debug },
  { patterns := [line [lit "from ", group "file" solid, lit ":"]]
    effect := .opens .diff },
  { patterns := [line [lit "Error formatting: ", group "file" anything]]
    effect := .opens .fatal
    next := some "fatal" },
  fatal,
  fatalBody,
  body ["diff"],
  blank]

/-- The output of `deno lint`, and of `deno doc` when it lints. -/
def lint : Grammar := [
  narration,
  { patterns := [
      line [maybe "error: ", lit "Found ", digits, lit " ",
        alt (seq (lit "problem") (maybe "s")) (seq (lit "documentation lint error") (maybe "s")),
        wordEdge, anything],
      checkedFiles]
    effect := .opens .debug },
  { patterns := [
      line [alt (lit "error") (lit "warning"), lit "[", group "rule" (some1 .greedy (· != ']')),
        lit "]: ", group "reason" anything]]
    effect := .opens .lint },
  { patterns := [
      line (many .greedy Text.isBlank :: lit "-->" :: many .greedy Text.isBlank :: place)]
    states := ["lint"]
    effect := .extends []
    next := some "lint-body" },
  fatal,
  fatalBody,
  body ["lint", "lint-body"],
  blank]

/-- The output of `deno doc`. -/
def doc : Grammar :=
  [narration, fatal, fatalBody, blank]

/-- One cell of a table's row with the bar behind it. -/
def cell : Pattern :=
  all [lit " ", many .greedy (· != '|'), lit " |"]

/-- The output of `deno test`. What tests print stands between two markers, whatever it looks like;
failures are told under a heading and listed once more under another. -/
def test : Grammar := [
  { patterns := [line [lit "------- ", maybe "post-test ", lit "output -------"]]
    effect := .opens .output
    next := some "output" },
  { patterns := [line [lit "----- ", maybe "post-test ", lit "output end -----"]]
    states := ["output"]
    effect := .extends []
    next := some "default" },
  { patterns := [line [group "output" anything]]
    states := ["output"]
    effect := .extends ["output"] },
  { patterns := [line [lit " ERRORS", maybe " "]]
    effect := .opens .debug
    next := some "errors" },
  { patterns := [line [lit " FAILURES", maybe " "]]
    effect := .opens .debug
    next := some "failures" },
  { patterns := [
      line [alt (lit "ok") (lit "FAILED"), lit " | ", digits, lit " passed", anything],
      line [lit "error: Test failed"],
      line [lit "|", cell, star cell]]
    effect := .opens .debug
    next := some "default" },
  { patterns := [line (group "name" solid :: lit " => " :: place)]
    states := ["errors", "failure"]
    effect := .opens .failure
    next := some "failure" },
  { patterns := [line [group "file" solid, lit " (uncaught error)"]]
    states := ["errors", "failure"]
    effect := .opens .error
    next := some "failure" },
  { patterns := [
      line [one notBlank, anything, lit " => ", anything],
      line [one notBlank, anything, lit " (uncaught error)"]]
    states := ["failures"]
    effect := .opens .debug
    next := some "failures" },
  body ["failure"],
  { patterns := [line [lit "running 0 test", maybe "s", lit " from ", anything]]
    effect := .opens .debug
    next := some "default" },
  { patterns := [
      line [lit "running ", digits, lit " test", maybe "s", lit " from ",
        group "file" (some1 .greedy notNewline)]]
    effect := .opens .test
    next := some "default" },
  { patterns := [
      line [group "step" (star (lit "  ")), group "name" solid, lit " ...",
        opt (all [lit " ",
          group "status" (anyOf (lit "FAILED") [lit "INCOMPLETE", lit "ok", lit "ignored"]),
          opt (all [lit " ", something, lit "(",
            group "time" (many .greedy fun c => c != '(' && c != ')'), lit ")"])])]]
    effect := .opens .test
    next := some "default" },
  narration,
  fatal,
  fatalBody,
  blank]

/-- The output of `deno compile`. -/
def compile : Grammar :=
  doc

end Fenceline.Grammar
