import Fenceline.Proofs.Grammar.Bursts
import Fenceline.Proofs.Pattern.Spelling

/-!
# The rules for the output of tests

Most rules for the output of tests apply in every state, and what a test prints or is called may look like
anything. So for each rule that is tried before others it is said what a line has to look like to be read by it:
its lines are spelled out (`testOutput`, `testErrors`, `testFailures`), begin in a certain way (`testFile`), or
begin in a certain way or end in a bar (`testSummary`).
-/

namespace Fenceline

namespace Grammar

open Pattern

/-- The lines that begin what a test prints. -/
def outputMarkers : List Text :=
  ["------- output -------".toList, "------- post-test output -------".toList]

/-- The lines that end it. -/
def outputEnds : List Text :=
  ["----- output end -----".toList, "----- post-test output end -----".toList]

/-- What a test prints begins. -/
def testOutput : Rule where
  patterns := [line [lit "------- ", maybe "post-test ", lit "output -------"]]
  effect := .opens .output
  next := some "output"

/-- What a test prints ends. -/
def testOutputEnd : Rule where
  patterns := [line [lit "----- ", maybe "post-test ", lit "output end -----"]]
  states := ["output"]
  effect := .extends []
  next := some "default"

/-- What a test prints. -/
def testOutputLine : Rule where
  patterns := [line [group "output" anything]]
  states := ["output"]
  effect := .extends ["output"]

/-- The heading above the failures and what is told of each. -/
def testErrors : Rule where
  patterns := [line [lit " ERRORS", maybe " "]]
  effect := .opens .debug
  next := some "errors"

/-- The heading above the list of the failures. -/
def testFailures : Rule where
  patterns := [line [lit " FAILURES", maybe " "]]
  effect := .opens .debug
  next := some "failures"

/-- How many tests passed. -/
def passedPieces : List Pattern :=
  [alt (lit "ok") (lit "FAILED"), lit " | ", digits, lit " passed", anything]

/-- What is said of all tests. -/
def testSummary : Rule where
  patterns := [line passedPieces, line [lit "error: Test failed"], line [lit "|", cell, star cell]]
  effect := .opens .debug
  next := some "default"

/-- The first line of what is told of a failure. -/
def testFailure : Rule where
  patterns := [line (group "name" solid :: lit " => " :: place)]
  states := ["errors", "failure"]
  effect := .opens .failure
  next := some "failure"

/-- The first line of what is told of an error outside of all tests. -/
def testUncaught : Rule where
  patterns := [line [group "file" solid, lit " (uncaught error)"]]
  states := ["errors", "failure"]
  effect := .opens .error
  next := some "failure"

/-- A failure in the list. -/
def listedPieces : List Pattern :=
  [one notBlank, anything, lit " => ", anything]

/-- The list of the failures. -/
def testListed : Rule where
  patterns := [line listedPieces, line [one notBlank, anything, lit " (uncaught error)"]]
  states := ["failures"]
  effect := .opens .debug
  next := some "failures"

/-- A file without tests. -/
def testNone : Rule where
  patterns := [line [lit "running 0 test", maybe "s", lit " from ", anything]]
  effect := .opens .debug
  next := some "default"

/-- How many tests are in a file. -/
def filePieces : List Pattern :=
  [lit "running ", digits, lit " test", maybe "s", lit " from ", group "file" (some1 .greedy notNewline)]

/-- The tests of a file begin. -/
def testFile : Rule where
  patterns := [line filePieces]
  effect := .opens .test
  next := some "default"

/-- How long a test took. -/
def timePieces : Pattern :=
  opt (all [lit " ", something, lit "(", group "time" (many .greedy fun c => c != '(' && c != ')'), lit ")"])

/-- What a test came to. -/
def verdictPieces : Pattern :=
  opt (all [lit " ", group "status" (anyOf (lit "FAILED") [lit "INCOMPLETE", lit "ok", lit "ignored"]), timePieces])

/-- A test or a step of it. -/
def statusPieces : List Pattern :=
  [group "step" (star (lit "  ")), group "name" solid, lit " ...", verdictPieces]

/-- A test or a step begins or has ended. -/
def testStatus : Rule where
  patterns := [line statusPieces]
  effect := .opens .test
  next := some "default"

theorem test_eq : test =
    [testOutput, testOutputEnd, testOutputLine, testErrors, testFailures, testSummary, testFailure, testUncaught,
      testListed, body ["failure"], testNone, testFile, testStatus, narration, fatal, fatalBody, blank] :=
  rfl

/-- Outside of what a test prints and of failures, no line extends a report. -/
theorem idle_test : test.Idle "default" := by
  decide

variable {t : Text}

/-! ## Lines that a rule does not read -/

theorem isNone_of_not_spells {rule : Rule} {pieces : List Pattern} (hrule : rule.patterns = [line pieces])
    (hline : '\n' ∉ t) (h : ¬ (all pieces).Spells t) : (rule.read? t).isNone = true :=
  read?_isNone fun p hp => by
    rw [hrule, List.mem_singleton] at hp
    rw [hp, find?_of_not_spells hline h]

/-- **A rule reads a line that one of its patterns spells.** -/
theorem exists_read? (rule : Rule) {pieces : List Pattern} (hrule : line pieces ∈ rule.patterns)
    (hpieces : (all pieces).Anywhere = true) (h : (all pieces).Spells t) : ∃ reading, rule.read? t = some reading := by
  refine Option.isSome_iff_exists.1 (List.findSome?_isSome_iff.2 ⟨line pieces, hrule, ?_⟩)
  rw [Option.isSome_map]
  exact isSome_find?_of_spells hpieces h

/-- A rule without names captures nothing. -/
theorem captured_eq_nil {rule : Rule} {reading : Reading} (hrule : ∀ p ∈ rule.patterns, p.names = [])
    (hread : rule.read? t = some reading) : reading.captured = [] := by
  obtain ⟨p, hp, hfound⟩ := List.exists_of_findSome?_eq_some hread
  obtain ⟨m, -, rfl⟩ := Option.map_eq_some_iff.1 hfound
  show (p.names.map _).filterMap _ = []
  rw [hrule p hp]
  rfl

theorem testOutput_isNone (hline : '\n' ∉ t) (h : t ∉ outputMarkers) : (testOutput.read? t).isNone = true := by
  refine isNone_of_not_spells rfl hline ?_
  rintro ⟨u, v, rfl, ⟨w, x, hw, rfl, rfl⟩, rfl⟩
  rcases hw with rfl | rfl
  · exact h (by decide)
  · exact h (by decide)

theorem testOutputEnd_isNone (hline : '\n' ∉ t) (h : t ∉ outputEnds) : (testOutputEnd.read? t).isNone = true := by
  refine isNone_of_not_spells rfl hline ?_
  rintro ⟨u, v, rfl, ⟨w, x, hw, rfl, rfl⟩, rfl⟩
  rcases hw with rfl | rfl
  · exact h (by decide)
  · exact h (by decide)

theorem testErrors_isNone (hline : '\n' ∉ t) (h : t ∉ [" ERRORS".toList, " ERRORS ".toList]) :
    (testErrors.read? t).isNone = true := by
  refine isNone_of_not_spells rfl hline ?_
  rintro ⟨u, v, rfl, hv, rfl⟩
  rcases hv with rfl | rfl
  · exact h (by decide)
  · exact h (by decide)

theorem testFailures_isNone (hline : '\n' ∉ t) (h : t ∉ [" FAILURES".toList, " FAILURES ".toList]) :
    (testFailures.read? t).isNone = true := by
  refine isNone_of_not_spells rfl hline ?_
  rintro ⟨u, v, rfl, hv, rfl⟩
  rcases hv with rfl | rfl
  · exact h (by decide)
  · exact h (by decide)

/-- A text in front of a digit. -/
def BeforeDigit (front t : Text) : Prop :=
  ∃ x, Text.isDecimal x = true ∧ front ++ [x] <+: t

/-- A run of digits begins with one. -/
theorem beforeDigit_of_spells (front : Text) {u v : Text} (h : digits.Spells u) :
    BeforeDigit front (front ++ (u ++ v)) := by
  obtain ⟨run, more, ⟨x, hx, rfl⟩, -, rfl⟩ := h
  exact ⟨x, hx, more ++ v, by simp⟩

theorem spells_digits (h : Reference.Digits t) : digits.Spells t := by
  obtain ⟨x, run, rfl⟩ := List.exists_cons_of_ne_nil h.ne_nil
  obtain ⟨hx, hrun⟩ := List.forall_mem_cons.1 h.isDecimal
  exact ⟨[x], run, ⟨x, hx, rfl⟩, hrun, rfl⟩

/-- A row of cells ends in a bar. -/
theorem getLast?_of_spells_cell (h : cell.Spells t) : t.getLast? = some '|' := by
  obtain ⟨u, v, rfl, ⟨w, x, -, rfl, rfl⟩, rfl⟩ := h
  rw [← List.append_assoc, List.getLast?_append]
  rfl

theorem getLast?_of_spells_row (h : (all [lit "|", cell, star cell]).Spells t) : t.getLast? = some '|' := by
  obtain ⟨u, v, rfl, ⟨w, x, hw, ⟨pieces, hpieces, rfl⟩, rfl⟩, rfl⟩ := h
  rcases List.eq_nil_or_concat' pieces with rfl | ⟨before, last, rfl⟩
  · rw [List.flatten_nil, List.append_nil, List.getLast?_append, getLast?_of_spells_cell hw]
    rfl
  · have hlast := getLast?_of_spells_cell (hpieces last (by simp))
    rw [List.flatten_append, List.flatten_singleton, ← List.append_assoc, ← List.append_assoc,
      List.getLast?_append, hlast]
    rfl

/-- **A line that is no summary**: it does not begin as one, is not the last line, and is no row of a table. -/
theorem testSummary_isNone (hline : '\n' ∉ t) (hok : ¬ BeforeDigit "ok | ".toList t)
    (hfailed : ¬ BeforeDigit "FAILED | ".toList t) (herror : t ≠ "error: Test failed".toList)
    (hrow : t.head? = some '|' → t.getLast? ≠ some '|') : (testSummary.read? t).isNone = true := by
  refine read?_isNone fun p hp => ?_
  simp only [testSummary, List.mem_cons, List.not_mem_nil, or_false] at hp
  rcases hp with rfl | rfl | rfl
  · refine find?_of_not_spells hline ?_
    rintro ⟨u, v, hword, ⟨w, x, rfl, ⟨number, rest, hnumber, -, rfl⟩, rfl⟩, rfl⟩
    rcases hword with rfl | rfl
    · exact hok (beforeDigit_of_spells "ok | ".toList hnumber)
    · exact hfailed (beforeDigit_of_spells "FAILED | ".toList hnumber)
  · exact find?_of_not_spells hline herror
  · refine find?_of_not_spells hline fun h => hrow ?_ (getLast?_of_spells_row h)
    obtain ⟨u, v, rfl, -, rfl⟩ := h
    rfl

/-- A line that says of no file how many tests are in it. -/
theorem testFile_isNone (hline : '\n' ∉ t) (h : ¬ BeforeDigit "running ".toList t) :
    (testNone.read? t).isNone = true ∧ (testFile.read? t).isNone = true := by
  constructor
  · refine isNone_of_not_spells rfl hline ?_
    rintro ⟨u, v, rfl, -, rfl⟩
    exact h ⟨'0', by decide +kernel, List.prefix_append_of_prefix (by decide)⟩
  · refine isNone_of_not_spells rfl hline ?_
    rintro ⟨u, v, rfl, ⟨number, rest, hnumber, -, rfl⟩, rfl⟩
    exact h (beforeDigit_of_spells _ hnumber)

/-- A text with another first character is in front of no digit. -/
theorem not_beforeDigit_of_head? {front : Text} {x : Char} (hfront : front.head? = some x)
    (hx : t.head? ≠ some x) : ¬ BeforeDigit front t := by
  obtain ⟨front, rfl⟩ := List.head?_eq_some_iff.1 hfront
  rintro ⟨y, -, more, rfl⟩
  exact hx rfl

/-- A name in front of something is in front of no digit, if it does not begin so. -/
theorem not_beforeDigit_of_name {front name rest : Text} {y : Char} (hname : ¬ front <+: name) (hy : y ∉ front)
    (hdigit : Text.isDecimal y = false) : ¬ BeforeDigit front (name ++ ' ' :: y :: rest) := by
  have hspace : Text.isDecimal ' ' = false := by decide +kernel
  rintro ⟨x, hx, hbegin⟩
  have hyx : y ∉ front ++ [x] := by
    refine List.not_mem_append hy fun hmem => ?_
    rw [← List.mem_singleton.1 hmem, hdigit] at hx
    cases hx
  have hbegin : front ++ [x] <+: (name ++ [' ']) ++ y :: rest := by
    rw [List.append_assoc]
    exact hbegin
  rcases List.prefix_concat_iff.1 (Text.prefix_of_not_mem hyx hbegin) with heq | hbegin
  · have hblank : x = ' ' := List.singleton_inj.1 (List.append_inj' heq rfl).2
    rw [hblank, hspace] at hx
    cases hx
  · exact hname ((List.prefix_append front [x]).trans hbegin)

/-! ## Lines between the files -/

/-- The lines that say that something else is told from here on. -/
def headings : List Text :=
  outputMarkers ++ [" ERRORS", " ERRORS ", " FAILURES", " FAILURES "].map String.toList

/-- A line with a character that no heading has is none. -/
theorem ne_heading_of_mem {x : Char} (hx : x ∈ t) (h : ∀ m ∈ "error: Test failed".toList :: headings, x ∉ m) :
    t ≠ "error: Test failed".toList ∧ t ∉ headings := by
  obtain ⟨herror, hheadings⟩ := List.forall_mem_cons.1 h
  exact ⟨fun he => herror (he ▸ hx), fun hmem => hheadings t hmem hx⟩

/-- The rules that are tried before the lines of a failure are read. -/
def testEarly : Grammar :=
  [testOutput, testOutputEnd, testOutputLine, testErrors, testFailures, testSummary, testFailure, testUncaught,
    testListed]

/-- A line that is no heading is not read by the rules for headings, unless what a test prints is read. -/
theorem heading_isNone {state : String} (hstate : state ≠ "output") (hline : '\n' ∉ t) (hheading : t ∉ headings) :
    ∀ r ∈ [testOutput, testOutputEnd, testOutputLine, testErrors, testFailures],
      r.applies state = false ∨ (r.read? t).isNone = true := by
  have hnot : ∀ lines, lines ⊆ headings → t ∉ lines := fun lines hlines hmem => hheading (hlines hmem)
  have hprints : (["output"] : List String).contains state = false := by
    rw [List.contains_cons, List.contains_nil, Bool.or_false, beq_eq_false_iff_ne]
    exact hstate
  intro r hr
  simp only [List.mem_cons, List.not_mem_nil, or_false] at hr
  rcases hr with rfl | rfl | rfl | rfl | rfl
  · exact .inr (testOutput_isNone hline (hnot _ (by decide)))
  · exact .inl hprints
  · exact .inl hprints
  · exact .inr (testErrors_isNone hline (hnot _ (by decide)))
  · exact .inr (testFailures_isNone hline (hnot _ (by decide)))

/-- Nor is it by the rule for summaries, if it is none. -/
theorem summary_isNone {state : String} (hstate : state ≠ "output") (hline : '\n' ∉ t) (hheading : t ∉ headings)
    (hsummary : (testSummary.read? t).isNone = true) :
    ∀ r ∈ [testOutput, testOutputEnd, testOutputLine, testErrors, testFailures, testSummary],
      r.applies state = false ∨ (r.read? t).isNone = true := by
  intro r hr
  rcases List.mem_append.1 (show r ∈ [testOutput, testOutputEnd, testOutputLine, testErrors, testFailures] ++
    [testSummary] from hr) with hr | hr
  · exact heading_isNone hstate hline hheading r hr
  · rw [List.mem_singleton.1 hr]
    exact .inr hsummary

/-- **A line that is neither a heading nor a summary** is not read by any of them where no report goes on. -/
theorem default_of_not_mem_headings (hline : '\n' ∉ t) (hheading : t ∉ headings)
    (hsummary : (testSummary.read? t).isNone = true) :
    ∀ r ∈ testEarly, r.applies "default" = false ∨ (r.read? t).isNone = true := by
  have hothers : ∀ r ∈ [testFailure, testUncaught, testListed], r.applies "default" = false := by decide
  intro r hr
  rcases List.mem_append.1 (show r ∈ [testOutput, testOutputEnd, testOutputLine, testErrors, testFailures, testSummary] ++
    [testFailure, testUncaught, testListed] from hr) with hr | hr
  · exact summary_isNone (by decide) hline hheading hsummary r hr
  · exact .inl (hothers r hr)

/-! ## A name in front of something -/

/-- **A name ends where what stands behind it begins**, if that begins nowhere in the name. -/
theorem first_named {name s : String} {x : Char} {run rest : Text} {b : Option Char} {caps : List Capture}
    {q : Pattern} {d : Cursor} (hx : notBlank x = true) (hrun : '\n' ∉ run)
    (hmisses : Text.Misses s.toList run (s.toList ++ rest))
    (hq : q.First ⟨behind (behind (some x) run) s.toList, rest,
      ⟨name, x :: run ++ (s.toList ++ rest), s.toList ++ rest⟩ :: caps⟩ d) :
    (Pattern.seq (group name solid) (.seq (lit s) q)).First ⟨b, x :: run ++ (s.toList ++ rest), caps⟩ d := by
  -- a name that ends too early is not followed by the text
  exact first_solid hx hrun (fun z u hu hsuffix hahead => results_seq_of_nil
    (results_lit_of_not_begins (hahead ▸ hmisses u hu hsuffix)) q) ((first_lit s).seq hq)

/-! ## What a test prints -/

theorem reads_outputMarker : ∀ t ∈ outputMarkers, test.Reads "default" t (.opens .output) [] "output" := by
  intro t ht
  rcases List.mem_pair.1 ht with rfl | rfl
  · exact reads_of_select (by decide +kernel)
  · exact reads_of_select (by decide +kernel)

end Grammar

end Fenceline
