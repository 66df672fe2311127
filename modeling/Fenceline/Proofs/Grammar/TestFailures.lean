import Fenceline.Proofs.Grammar.TestHeader
import Fenceline.Proofs.Text.Trim

/-!
# What is told of failed tests

Failures are told of twice: under one heading with what went wrong (`TestFailure.texts`), and under another as a
list (`TestFailure.header`). The line that opens the report of a failure under the first heading is the line that
is only shown and dropped under the second, and a line with nothing on it belongs to the failure above it under the
first heading and to nothing under the second. Which it is depends on the state of the reader alone.

**The law** (`recites_failures`): all of this recounts one report of each failure, with the parts of its header and
all lines below it; whatever else it recounts is shown and dropped. The lines are told by what they say; if the
failures have no escape sequences, that is all there is on them (`esc_not_mem_failureLines`).
-/

namespace Fenceline

namespace Grammar

open Pattern Reference

/-! ## Failures -/

/-- **A failure of a test**, by what its lines say. -/
structure TestFailure where
  /-- The name of the test. -/
  name : Text
  file : Text
  line : Nat
  column : Nat
  /-- What went wrong. -/
  body : List Text
  name_solid : ∃ x ∈ name.head?, notBlank x = true
  name_line : '\n' ∉ name
  name_arrow : ¬ " =>".toList <:+: name
  name_starts : ∀ s ∈ ["ok | ", "FAILED | "], ¬ s.toList <+: name
  file_solid : (∃ x ∈ file.head?, notBlank x = true) ∧ '\n' ∉ file
  body_plain : ∀ t ∈ body, '\n' ∉ t ∧ ∀ r ∈ testEarly, r.applies "failure" = true → (r.read? t).isNone = true

namespace TestFailure

variable (d : TestFailure)

/-- The place of the failure. -/
def place : Text :=
  d.file ++ (':' :: Text.ofNat d.line ++ ':' :: Text.ofNat d.column)

/-- What the first line says. -/
def header : Text :=
  d.name ++ (" => ".toList ++ d.place)

/-- What the lines say; the last of them has nothing on it. -/
def texts : List Text :=
  d.header :: (d.body ++ [[]])

/-- The parts of the header. -/
def parts : List (String × Text) :=
  [("name", d.name), ("file", d.file), ("line", Text.ofNat d.line), ("column", Text.ofNat d.column)]

/-- The report when it says a message. -/
def saying (message : Text) : Draft :=
  d.parts ++ [("kind", Kind.failure.name.toList), ("message", message)]

/-- The report. -/
def draft : Draft :=
  d.saying (Text.joinWith ['\n'] d.texts)

/-- What becomes of the header in the list. -/
def listed : Draft :=
  .opened [] .debug d.header

variable {d}

/-! ## Reading the header -/

/-- **A header is read with its parts.** -/
theorem read?_header : ∃ reading, testFailure.read? d.header = some reading ∧ reading.captured = d.parts := by
  obtain ⟨name, file, line, column, body, ⟨x, hx, hsolid⟩, hline, harrow, -, ⟨hfile, hfileline⟩, -⟩ := d
  obtain ⟨run, rfl⟩ := List.head?_eq_some_iff.1 (Option.mem_def.1 hx)
  have harrow : ¬ " =>".toList <:+: run := fun h => harrow (h.trans (List.suffix_cons x run).isInfix)
  exact read?_failureLine (dividedFirst_of_absent harrow hfile) ⟨x, hx, hsolid⟩ hline hfileline
    (digits_ofNat line) (digits_ofNat column)

/-- **A header is listed without its parts.** -/
theorem read?_listed : ∃ reading, testListed.read? d.header = some reading ∧ reading.captured = [] := by
  obtain ⟨name, file, line, column, body, ⟨x, hx, hsolid⟩, hline, -, -, ⟨-, hfileline⟩, -⟩ := d
  obtain ⟨run, rfl⟩ := List.head?_eq_some_iff.1 (Option.mem_def.1 hx)
  have hrun : '\n' ∉ run := fun hmem => hline (List.mem_cons_of_mem x hmem)
  have hplace : '\n' ∉ file ++ (':' :: Text.ofNat line ++ ':' :: Text.ofNat column) :=
    List.not_mem_append hfileline (newline_not_mem_numbers (digits_ofNat line) (digits_ofNat column))
  have hspells : (all listedPieces).Spells
      (x :: run ++ (" => ".toList ++ (file ++ (':' :: Text.ofNat line ++ ':' :: Text.ofNat column)))) :=
    ⟨[x], _, ⟨x, hsolid, rfl⟩, ⟨run, _, notNewline_of_not_mem hrun,
      ⟨_, _, rfl, notNewline_of_not_mem hplace, rfl⟩, rfl⟩, rfl⟩
  obtain ⟨reading, hread⟩ := exists_read? testListed List.mem_cons_self rfl hspells
  exact ⟨reading, hread, captured_eq_nil (by decide) hread⟩

/-- No header is a heading or a summary. -/
theorem header_isNone {state : String} (hstate : state ≠ "output") :
    ∀ r ∈ [testOutput, testOutputEnd, testOutputLine, testErrors, testFailures, testSummary],
      r.applies state = false ∨ (r.read? d.header).isNone = true := by
  have hline : '\n' ∉ d.header :=
    List.not_mem_append d.name_line (List.not_mem_append (by decide) (List.not_mem_append d.file_solid.2
      (newline_not_mem_numbers (digits_ofNat d.line) (digits_ofNat d.column))))
  have harrow : '>' ∈ d.header := List.mem_append_right _ (List.mem_append_left _ (by decide))
  obtain ⟨herror, hheading⟩ := ne_heading_of_mem harrow (by decide)
  have hbegins : ∀ s ∈ ["ok | ", "FAILED | "], ¬ BeforeDigit s.toList d.header := by
    intro s hs
    have hequals : ∀ s ∈ ["ok | ", "FAILED | "], '=' ∉ s.toList := by decide
    exact not_beforeDigit_of_name (d.name_starts s hs) (hequals s hs) (by decide +kernel)
  have hbar : d.header.getLast? ≠ some '|' := by
    obtain ⟨x, hx⟩ : ∃ x, (Text.ofNat d.column).getLast? = some x :=
      ⟨_, List.getLast?_eq_some_getLast (Text.ofNat_ne_nil _)⟩
    have hbehind := fun (front : Text) {t : Text} (h : t.getLast? = some x) => Text.getLast?_append_of_eq_some front h
    have hlast : d.header.getLast? = some x :=
      hbehind d.name (hbehind _ (hbehind d.file (hbehind (':' :: Text.ofNat d.line) (hbehind [':'] hx))))
    rw [hlast]
    intro hbar
    exact Text.not_mem_ofNat (by decide) (Option.some.inj hbar ▸ List.mem_of_getLast? hx)
  exact summary_isNone hstate hline hheading
    (testSummary_isNone hline (hbegins "ok | " (by decide)) (hbegins "FAILED | " (by decide)) herror fun _ => hbar)

/-- **Under the first heading a header opens the report of a failure.** -/
theorem reads_header {state : String} (hstate : state ∈ ["errors", "failure"]) :
    test.Reads state d.header (.opens .failure) d.parts "failure" := by
  obtain ⟨reading, hread, hcaptured⟩ := d.read?_header
  have happlies : ∀ state ∈ ["errors", "failure"], testFailure.applies state = true ∧ state ≠ "output" := by decide
  obtain ⟨happlies, houtput⟩ := happlies state hstate
  exact reads_of_first [testOutput, testOutputEnd, testOutputLine, testErrors, testFailures, testSummary] test_eq
    happlies hread (header_isNone houtput) hcaptured rfl

/-- **Under the second it is shown and dropped.** -/
theorem reads_listed : test.Reads "failures" d.header (.opens .debug) [] "failures" := by
  obtain ⟨reading, hread, hcaptured⟩ := d.read?_listed
  have hothers : ∀ r ∈ [testFailure, testUncaught], r.applies "failures" = false := by decide
  exact reads_of_first ([testOutput, testOutputEnd, testOutputLine, testErrors, testFailures, testSummary] ++
    [testFailure, testUncaught]) test_eq rfl hread
    (List.forall_mem_append.2 ⟨header_isNone (by decide), fun r hr => .inl (hothers r hr)⟩) hcaptured rfl

/-- **What went wrong is read as the body of the report.** -/
theorem isBody : ∀ t ∈ d.body ++ [[]], test.IsBody "failure" t := by
  have hplain : ∀ t ∈ d.body ++ [[]],
      '\n' ∉ t ∧ ∀ r ∈ testEarly, r.applies "failure" = true → (r.read? t).isNone = true := by
    refine List.forall_mem_append.2 ⟨d.body_plain, List.forall_mem_singleton.2 ⟨List.not_mem_nil, ?_⟩⟩
    decide +kernel
  intro t ht
  obtain ⟨hline, hbefore⟩ := hplain t ht
  obtain ⟨reading, hread, hcaptured⟩ := read?_body ["failure"] hline
  refine reads_of_first testEarly test_eq (by decide) hread (fun r hr => ?_) hcaptured rfl
  cases happlies : r.applies "failure" with
  | false => exact .inl rfl
  | true => exact .inr (hbefore r hr happlies)

/-! ## Reports of failures -/

/-- **The lines of a failure recount its report.** -/
theorem recites {state : String} (hstate : state ∈ ["errors", "failure"]) :
    test.Recites state d.texts [d.draft] "failure" := by
  have hdraft : (Draft.opened d.parts .failure d.header).below (d.body ++ [[]]) = d.draft :=
    Draft.below_set (d.parts ++ [("kind", Kind.failure.name.toList), ("message", d.header)]) d.header (d.body ++ [[]])
  exact hdraft ▸ recites_below (reads_header hstate) d.isBody

end TestFailure

/-- What is told of several failures. -/
theorem recites_told (ds : List TestFailure) (state : String) (hstate : state ∈ ["errors", "failure"]) :
    ∃ last ∈ ["errors", "failure"],
      test.Recites state (ds.flatMap TestFailure.texts) (ds.map TestFailure.draft) last := by
  induction ds generalizing state with
  | nil => exact ⟨state, hstate, recites_nil test state⟩
  | cons d ds ih =>
    obtain ⟨last, hlast, hrest⟩ := ih "failure" (by decide)
    exact ⟨last, hlast, (d.recites hstate).append hrest⟩

/-- The list of several failures. -/
theorem recites_listed (ds : List TestFailure) :
    test.Recites "failures" (ds.map TestFailure.header) (ds.map TestFailure.listed) "failures" := by
  induction ds with
  | nil => exact recites_nil test "failures"
  | cons d ds ih => exact (recites_opened d.reads_listed).append ih

/-- What is said of all tests. -/
def summaryLine (passed failed : Nat) (time : Text) : Text :=
  "FAILED".toList ++ (" | ".toList ++ (Text.ofNat passed ++ (" passed".toList ++ (" | ".toList ++
    (Text.ofNat failed ++ (" failed (".toList ++ (time ++ ")".toList)))))))

/-- What is said of all tests is shown and dropped. -/
theorem reads_summaryLine (passed failed : Nat) {time : Text} (htime : '\n' ∉ time) :
    test.Reads "failures" (summaryLine passed failed time) (.opens .debug) [] "default" := by
  let behindPassed := " | ".toList ++ (Text.ofNat failed ++ (" failed (".toList ++ (time ++ ")".toList)))
  have hbehind : '\n' ∉ behindPassed := by
    have hfailed : '\n' ∉ Text.ofNat failed := Text.not_mem_ofNat (by decide)
    exact List.not_mem_append (by decide) (List.not_mem_append hfailed (List.not_mem_append (by decide)
      (List.not_mem_append htime (by decide))))
  have hline : '\n' ∉ summaryLine passed failed time := by
    have hpassed : '\n' ∉ Text.ofNat passed := Text.not_mem_ofNat (by decide)
    exact List.not_mem_append (by decide) (List.not_mem_append (by decide) (List.not_mem_append hpassed
      (List.not_mem_append (by decide) hbehind)))
  have hanything : anything.Spells behindPassed := notNewline_of_not_mem hbehind
  have hspells : (all passedPieces).Spells (summaryLine passed failed time) :=
    ⟨_, _, .inr rfl, ⟨_, _, rfl, ⟨_, _, spells_digits (digits_ofNat passed), ⟨_, _, rfl, hanything, rfl⟩,
      rfl⟩, rfl⟩, rfl⟩
  obtain ⟨reading, hread⟩ := exists_read? testSummary List.mem_cons_self rfl hspells
  have hhead : (summaryLine passed failed time).head? = some 'F' := by
    unfold summaryLine
    rfl
  have hheading : summaryLine passed failed time ∉ headings := fun hmem =>
    absurd (hhead ▸ List.mem_map_of_mem (f := List.head?) hmem) (by decide)
  exact reads_of_first [testOutput, testOutputEnd, testOutputLine, testErrors, testFailures] test_eq rfl hread
    (heading_isNone (by decide) hline hheading) (captured_eq_nil (by decide) hread) rfl

/-! ## All of it -/

/-- What is told when tests failed. -/
def failureLines (ds : List TestFailure) (passed failed : Nat) (time : Text) : List Text :=
  [" ERRORS ".toList, []] ++ (ds.flatMap TestFailure.texts ++ ([" FAILURES ".toList, []] ++
    (ds.map TestFailure.header ++ [[], summaryLine passed failed time])))

/-- **Failures without escape sequences**: no line that is told of them has any. -/
theorem esc_not_mem_failureLines {ds : List TestFailure} {time : Text} (passed failed : Nat)
    (hds : ∀ d ∈ ds, Text.esc ∉ d.name ∧ Text.esc ∉ d.file ∧ ∀ t ∈ d.body, Text.esc ∉ t) (htime : Text.esc ∉ time) :
    ∀ t ∈ failureLines ds passed failed time, Text.esc ∉ t := by
  have hnumber : ∀ n, Text.esc ∉ Text.ofNat n := fun n => Text.not_mem_ofNat (by decide)
  have hheader : ∀ d ∈ ds, Text.esc ∉ d.header := by
    intro d hd
    obtain ⟨hname, hfile, -⟩ := hds d hd
    have hplace : Text.esc ∉ d.place :=
      List.not_mem_append hfile (List.not_mem_append (List.not_mem_cons_of_ne_of_not_mem (by decide) (hnumber d.line))
        (List.not_mem_cons_of_ne_of_not_mem (by decide) (hnumber d.column)))
    exact List.not_mem_append hname (List.not_mem_append (by decide) hplace)
  have htold : ∀ t ∈ ds.flatMap TestFailure.texts, Text.esc ∉ t := by
    intro t ht
    obtain ⟨d, hd, ht⟩ := List.mem_flatMap.1 ht
    rcases List.mem_cons.1 ht with rfl | ht
    · exact hheader d hd
    · rcases List.mem_append.1 ht with ht | ht
      · exact (hds d hd).2.2 t ht
      · rw [List.mem_singleton.1 ht]
        exact List.not_mem_nil
  have hlisted : ∀ t ∈ ds.map TestFailure.header, Text.esc ∉ t := by
    intro t ht
    obtain ⟨d, hd, rfl⟩ := List.mem_map.1 ht
    exact hheader d hd
  have hsummary : Text.esc ∉ summaryLine passed failed time :=
    List.not_mem_append (by decide) (List.not_mem_append (by decide) (List.not_mem_append (hnumber passed)
      (List.not_mem_append (by decide) (List.not_mem_append (by decide) (List.not_mem_append (hnumber failed)
        (List.not_mem_append (by decide) (List.not_mem_append htime (by decide))))))))
  have hheadings : (∀ t ∈ [" ERRORS ".toList, []], Text.esc ∉ t) ∧ ∀ t ∈ [" FAILURES ".toList, []], Text.esc ∉ t := by
    decide
  exact List.forall_mem_append.2 ⟨hheadings.1, List.forall_mem_append.2 ⟨htold, List.forall_mem_append.2
    ⟨hheadings.2, List.forall_mem_append.2 ⟨hlisted, List.forall_mem_cons.2
      ⟨List.not_mem_nil, List.forall_mem_singleton.2 hsummary⟩⟩⟩⟩⟩

/-- What it recounts: the reports of the failures, and what is shown and dropped. -/
def failureDrafts (ds : List TestFailure) (passed failed : Nat) (time : Text) : List Draft :=
  [.opened [] .debug " ERRORS ".toList] ++ (ds.map TestFailure.draft ++ ([.opened [] .debug " FAILURES ".toList] ++
    (ds.map TestFailure.listed ++ [.opened [] .debug (summaryLine passed failed time)])))

/-- **What is told when tests failed recounts one report of each failure**, in their order; whatever else it recounts
is shown and dropped. -/
theorem recites_failures (ds : List TestFailure) (passed failed : Nat) {time : Text} (htime : '\n' ∉ time) :
    test.Recites "default" (failureLines ds passed failed time) (failureDrafts ds passed failed time) "default" := by
  have hblank : ∀ state ∈ ["errors", "failures"], test.Reads state [] .ignored [] state := by
    intro state hstate
    rcases List.mem_pair.1 hstate with rfl | rfl <;> exact reads_of_select (by decide +kernel)
  have herrors : test.Recites "default" [" ERRORS ".toList, []] [.opened [] .debug " ERRORS ".toList] "errors" :=
    (recites_opened (reads_of_select (by decide +kernel))).ignore (List.cons_ne_nil _ _) (hblank "errors" (by decide))
  obtain ⟨state, hstate, htold⟩ := recites_told ds "errors" (by decide)
  have hheading : test.Reads state " FAILURES ".toList (.opens .debug) [] "failures" := by
    rcases List.mem_pair.1 hstate with rfl | rfl <;> exact reads_of_select (by decide +kernel)
  have hbelow := hblank "failures" (by decide)
  have hfailures := (recites_opened hheading).ignore (List.cons_ne_nil _ _) hbelow
  have hlist := (hfailures.append (recites_listed ds)).ignore (by simp) hbelow
  have hall := herrors.append (htold.append (hlist.append (recites_opened (reads_summaryLine passed failed htime))))
  simpa [failureLines, failureDrafts] using hall

end Grammar

end Fenceline
