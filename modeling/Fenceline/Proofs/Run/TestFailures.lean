import Fenceline.Proofs.Grammar.TestFailures
import Fenceline.Proofs.Run.Tested
import Fenceline.Proofs.Text.Numeral

/-!
# Each failed test is reported once

**The law** (`close_feedAll_failures`): of what is told when tests failed, a reporter of tests makes one report of
each failure, in their order, with its file, its line and column, the names from the outermost test to the step that
failed, and the header and what went wrong as its message. What is shown and dropped makes none.

**What it does not establish.** A number of too many digits is not read, and what is reported instead is that there
is none (`reportAll_failures_overlong`).
-/

namespace Fenceline

open Grammar

namespace Draft

/-- **A number as it is reported**: `-1` if it has too many digits to be read. -/
def numberOf (n : Nat) : Int :=
  if (Text.ofNat n).length ≤ Text.maxDigits then n else -1

theorem numberOf_of_le {n : Nat} (h : 10 ^ Text.maxDigits ≤ n) : numberOf n = -1 := by
  refine if_neg fun hshort => ?_
  have hpositive : 0 < Text.maxDigits := by decide
  exact Nat.not_lt.2 h ((Nat.length_toDigits_le_iff (by decide) hpositive).1 hshort)

theorem number_of_get? {d : Draft} {name : String} {n : Nat} (h : d.get? name = some (Text.ofNat n)) :
    d.number name = numberOf n := by
  rw [number, h, Option.bind_some, Text.readInt?_ofNat_eq, numberOf]
  split <;> rfl

end Draft

namespace Grammar.TestFailure

variable (d : TestFailure)

/-- **The report of a failure.** -/
def report : Report :=
  .failure (Text.trimEnd (Text.joinWith ['\n'] (d.header :: d.body))) d.file (Draft.numberOf d.line)
    (Draft.numberOf d.column) (Text.cutAtText " ... ".toList d.name)

/-- The line with nothing on it is no part of what the report says. -/
theorem trimEnd_texts :
    Text.trimEnd (Text.joinWith ['\n'] d.texts) = Text.trimEnd (Text.joinWith ['\n'] (d.header :: d.body)) := by
  have hblank : Text.trimEnd (['\n'] ++ []) = [] := by decide +kernel
  rw [texts, ← List.cons_append, Text.joinWith_concat (List.cons_ne_nil _ _), List.append_assoc,
    Text.trimEnd_append_of_nil hblank]

/-- **What is told of a failure makes its report.** -/
theorem report_draft (run : TestRun) : run.report d.draft = .ok (some d.report, run) := by
  have hkind : d.draft.kind = .ok .failure := rfl
  have hmessage : d.draft.message = .ok (Text.joinWith ['\n'] d.texts) := rfl
  have hfile : d.draft.textOr "file" unknown = d.file := rfl
  have hline : d.draft.number "line" = Draft.numberOf d.line := Draft.number_of_get? rfl
  have hcolumn : d.draft.number "column" = Draft.numberOf d.column := Draft.number_of_get? rfl
  have hname : d.draft.textOr "name" unknown = d.name := rfl
  simp only [TestRun.report, hkind, hmessage, hfile, hline, hcolumn, hname, trimEnd_texts, bind, Except.bind, pure,
    Except.pure]
  rfl

/-- One report is made of each failure. -/
theorem reportAll_map_draft (ds : List TestFailure) (run : TestRun) :
    run.reportAll (ds.map draft) = .ok (ds.map report, run) := by
  induction ds with
  | nil => rfl
  | cons d ds ih => exact TestRun.reportAll_cons (d.report_draft run) ih

end Grammar.TestFailure

/-- **One report is made of each failure**, and none of what is shown and dropped. -/
theorem TestRun.reportAll_failureDrafts (run : TestRun) (ds : List TestFailure) (passed failed : Nat) (time : Text) :
    run.reportAll (failureDrafts ds passed failed time) = .ok (ds.map TestFailure.report, run) := by
  have hshown : ∀ t : Text, (Draft.opened [] .debug t).kind = .ok .debug ∧
      ∃ text, (Draft.opened [] .debug t).message = .ok text := fun t => ⟨rfl, t, rfl⟩
  have hlisted : ∀ d ∈ ds.map TestFailure.listed, d.kind = .ok .debug ∧ ∃ text, d.message = .ok text := by
    intro d hd
    obtain ⟨failure, -, rfl⟩ := List.mem_map.1 hd
    exact hshown failure.header
  have hlist : run.reportAll ([.opened [] .debug " FAILURES ".toList] ++
      (ds.map TestFailure.listed ++ [.opened [] .debug (summaryLine passed failed time)])) = .ok ([], run) := by
    refine reportAll_of_debug (List.forall_mem_append.2 ⟨?_, List.forall_mem_append.2 ⟨hlisted, ?_⟩⟩)
    · exact List.forall_mem_singleton.2 (hshown _)
    · exact List.forall_mem_singleton.2 (hshown _)
  have htold := reportAll_append (TestFailure.reportAll_map_draft ds run) hlist
  rw [List.append_nil] at htold
  exact reportAll_append (reportAll_of_debug (List.forall_mem_singleton.2 (hshown _))) htold

/-- None of it is fatal. -/
theorem kind_ne_fatal_of_mem_failureDrafts {ds : List TestFailure} {passed failed : Nat} {time : Text} {d : Draft}
    (h : d ∈ failureDrafts ds passed failed time) : d.kind ≠ .ok .fatal := by
  have hkind : d.kind = .ok .debug ∨ d.kind = .ok .failure := by
    simp only [failureDrafts, List.mem_append, List.mem_singleton, List.mem_map] at h
    rcases h with rfl | ⟨failure, -, rfl⟩ | rfl | ⟨failure, -, rfl⟩ | rfl
    · exact .inl rfl
    · exact .inr rfl
    · exact .inl rfl
    · exact .inl rfl
    · exact .inl rfl
  rcases hkind with hkind | hkind <;> simp [hkind]

variable {i : Intake} {run : TestRun} {ds : List TestFailure} {passed failed : Nat} {time : Text} {lines : List Line}

/-- **Each failed test is reported once.** When lines say what is told when tests failed (without escape sequences
they say what they are, `Line.map_said_of_not_mem`), a reporter of tests makes one report of each failure, in their
order: with its file, its line and its column, the names that its name is cut into, and its header and what went
wrong as the message. These reports are filed; no line is left over, and nothing fails. -/
theorem Intake.close_feedAll_failures (h : i.Testing run) (ds : List TestFailure) (passed failed : Nat)
    (htime : '\n' ∉ time) (hfinal : ∀ l ∈ lines, l.final = true)
    (hsaid : lines.map Line.said = failureLines ds passed failed time) :
    let outcomes := (i.reader.readAll lines).1
    let reports := ds.map TestFailure.report
    run.reportAll (outcomes.filterMap Outcome.settled?) = .ok (reports, run) ∧
      outcomes.filterMap Outcome.unrecognized? = [] ∧
      (i.feedAll lines).close.failure = none ∧
      (i.feedAll lines).close.ledger = i.ledger.fileAll reports run := by
  intro outcomes reports
  have hreports := run.reportAll_failureDrafts ds passed failed time
  have hrecounts := recites_failures ds passed failed htime lines hfinal hsaid
  obtain ⟨hsettled, hrest⟩ := Intake.close_feedAll_recounts h hrecounts hreports fun d hd =>
    kind_ne_fatal_of_mem_failureDrafts hd
  exact ⟨hsettled ▸ hreports, hrest⟩

/-- A step that failed with something that looks like the report of tests, and a test that failed with nothing. -/
theorem Intake.close_feedAll_failures_lookalike :
    let i : Intake :=
      { reader := { grammar := test }, ledger := Ledger.ofFiles ["m.ts".toList, "n.ts".toList] (some (.tests {})) }
    let lines : List Line := [" ERRORS ", "", "a ... b => m.ts:3:1", "error: no", "running 3 tests from m.ts",
      "c ... ok (5ms)", "", "", "d => n.ts:12:7", "", " FAILURES ", "", "a ... b => m.ts:3:1", "d => n.ts:12:7", "",
      "FAILED | 1 passed | 2 failed (5ms)"].map fun t => { stream := .stdout, text := t.toList }
    (i.feedAll lines).close.failure = none ∧ (i.feedAll lines).close.ledger.unrecognized = [] ∧
      (i.feedAll lines).close.ledger.results.map (·.problems) =
        [[.failure "a ... b => m.ts:3:1\nerror: no\nrunning 3 tests from m.ts\nc ... ok (5ms)".toList "m.ts".toList
            3 1 ["a".toList, "b".toList]],
          [.failure "d => n.ts:12:7".toList "n.ts".toList 12 7 ["d".toList]]] := by
  intro i lines
  let step : TestFailure :=
    { name := "a ... b".toList
      file := "m.ts".toList
      line := 3
      column := 1
      body := ["error: no", "running 3 tests from m.ts", "c ... ok (5ms)", ""].map String.toList
      name_solid := ⟨'a', rfl, by decide +kernel⟩
      name_line := by decide +kernel
      name_arrow := by decide +kernel
      name_starts := by decide +kernel
      file_solid := ⟨⟨'m', rfl, by decide +kernel⟩, by decide⟩
      body_plain := by decide +kernel }
  let whole : TestFailure :=
    { name := "d".toList
      file := "n.ts".toList
      line := 12
      column := 7
      body := []
      name_solid := ⟨'d', rfl, by decide +kernel⟩
      name_line := by decide +kernel
      name_arrow := by decide +kernel
      name_starts := by decide +kernel
      file_solid := ⟨⟨'n', rfl, by decide +kernel⟩, by decide⟩
      body_plain := List.forall_mem_nil _ }
  have hfinal : ∀ l ∈ lines, l.final = true := by decide
  have hsaid : lines.map Line.said = failureLines [step, whole] 1 2 "5ms".toList := by decide +kernel
  obtain ⟨-, -, hfailure, hledger⟩ :=
    i.close_feedAll_failures ⟨rfl, rfl, rfl, rfl⟩ [step, whole] 1 2 (by decide) hfinal hsaid
  refine ⟨hfailure, ?_, ?_⟩
  · rw [hledger, Ledger.unrecognized_fileAll]
    rfl
  · rw [hledger]
    show (([step, whole].map TestFailure.report).foldl Ledger.file i.ledger).results.map _ = _
    decide +kernel

/-- A failure on a line whose number has too many digits is reported to be on none. -/
theorem TestRun.reportAll_failures_overlong :
    let d : TestFailure :=
      { name := "a".toList
        file := "m.ts".toList
        line := 10 ^ Text.maxDigits
        column := 1
        body := []
        name_solid := ⟨'a', rfl, by decide +kernel⟩
        name_line := by decide +kernel
        name_arrow := by decide +kernel
        name_starts := by decide +kernel
        file_solid := ⟨⟨'m', rfl, by decide +kernel⟩, by decide⟩
        body_plain := List.forall_mem_nil _ }
    let lines : List Line := (failureLines [d] 0 1 "1ms".toList).map fun t => { stream := .stdout, text := t }
    let outcomes := (({ grammar := Grammar.test } : Reader).readAll lines).1
    ({} : TestRun).reportAll (outcomes.filterMap Outcome.settled?) =
      .ok ([.failure (Text.trimEnd d.header) "m.ts".toList (-1) 1 ["a".toList]], {}) := by
  intro d lines outcomes
  have hfinal : ∀ l ∈ lines, l.final = true := by
    intro l hl
    obtain ⟨t, -, rfl⟩ := List.mem_map.1 hl
    rfl
  have hplain : ∀ d' ∈ [d], Text.esc ∉ d'.name ∧ Text.esc ∉ d'.file ∧ ∀ t ∈ d'.body, Text.esc ∉ t :=
    List.forall_mem_singleton.2 ⟨by decide, by decide, List.forall_mem_nil _⟩
  have hsaid : lines.map Line.said = failureLines [d] 0 1 "1ms".toList :=
    Line.map_said_of_not_mem .stdout (esc_not_mem_failureLines 0 1 hplain (by decide))
  have hreport : d.report = .failure (Text.trimEnd d.header) "m.ts".toList (-1) 1 ["a".toList] := by
    have hline : Draft.numberOf d.line = -1 := Draft.numberOf_of_le (Nat.le_refl _)
    have hcolumn : Draft.numberOf d.column = 1 := by decide +kernel
    have hnames : Text.cutAtText " ... ".toList d.name = ["a".toList] := by decide +kernel
    rw [TestFailure.report, hline, hcolumn, hnames]
    rfl
  have hsettled : outcomes.filterMap Outcome.settled? = failureDrafts [d] 0 1 "1ms".toList :=
    ((recites_failures [d] 0 1 (by decide) lines hfinal hsaid).readAll { grammar := Grammar.test } rfl rfl).1
  rw [hsettled, TestRun.reportAll_failureDrafts, List.map_singleton, hreport]

end Fenceline
