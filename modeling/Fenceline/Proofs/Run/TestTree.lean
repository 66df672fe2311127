import Fenceline.Proofs.Grammar.TestStatus
import Fenceline.Proofs.Run.Tested

/-!
# Tests are reported with the names of the tests around them

Tests have steps, and steps have steps. A test without steps is told of on one line; otherwise a line tells that
it has begun, then its steps are told of, and then what it came to. How far a line stands in is all that tells which
test a step belongs to, so a reporter of tests remembers the names that are open.

**The law** (`takeStream_tests`): one report is made of each test and each step, in the order in which they come to
their ends, with the names from the outermost test to it, the file, what it came to and how long it took. The names
that are open begin with those around the tests that are told of (`TestRun.Within`), before and after they are told
of; this carries the induction on the tests.

**What it does not establish.** Escape sequences are no part of what a line says, so the report is without those of
the file and the time; and a file or a time with a line feed is not told of on one line (`reportAll_tests_astray`).
-/

namespace Fenceline

open Grammar

/-! ## What a line tells -/

namespace Grammar

/-- A result as it is read, without escape sequences. -/
def TestResult.said (r : TestResult) : TestResult :=
  { r with time := r.time.map Text.stripEscapes }

/-- **The report of a result**: of a test in a file, with the names around it. -/
def TestResult.report (r : TestResult) (file : Text) (path : List Text) (name : Text) : Report :=
  .test
    { message := testLine path.length name (some r.said)
      file
      test := path ++ [name]
      success := r.verdict.passed
      status := r.verdict.word.toList
      line := none
      time := r.said.time }

theorem TestResult.Told.said {r : TestResult} (h : r.Told) : r.said.Told := by
  intro t ht
  obtain ⟨time, htime, rfl⟩ := Option.map_eq_some_iff.1 (Option.mem_def.1 ht)
  obtain ⟨hopen, hclose, hline⟩ := h time htime
  have hsubset := Text.stripEscapes_subset time
  exact ⟨fun hmem => hopen (hsubset hmem), fun hmem => hclose (hsubset hmem), fun hmem => hline (hsubset hmem)⟩

/-- What a line says of a result is without the escape sequences of the time. -/
theorem stripEscapes_result (result : Option TestResult) :
    Text.stripEscapes (result.elim [] TestResult.text) =
      (result.map TestResult.said).elim [] TestResult.text := by
  have hspace : Text.esc ∉ " ".toList := by decide
  have hbracket : Text.esc ∉ "(".toList := by decide
  have hword : ∀ v : Verdict, Text.esc ∉ v.word.toList := by
    intro v
    cases v <;> decide
  have hinert : Text.Inert ')' := ⟨by decide, by decide⟩
  match result with
  | none => exact Text.stripEscapes_nil
  | some ⟨v, none⟩ =>
    exact Text.stripEscapes_of_not_mem (List.not_mem_append hspace (List.not_mem_append (hword v) List.not_mem_nil))
  | some ⟨v, some t⟩ =>
    show Text.stripEscapes (" ".toList ++ (v.word.toList ++ (" ".toList ++ ("(".toList ++ (t ++ [')']))))) =
      " ".toList ++ (v.word.toList ++ (" ".toList ++ ("(".toList ++ (Text.stripEscapes t ++ [')']))))
    rw [Text.stripEscapes_append_of_not_mem hspace, Text.stripEscapes_append_of_not_mem (hword v),
      Text.stripEscapes_append_of_not_mem hspace, Text.stripEscapes_append_of_not_mem hbracket,
      Text.stripEscapes_concat hinert]

/-- What a line says of a file is without the escape sequences of its name. -/
theorem stripEscapes_fileLine (count : Nat) (plural : Bool) (file : Text) :
    Text.stripEscapes (fileLine count plural file) = fileLine count plural (Text.stripEscapes file) := by
  have hcount : Text.esc ∉ Text.ofNat count := Text.not_mem_ofNat (by decide)
  have hplural : Text.esc ∉ if plural then "s".toList else [] := by cases plural <;> decide
  have hwords : Text.esc ∉ "running ".toList ∧ Text.esc ∉ " test".toList ∧ Text.esc ∉ " from ".toList := by decide
  obtain ⟨hrunning, htest, hfrom⟩ := hwords
  unfold fileLine
  rw [Text.stripEscapes_append_of_not_mem hrunning, Text.stripEscapes_append_of_not_mem hcount,
    Text.stripEscapes_append_of_not_mem htest, Text.stripEscapes_append_of_not_mem hplural,
    Text.stripEscapes_append_of_not_mem hfrom]

end Grammar

/-- **What a line tells of a test**: that it has begun, or what it came to. -/
structure Telling where
  depth : Nat
  name : Text
  result : Option TestResult
  named : TestName name
  plain : Text.esc ∉ name
  told : ∀ r ∈ result, r.Told

namespace Telling

variable (t : Telling)

/-- The line. -/
def line : Text :=
  testLine t.depth t.name t.result

/-- The line as it is read. -/
def said : Text :=
  testLine t.depth t.name (t.result.map TestResult.said)

/-- The draft that it opens. -/
def draft : Draft :=
  .opened (testParts t.depth t.name (t.result.map TestResult.said)) .test t.said

/-- The report that is made of it, if it tells what the test came to. -/
def report? (file : Text) (path : List Text) : Option Report :=
  t.result.map (·.report file path t.name)

variable {t}

/-- A line is printed as one line. -/
theorem oneLine : t.line.OneLine := by
  refine ⟨newline_not_mem_testLine t.depth t.named t.result t.told, ?_⟩
  obtain ⟨x, hlast, hblank, -⟩ := getLast?_testLine t.depth t.name t.result
  intro hreturn
  rw [Option.some.inj (hlast.symm.trans hreturn)] at hblank
  exact absurd hblank (by decide +kernel)

theorem stripEscapes_line : Text.stripEscapes t.line = t.said := by
  rw [line, testLine, Text.stripEscapes_append_of_not_mem (not_mem_indent (by decide) t.depth),
    Text.stripEscapes_append_of_not_mem t.plain, Text.stripEscapes_append_of_not_mem (by decide),
    stripEscapes_result]
  rfl

/-- **A line opens its draft.** -/
theorem reads_line (t : Telling) : ∃ kind captured,
    test.Reads "default" (Text.stripEscapes t.line) (.opens kind) captured "default" ∧
      t.draft = .opened captured kind (Text.stripEscapes t.line) := by
  rw [stripEscapes_line]
  refine ⟨_, _, reads_testLine t.depth t.named _ fun r hr => ?_, rfl⟩
  obtain ⟨s, hs, rfl⟩ := Option.map_eq_some_iff.1 (Option.mem_def.1 hr)
  exact (t.told s hs).said

end Telling

/-! ## What a reporter of tests makes of it -/

/-- **A run whose open names begin with those of a path**, in a file. -/
structure TestRun.Within (run : TestRun) (file : Text) (path : List Text) : Prop where
  file : run.file = file
  line : run.line = none
  path : path <+: run.test

/-- What is within a test is within the tests around it. -/
theorem TestRun.Within.outer {run : TestRun} {file name : Text} {path : List Text}
    (h : run.Within file (path ++ [name])) : run.Within file path :=
  ⟨h.file, h.line, (List.prefix_append path [name]).trans h.path⟩

namespace Telling

variable {t : Telling} {run : TestRun} {file : Text} {path : List Text}

/-- **One line**: the report that is made of it has the names of the path, and the test is open then. -/
theorem report_draft (hrun : run.Within file path) (hdepth : t.depth = path.length) :
    ∃ next, run.report t.draft = .ok (t.report? file path, next) ∧ next.Within file (path ++ [t.name]) := by
  have hkind : t.draft.kind = .ok .test := Draft.kind_of_get? (Draft.get?_opened_kind ..)
  have hmessage : t.draft.message = .ok t.said := Draft.message_of_get? (Draft.get?_opened_message ..)
  have htrimmed : Text.trimEnd t.said = t.said := by
    obtain ⟨x, hlast, hblank, -⟩ := getLast?_testLine t.depth t.name (t.result.map TestResult.said)
    exact Text.trimEnd_of_getLast? hlast hblank
  have hreport : run.report t.draft = .ok (run.status t.draft t.said) := by
    simp only [TestRun.report, hkind, hmessage, htrimmed, bind, Except.bind, pure, Except.pure]
  have hname : t.draft.get? "name" = some t.name := by
    unfold draft
    rcases t.result with _ | ⟨v, _ | time⟩ <;> rfl
  have hsteps : TestRun.depth t.draft = path.length := by
    have hindent : t.draft.get? "step" = some (indent t.depth) := by
      unfold draft
      rcases t.result with _ | ⟨v, _ | time⟩ <;> rfl
    rw [TestRun.depth, Draft.textOr, hindent, Option.getD_some, length_indent, hdepth]
    omega
  have hentered : run.enter t.draft t.name = { run with test := path ++ [t.name] } := by
    rw [TestRun.enter, hsteps, ← List.prefix_iff_eq_take.1 hrun.path]
  refine ⟨{ run with test := path ++ [t.name] }, ?_, hrun.file, hrun.line, List.prefix_refl _⟩
  rw [hreport]
  simp only [TestRun.status, hname, hentered]
  have hstatus : t.draft.get? "status" = t.result.map (·.verdict.word.toList) ∧
      t.draft.get? "time" = t.result.bind (·.said.time) := by
    unfold draft
    rcases t.result with _ | ⟨v, _ | time⟩ <;> exact ⟨rfl, rfl⟩
  rw [hstatus.1, hstatus.2, hrun.file, hrun.line, report?]
  cases hresult : t.result with
  | none => rfl
  | some r =>
    simp only [Option.map_some, Option.bind_some, Verdict.isSuccess_word, TestResult.report, said, hresult, hdepth]

end Telling

/-- **A test**, by what is told of it. -/
structure TestEntry where
  name : Text
  result : TestResult
  named : TestName name
  plain : Text.esc ∉ name
  told : result.Told

namespace TestEntry

variable (t : TestEntry)

/-- The test has begun. -/
def begins (depth : Nat) : Telling :=
  ⟨depth, t.name, none, t.named, t.plain, fun _ h => nomatch h⟩

/-- What the test came to. -/
def ends (depth : Nat) : Telling :=
  ⟨depth, t.name, some t.result, t.named, t.plain, fun _ h => Option.some.inj h ▸ t.told⟩

end TestEntry

/-- **Tests, one after the other**, each with the steps within it if they are told of. -/
inductive Tests where
  | nil
  | leaf (test : TestEntry) (rest : Tests)
  | inner (test : TestEntry) (steps rest : Tests)

namespace Tests

/-- What is told of tests, line by line. -/
def tellings (depth : Nat) : Tests → List Telling
  | nil => []
  | leaf test rest => test.ends depth :: rest.tellings depth
  | inner test steps rest =>
    test.begins depth :: (steps.tellings (depth + 1) ++ test.ends depth :: rest.tellings depth)

/-- The lines that are printed of tests. -/
def lines (tests : Tests) : List Text :=
  (tests.tellings 0).map Telling.line

/-- **The reports of tests**, in the order in which they come to their ends. -/
def reports (file : Text) (path : List Text) : Tests → List Report
  | nil => []
  | leaf test rest => test.result.report file path test.name :: rest.reports file path
  | inner test steps rest =>
    steps.reports file (path ++ [test.name]) ++ test.result.report file path test.name :: rest.reports file path

variable {run : TestRun} {file : Text} {path : List Text}

/-- **One report is made of each test**, with the names of the path around it. -/
theorem reportAll_tellings (tests : Tests) (hrun : run.Within file path) :
    ∃ next, run.reportAll ((tests.tellings path.length).map Telling.draft) =
      .ok (tests.reports file path, next) ∧ next.Within file path := by
  induction tests generalizing run path with
  | nil => exact ⟨run, rfl, hrun⟩
  | leaf test rest ih =>
    obtain ⟨middle, hended, hmiddle⟩ := (test.ends path.length).report_draft hrun rfl
    obtain ⟨next, hrest, hnext⟩ := ih hmiddle.outer
    exact ⟨next, TestRun.reportAll_cons hended hrest, hnext⟩
  | inner test steps rest ihsteps ihrest =>
    obtain ⟨first, hbegun, hfirst⟩ := (test.begins path.length).report_draft hrun rfl
    obtain ⟨second, hsteps, hsecond⟩ := ihsteps hfirst
    obtain ⟨third, hended, hthird⟩ := (test.ends path.length).report_draft hsecond.outer rfl
    obtain ⟨next, hrest, hnext⟩ := ihrest hthird.outer
    have hdepth : (path ++ [test.name]).length = path.length + 1 := by simp
    refine ⟨next, ?_, hnext⟩
    rw [tellings, List.map_cons, List.map_append, List.map_cons, ← hdepth]
    exact TestRun.reportAll_cons hbegun (TestRun.reportAll_append hsteps (TestRun.reportAll_cons hended hrest))

end Tests

/-! ## A file and its tests -/

/-- The draft that a line about a file opens. -/
def fileDraft (count : Nat) (plural : Bool) (file : Text) : Draft :=
  .opened [("file", file)] .test (fileLine count plural file)

/-- **A line about a file** makes no report: the tests told of from here on are in the file. -/
theorem TestRun.report_fileDraft (count : Nat) (plural : Bool) (file : Text) :
    ∃ next, ({} : TestRun).report (fileDraft count plural file) = .ok (none, next) ∧ next.Within file [] := by
  have hkind : (fileDraft count plural file).kind = .ok .test := rfl
  have hmessage : (fileDraft count plural file).message = .ok (fileLine count plural file) := rfl
  have hname : (fileDraft count plural file).get? "name" = none := rfl
  have hfile : (fileDraft count plural file).textOr "file" unknown = file := rfl
  have hline : (fileDraft count plural file).number? "line" = none := rfl
  refine ⟨{ file }, ?_, rfl, rfl, List.nil_prefix⟩
  simp only [report, hkind, hmessage, status, hname, hfile, hline, bind, Except.bind, pure, Except.pure]

/-- A line about a file is printed as one line. -/
theorem oneLine_fileLine (count : Nat) (plural : Bool) {file : Text} (hfile : file.OneLine) (hne : file ≠ []) :
    (fileLine count plural file).OneLine := by
  refine ⟨newline_not_mem_fileLine count plural hfile.newline, ?_⟩
  obtain ⟨x, hx⟩ : ∃ x, file.getLast? = some x := ⟨_, List.getLast?_eq_some_getLast hne⟩
  have hbehind := fun (front : Text) {t : Text} (h : t.getLast? = some x) =>
    Text.getLast?_append_of_eq_some front h
  have hlast : (fileLine count plural file).getLast? = some x :=
    hbehind _ (hbehind _ (hbehind _ (hbehind _ (hbehind _ hx))))
  rw [hlast, ← hx]
  exact hfile.carriage

variable {i : Intake} {chunks : List Bytes} {file : Text} {count : Nat}

/-- **Tests are reported with the names of the tests around them.** Lines about a file and its tests are read from a
stream, wherever its chunks end. A reporter of tests makes one report of each test and each step, in the order in
which they come to their ends, with the names from the outermost test to it, the file, what it came to and how
long it took. These reports are filed; no line is left over, and nothing fails. -/
theorem Intake.takeStream_tests (h : i.Testing {}) (stream : Stream) (hcount : 0 < count) (plural : Bool)
    (hfile : file.OneLine) (hne : Text.stripEscapes file ≠ []) (tests : Tests)
    (hbytes : chunks.flatten = Utf8.encode (Text.unlines (fileLine count plural file :: tests.lines))) :
    let outcomes := (i.reader.readAll (({ stream } : Splitter).read chunks)).1
    let reports := tests.reports (Text.stripEscapes file) []
    ∃ next, ({} : TestRun).reportAll (outcomes.filterMap Outcome.settled?) = .ok (reports, next) ∧
      outcomes.filterMap Outcome.unrecognized? = [] ∧
      (i.takeStream stream chunks).failure = none ∧
      (i.takeStream stream chunks).ledger = i.ledger.fileAll reports next := by
  intro outcomes reports
  have hraw : file ≠ [] := by
    rintro rfl
    exact hne Text.stripEscapes_nil
  have hnewline : '\n' ∉ Text.stripEscapes file := fun hmem => hfile.newline (Text.stripEscapes_subset file hmem)
  have hone : ∀ t ∈ fileLine count plural file :: tests.lines, t.OneLine := by
    refine List.forall_mem_cons.2 ⟨oneLine_fileLine count plural hfile hraw, fun t ht => ?_⟩
    obtain ⟨telling, -, rfl⟩ := List.mem_map.1 ht
    exact telling.oneLine
  -- each line opens a draft
  have hopens : List.Forall₂ (fun t d => ∃ kind captured,
      test.Reads "default" (Text.stripEscapes t) (.opens kind) captured "default" ∧
        d = .opened captured kind (Text.stripEscapes t)) (fileLine count plural file :: tests.lines)
      (fileDraft count plural (Text.stripEscapes file) :: (tests.tellings 0).map Telling.draft) := by
    refine .cons ?_ ?_
    · rw [stripEscapes_fileLine]
      exact ⟨_, _, reads_fileLine hcount hne hnewline, rfl⟩
    · rw [Tests.lines, List.forall₂_map_left_iff, List.forall₂_map_right_iff, List.forall₂_same]
      exact fun telling _ => telling.reads_line
  have hrecounts := recounts_bursts idle_test (Splitter.bursts_read stream hone hbytes) hopens
  rw [Splitter.lines_bursts] at hrecounts
  -- one report is made of each test
  obtain ⟨begun, hbegun, hwithin⟩ := TestRun.report_fileDraft count plural (Text.stripEscapes file)
  obtain ⟨next, hmade, -⟩ := tests.reportAll_tellings hwithin
  have hreports : ({} : TestRun).reportAll
      (fileDraft count plural (Text.stripEscapes file) :: (tests.tellings 0).map Telling.draft) =
        .ok (reports, next) :=
    TestRun.reportAll_cons hbegun hmade
  have hkind : ∀ d ∈ fileDraft count plural (Text.stripEscapes file) :: (tests.tellings 0).map Telling.draft,
      d.kind = .ok .test := by
    refine List.forall_mem_cons.2 ⟨rfl, fun d hd => ?_⟩
    obtain ⟨telling, -, rfl⟩ := List.mem_map.1 hd
    exact Draft.kind_of_get? (Draft.get?_opened_kind ..)
  obtain ⟨hsettled, hrecognized, hfailure, hledger⟩ :=
    Intake.close_feedAll_recounts h hrecounts hreports fun d hd => by simp [hkind d hd]
  exact ⟨next, hsettled ▸ hreports, hrecognized, hfailure, hledger⟩

/-- A test with two steps, one of them with parentheses in its name, and a test without steps, read in chunks that
end within the lines; the time of the first test is in colour. -/
theorem Intake.takeStream_tests_nested :
    let i : Intake :=
      { reader := { grammar := test }, ledger := Ledger.ofFiles ["m.ts".toList] (some (.tests {})) }
    let chunks : List Bytes := ["running 2 tests from m.ts\na ...\n  s ... ok (", "5ms)\n  t (1) ... ignored\na ... FAI",
      "LED (\x1b[2m1s\x1b[0m)\nb ... INCOMPLETE\n"].map fun t => Utf8.encode t.toList
    let made (message : String) (names : List String) (success : Bool) (status : String) (time : Option String) : Report :=
      .test
        { message := message.toList, file := "m.ts".toList, test := names.map String.toList, success,
          status := status.toList, line := none, time := time.map String.toList }
    (i.takeStream .stdout chunks).failure = none ∧ (i.takeStream .stdout chunks).ledger.unrecognized = [] ∧
      (i.takeStream .stdout chunks).ledger.results.map (·.infos) =
        [[made "  s ... ok (5ms)" ["a", "s"] true "ok" (some "5ms"),
          made "  t (1) ... ignored" ["a", "t (1)"] true "ignored" none,
          made "a ... FAILED (1s)" ["a"] false "FAILED" (some "1s"),
          made "b ... INCOMPLETE" ["b"] false "INCOMPLETE" none]] := by
  intro i chunks made
  let a : TestEntry :=
    { name := "a".toList
      result := ⟨.failed, some "\x1b[2m1s\x1b[0m".toList⟩
      named := ⟨⟨'a', rfl, by decide +kernel⟩, by decide, by decide +kernel, by decide⟩
      plain := by decide
      told := by decide }
  let s : TestEntry :=
    { name := "s".toList
      result := ⟨.ok, some "5ms".toList⟩
      named := ⟨⟨'s', rfl, by decide +kernel⟩, by decide, by decide +kernel, by decide⟩
      plain := by decide
      told := by decide }
  let t : TestEntry :=
    { name := "t (1)".toList
      result := ⟨.ignored, none⟩
      named := ⟨⟨'t', rfl, by decide +kernel⟩, by decide, by decide +kernel, by decide⟩
      plain := by decide
      told := by decide }
  let b : TestEntry :=
    { name := "b".toList
      result := ⟨.incomplete, none⟩
      named := ⟨⟨'b', rfl, by decide +kernel⟩, by decide, by decide +kernel, by decide⟩
      plain := by decide
      told := by decide }
  let tests : Tests := .inner a (.leaf s (.leaf t .nil)) (.leaf b .nil)
  have hbytes : chunks.flatten = Utf8.encode (Text.unlines (fileLine 2 true "m.ts".toList :: tests.lines)) := by
    decide +kernel
  have hfile : Text.OneLine "m.ts".toList ∧ Text.stripEscapes "m.ts".toList ≠ [] := by decide +kernel
  obtain ⟨next, -, -, hfailure, hledger⟩ :=
    i.takeStream_tests ⟨rfl, rfl, rfl, rfl⟩ .stdout (by decide) true hfile.1 hfile.2 tests hbytes
  refine ⟨hfailure, ?_, ?_⟩
  · rw [hledger, Ledger.unrecognized_fileAll]
    rfl
  · rw [hledger]
    show (((tests.reports (Text.stripEscapes "m.ts".toList) []).foldl Ledger.file i.ledger).results.map _) = _
    decide +kernel

/-- Tests that are not read as they are printed: the reports are without the colours of a time and the carriage
return behind a file; a file without a name is not read as one; and neither a file nor a time goes on after a
line feed. -/
theorem reportAll_tests_astray :
    let outcomes (texts : List String) : List Outcome :=
      (({ grammar := test } : Reader).readAll (({ stream := .stderr } : Splitter).read
        [Utf8.encode (Text.unlines (texts.map String.toList))])).1
    let reports (texts : List String) : Option (List Report) :=
      ((({} : TestRun).reportAll ((outcomes texts).filterMap Outcome.settled?)).toOption).map (·.1)
    let left (texts : List String) : List Text := (outcomes texts).filterMap Outcome.unrecognized?
    let made (message file : String) (time : Option String) : Report :=
      .test
        { message := message.toList, file := file.toList, test := ["a".toList], success := true, status := "ok".toList,
          line := none, time := time.map String.toList }
    reports ["running 1 tests from m.ts", "a ... ok (\x1b[2m5ms\x1b[0m)"] =
        some [made "a ... ok (5ms)" "m.ts" (some "5ms")] ∧
      reports ["running 1 tests from m.ts\r", "a ... ok"] = some [made "a ... ok" "m.ts" none] ∧
      reports ["running 1 tests from ", "a ... ok"] = some [made "a ... ok" "<unknown>" none] ∧
      reports ["running 1 tests from m\n.ts", "a ... ok"] = some [made "a ... ok" "m" none] ∧
      left ["running 1 tests from m\n.ts", "a ... ok"] = [".ts".toList] ∧
      reports ["running 1 tests from m.ts", "a ... ok (1\n2)"] = some [] ∧
      left ["running 1 tests from m.ts", "a ... ok (1\n2)"] = ["a ... ok (1".toList, "2)".toList] := by
  decide +kernel

end Fenceline
