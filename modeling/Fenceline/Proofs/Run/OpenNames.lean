import Fenceline.Proofs.Run.Tested

/-!
# Which lines the names of a test come from

A reporter of tests keeps the file that is running apart from the names that are open, and puts both into the
reports of tests and of what they print. A line that tells which file is running changes the one and leaves the
other, so the names that are open then are carried into the next file.

Here each open name goes with the number of the draft that gave it (`TestRun.openNames`). These numbers are no part
of what the reporter remembers; the names alone are (`reportAll_openNames`).

**The law** (`report_from_openNames`): a report of a test, or of what it prints, is in the file that was told of
last, and each of its names was given by a line about a test. All these lines came after the file was told of if and
only if no name was open then, or a line about a test that stands at the margin has come since.

**What it does not establish.** What is printed before the first test of a file, and a step that is told of before
its test, are reported with names from the file before (`report_carried_over`).
-/

namespace Fenceline

namespace Draft

/-- The name of the test or the step that a line tells of. -/
def testName? (d : Draft) : Option Text :=
  match d.kind with
  | .ok .test => d.get? "name"
  | _ => none

/-- **A line that tells which file is running.** -/
structure TellsFile (d : Draft) : Prop where
  kind : d.kind = .ok .test
  unnamed : d.get? "name" = none

theorem testName?_of_kind {d : Draft} (h : d.kind = .ok .test) : d.testName? = d.get? "name" := by
  simp only [testName?, h]

theorem testName?_of_kind_ne {d : Draft} {kind : Kind} (h : d.kind = .ok kind) (hne : kind ≠ .test) :
    d.testName? = none := by
  simp only [testName?, h]
  cases kind with
  | test => exact absurd rfl hne
  | _ => rfl

end Draft

/-- The names that a report takes over from those that are open. -/
def Report.openPath? : Report → Option (List Text)
  | .test outcome => some outcome.test
  | .output _ _ names _ => some names
  | _ => none

/-- **A name that is open**, with the number of the draft that gave it. -/
structure OpenName where
  number : Nat
  name : Text
  deriving DecidableEq, Repr

/-- **Drafts with those that came after the last line about a file** apart. -/
structure SinceFile (ds before since : List Draft) : Prop where
  drafts : ds = before ++ since
  told : before = [] ∨ ∃ earlier d, before = earlier ++ [d] ∧ d.TellsFile
  untold : ∀ d ∈ since, ¬ d.TellsFile

/-- The file that the last draft tells of. -/
def lastFile (ds : List Draft) : Text :=
  ds.getLast?.elim unknown (·.textOr "file" unknown)

namespace TestRun

variable {run middle next : TestRun} {d : Draft} {ds es before since : List Draft} {report : Option Report}
  {reports : List Report} {names : List OpenName} {n : Nat} {o : OpenName}

/-! ## The names that are open, with the drafts that gave them -/

/-- The names that are open after a draft: a line about a test closes those that are no steps around it. -/
def openAfter (names : List OpenName) (number : Nat) (d : Draft) : List OpenName :=
  match d.testName? with
  | none => names
  | some name => names.take (depth d) ++ [⟨number, name⟩]

/-- The names that are open after drafts that are numbered from a number on. -/
def openFrom (names : List OpenName) (number : Nat) : List Draft → List OpenName
  | [] => names
  | d :: ds => openFrom (openAfter names number d) (number + 1) ds

/-- **The names that are open after drafts**, with the numbers of the drafts that gave them. -/
def openNames (ds : List Draft) : List OpenName :=
  openFrom [] 0 ds

theorem openFrom_append (names : List OpenName) (n : Nat) (ds es : List Draft) :
    openFrom names n (ds ++ es) = openFrom (openFrom names n ds) (n + ds.length) es := by
  induction ds generalizing names n with
  | nil => rfl
  | cons d ds ih =>
    show openFrom (openAfter names n d) (n + 1) (ds ++ es) = _
    rw [ih, List.length_cons, Nat.add_right_comm, Nat.add_assoc]
    rfl

theorem openNames_append (ds es : List Draft) :
    openNames (ds ++ es) = openFrom (openNames ds) ds.length es := by
  rw [openNames, openFrom_append, Nat.zero_add]
  rfl

/-- A name that is open after a draft was open before, or the draft gave it. -/
theorem mem_openAfter (h : o ∈ openAfter names n d) :
    o ∈ names ∨ o.number = n ∧ d.testName? = some o.name := by
  unfold openAfter at h
  cases hname : d.testName? with
  | none =>
    rw [hname] at h
    exact .inl h
  | some name =>
    rw [hname] at h
    rcases List.mem_append.1 h with h | h
    · exact .inl (List.mem_of_mem_take h)
    · rw [List.mem_singleton.1 h]
      exact .inr ⟨rfl, rfl⟩

/-- **A name that is open was open before, or one of the drafts gave it.** -/
theorem mem_openFrom (h : o ∈ openFrom names n ds) :
    o ∈ names ∨ ∃ i d, ds[i]? = some d ∧ o.number = n + i ∧ d.testName? = some o.name := by
  induction ds generalizing names n with
  | nil => exact .inl h
  | cons d ds ih =>
    rcases ih h with hafter | ⟨i, e, he, hnumber, hname⟩
    · rcases mem_openAfter hafter with hbefore | ⟨hnumber, hname⟩
      · exact .inl hbefore
      · exact .inr ⟨0, d, rfl, hnumber, hname⟩
    · exact .inr ⟨i + 1, e, he, by omega, hname⟩

/-- Each open name was given by the draft that has its number. -/
theorem exists_of_mem_openNames (h : o ∈ openNames ds) :
    ∃ d, ds[o.number]? = some d ∧ d.testName? = some o.name := by
  rcases mem_openFrom h with h | ⟨i, d, hd, hnumber, hname⟩
  · cases h
  · rw [hnumber, Nat.zero_add]
    exact ⟨d, hd, hname⟩

theorem number_lt_of_mem_openNames (h : o ∈ openNames ds) : o.number < ds.length := by
  obtain ⟨d, hd, -⟩ := exists_of_mem_openNames h
  exact (List.getElem?_eq_some_iff.1 hd).1

/-! ## When all of them were given by later drafts -/

/-- From names given late, drafts lead to names given late. -/
theorem le_number_of_mem_openFrom {m : Nat} (hm : m ≤ n) (hnames : ∀ o ∈ names, m ≤ o.number)
    (h : o ∈ openFrom names n ds) : m ≤ o.number := by
  rcases mem_openFrom h with h | ⟨i, d, -, hnumber, -⟩
  · exact hnames o h
  · omega

/-- **A test at the margin** closes all the names that were open before. -/
theorem le_number_of_margin {name : Text} (hd : d ∈ ds) (hname : d.testName? = some name) (hmargin : depth d = 0)
    (h : o ∈ openFrom names n ds) : n ≤ o.number := by
  obtain ⟨front, rest, rfl⟩ := List.append_of_mem hd
  have hclosed : openAfter (openFrom names n front) (n + front.length) d = [⟨n + front.length, name⟩] := by
    simp only [openAfter, hname, hmargin, List.take_zero, List.nil_append]
  rw [openFrom_append] at h
  change o ∈ openFrom (openAfter (openFrom names n front) (n + front.length) d) _ rest at h
  rw [hclosed] at h
  refine le_number_of_mem_openFrom (by omega) (fun p hp => ?_) h
  rw [List.mem_singleton.1 hp]
  exact Nat.le_add_right n _

/-- Without such a test the outermost name stays open. -/
theorem head?_openFrom (hinner : ∀ d ∈ ds, ∀ name, d.testName? = some name → depth d ≠ 0)
    (h : names.head? = some o) : (openFrom names n ds).head? = some o := by
  induction ds generalizing names n with
  | nil => exact h
  | cons d ds ih =>
    obtain ⟨hd, hds⟩ := List.forall_mem_cons.1 hinner
    refine ih hds ?_
    unfold openAfter
    cases hname : d.testName? with
    | none => exact h
    | some name =>
      have hdepth : depth d ≠ 0 := hd name hname
      show (names.take (depth d) ++ [OpenName.mk n name]).head? = some o
      rw [List.head?_append, List.head?_take, if_neg hdepth, h]
      rfl

/-- **All open names were given by later drafts** if and only if none was open before these, or one of them tells
of a test at the margin. -/
theorem forall_le_number_iff : (∀ o ∈ openNames (before ++ since), before.length ≤ o.number) ↔
    openNames before = [] ∨ ∃ d ∈ since, ∃ name, d.testName? = some name ∧ depth d = 0 := by
  rw [openNames_append]
  constructor
  · intro hlate
    by_contra! h
    obtain ⟨hopen, hinner⟩ := h
    obtain ⟨o, hfirst⟩ : ∃ o, (openNames before).head? = some o := ⟨_, List.head?_eq_some_head hopen⟩
    have hearly : o.number < before.length := number_lt_of_mem_openNames (List.mem_of_mem_head? hfirst)
    exact absurd (hlate o (List.mem_of_mem_head? (head?_openFrom hinner hfirst))) (Nat.not_le.2 hearly)
  · rintro (hnone | ⟨d, hd, name, hname, hmargin⟩) o ho
    · rw [hnone] at ho
      exact le_number_of_mem_openFrom (Nat.le_refl _) (fun _ h => absurd h List.not_mem_nil) ho
    · exact le_number_of_margin hd hname hmargin ho

/-! ## What a reporter of tests remembers of them -/

/-- A draft with a head makes a report, or none. -/
theorem exists_report (run : TestRun) (h : d.Headed) : ∃ report next, run.report d = .ok (report, next) := by
  obtain ⟨⟨kind, hkind⟩, text, htext⟩ := h
  simp only [report, Draft.diagnostic?, hkind, htext, bind, Except.bind, pure, Except.pure]
  cases kind <;> exact ⟨_, _, rfl⟩

theorem exists_reportAll (run : TestRun) (h : ∀ d ∈ ds, d.Headed) :
    ∃ reports next, run.reportAll ds = .ok (reports, next) := by
  induction ds generalizing run with
  | nil => exact ⟨[], run, rfl⟩
  | cons d ds ih =>
    obtain ⟨hd, hds⟩ := List.forall_mem_cons.1 h
    obtain ⟨report, middle, hone⟩ := run.exists_report hd
    obtain ⟨reports, next, hrest⟩ := ih middle hds
    exact ⟨_, next, reportAll_cons hone hrest⟩

/-- **What one draft changes**: a line about a file the file, a line about a test the names, any other draft
neither; and a report about a test is in the file and has the names that are remembered then. -/
theorem report_cases (h : run.report d = .ok (report, next)) :
    (d.TellsFile ∧ next.file = d.textOr "file" unknown ∧ next.test = run.test ∧ report = none) ∨
      (¬ d.TellsFile ∧ next.file = run.file ∧
        next.test = (d.testName?.elim run.test fun name => run.test.take (depth d) ++ [name]) ∧
        ∀ r ∈ report, ∀ path, r.openPath? = some path → r.file = next.file ∧ path = next.test) := by
  obtain ⟨kind, hkind, h⟩ := bind_eq_ok.1 h
  obtain ⟨text, htext, h⟩ := bind_eq_ok.1 h
  by_cases htest : kind = .test
  · subst htest
    have hname := Draft.testName?_of_kind hkind
    cases hnamed : d.get? "name" with
    | none =>
      simp only [pure, Except.pure, status, hnamed] at h
      cases h
      exact .inl ⟨⟨hkind, hnamed⟩, rfl, rfl, rfl⟩
    | some name =>
      refine .inr ⟨fun htells => Option.some_ne_none _ (hnamed.symm.trans htells.unnamed), ?_⟩
      rw [hname, hnamed]
      cases hstatus : d.get? "status" with
      | none =>
        simp only [pure, Except.pure, status, hnamed, hstatus] at h
        cases h
        exact ⟨rfl, rfl, fun r hr => absurd hr (Option.not_mem_none r)⟩
      | some status =>
        simp only [pure, Except.pure, TestRun.status, hnamed, hstatus] at h
        cases h
        refine ⟨rfl, rfl, fun r hr path hpath => ?_⟩
        cases hr
        cases hpath
        exact ⟨rfl, rfl⟩
  · rw [Draft.testName?_of_kind_ne hkind htest]
    refine .inr ⟨fun htells => htest (Except.ok.inj (hkind.symm.trans htells.kind)), ?_⟩
    simp only [Draft.diagnostic?, hkind, htext, bind, Except.bind, pure, Except.pure] at h
    cases kind with
    | test => exact absurd rfl htest
    | output =>
      cases h
      refine ⟨rfl, rfl, fun r hr path hpath => ?_⟩
      cases hr
      cases hpath
      exact ⟨rfl, rfl⟩
    | _ =>
      cases h
      refine ⟨rfl, rfl, fun r hr path hpath => ?_⟩
      cases hr <;> cases hpath

/-- A draft opens the names that the reporter remembers then. -/
theorem report_openAfter (h : run.report d = .ok (report, next)) (hnames : run.test = names.map OpenName.name) :
    next.test = (openAfter names n d).map OpenName.name := by
  unfold openAfter
  rcases report_cases h with ⟨hfile, -, htest, -⟩ | ⟨-, -, htest, -⟩
  · rw [htest, hnames, Draft.testName?_of_kind hfile.kind, hfile.unnamed]
  · rw [htest]
    cases d.testName? with
    | none => exact hnames
    | some name => rw [Option.elim_some, hnames, List.map_append, List.map_take]; rfl

/-- **The names that are remembered are those that are open.** -/
theorem reportAll_openFrom (h : run.reportAll ds = .ok (reports, next))
    (hnames : run.test = names.map OpenName.name) :
    next.test = (openFrom names n ds).map OpenName.name := by
  induction ds generalizing run names n reports with
  | nil =>
    cases h
    exact hnames
  | cons d ds ih =>
    obtain ⟨report, middle, more, hd, hds, -⟩ := reportAll_cons_eq_ok_iff.1 h
    exact ih hds (report_openAfter hd hnames)

theorem reportAll_openNames (h : ({} : TestRun).reportAll ds = .ok (reports, next)) :
    next.test = (openNames ds).map OpenName.name :=
  reportAll_openFrom h rfl

/-- Where no line tells of a file, the file stays. -/
theorem reportAll_file (h : run.reportAll ds = .ok (reports, next)) (huntold : ∀ d ∈ ds, ¬ d.TellsFile) :
    next.file = run.file := by
  induction ds generalizing run reports with
  | nil =>
    cases h
    rfl
  | cons d ds ih =>
    obtain ⟨report, middle, more, hd, hds, -⟩ := reportAll_cons_eq_ok_iff.1 h
    obtain ⟨hone, hrest⟩ := List.forall_mem_cons.1 huntold
    rcases report_cases hd with ⟨htells, -⟩ | ⟨-, hfile, -⟩
    · exact absurd htells hone
    · rw [ih hds hrest, hfile]

/-- What is made of two lists is what is made of the one and then of the other. -/
theorem reportAll_append_eq_ok (h : run.reportAll (ds ++ es) = .ok (reports, next)) :
    ∃ first middle more, run.reportAll ds = .ok (first, middle) ∧ middle.reportAll es = .ok (more, next) := by
  induction ds generalizing run reports with
  | nil => exact ⟨[], run, reports, rfl, h⟩
  | cons d ds ih =>
    obtain ⟨report, middle, rest, hd, hrest, -⟩ := reportAll_cons_eq_ok_iff.1 h
    obtain ⟨first, last, more, hds, hes⟩ := ih hrest
    exact ⟨_, last, more, reportAll_cons hd hds, hes⟩

/-- **The file that is remembered is the one that was told of last.** -/
theorem reportAll_lastFile (hlast : SinceFile ds before since)
    (h : ({} : TestRun).reportAll ds = .ok (reports, next)) :
    next.file = lastFile before := by
  rw [hlast.drafts] at h
  obtain ⟨first, middle, more, hbefore, hsince⟩ := reportAll_append_eq_ok h
  rw [reportAll_file hsince hlast.untold]
  rcases hlast.told with rfl | ⟨earlier, d, rfl, htells⟩
  · cases hbefore
    rfl
  · obtain ⟨_, start, _, -, hone⟩ := reportAll_append_eq_ok hbefore
    obtain ⟨report, last, _, hd, hnil, -⟩ := reportAll_cons_eq_ok_iff.1 hone
    cases hnil
    rcases report_cases hd with ⟨-, hfile, -⟩ | ⟨hnot, -⟩
    · rw [hfile, lastFile, List.getLast?_concat, Option.elim_some]
    · exact absurd htells hnot

/-- **The file and the names of a report about a test.** Of drafts with a head reports are made. A report of a test
or of what it prints is in the file that was told of last; its names are those that are open, each given by a line
about a test. All of them were given after the file was told of if and only if none was open then, or a line about
a test at the margin has come since. -/
theorem report_from_openNames (hheaded : ∀ e ∈ ds ++ [d], e.Headed) (hlast : SinceFile (ds ++ [d]) before since) :
    ∃ reports middle report next, ({} : TestRun).reportAll ds = .ok (reports, middle) ∧
      middle.report d = .ok (report, next) ∧
      ∀ r ∈ report, ∀ path, r.openPath? = some path →
        r.file = lastFile before ∧ path = (openNames (ds ++ [d])).map OpenName.name ∧
        (∀ o ∈ openNames (ds ++ [d]), ∃ e, (ds ++ [d])[o.number]? = some e ∧ e.testName? = some o.name) ∧
        ((∀ o ∈ openNames (ds ++ [d]), before.length ≤ o.number) ↔
          openNames before = [] ∨ ∃ e ∈ since, ∃ name, e.testName? = some name ∧ depth e = 0) := by
  obtain ⟨reports, middle, hds⟩ := exists_reportAll {} fun e he => hheaded e (List.mem_append_left _ he)
  obtain ⟨report, next, hd⟩ := middle.exists_report (hheaded d (by simp))
  have hend : next.reportAll [] = .ok ([], next) := rfl
  have hall := reportAll_append hds (reportAll_cons hd hend)
  refine ⟨reports, middle, report, next, hds, hd, fun r hr path hpath => ?_⟩
  have hkept : r.file = next.file ∧ path = next.test := by
    rcases report_cases hd with ⟨-, -, -, hnone⟩ | ⟨-, -, -, hkept⟩
    · rw [hnone] at hr
      cases hr
    · exact hkept r hr path hpath
  obtain ⟨hfile, rfl⟩ := hkept
  refine ⟨?_, reportAll_openNames hall, fun o ho => exists_of_mem_openNames ho, ?_⟩
  · rw [hfile, reportAll_lastFile hlast hall]
  · rw [hlast.drafts]
    exact forall_le_number_iff

/-- A test of one file, then another file with a test and what it prints. -/
theorem report_from_openNames_next_file :
    let first : Draft := [("kind", "test".toList), ("message", "a ... ok".toList), ("name", "a".toList)]
    let file : Draft := [("kind", "test".toList), ("message", "running".toList), ("file", "b.ts".toList)]
    let test : Draft := [("kind", "test".toList), ("message", "c ...".toList), ("name", "c".toList)]
    let printed : Draft := [("kind", "output".toList), ("message", "x".toList)]
    ∃ reports middle next, ({} : TestRun).reportAll [first, file, test] = .ok (reports, middle) ∧
      middle.report printed = .ok (some (.output "x".toList "b.ts".toList ["c".toList] []), next) ∧
      ∀ o ∈ openNames [first, file, test, printed], 2 ≤ o.number := by
  intro first file test printed
  have hheaded : ∀ e ∈ [first, file, test] ++ [printed], e.Headed := by
    simp only [List.cons_append, List.nil_append, List.forall_mem_cons]
    exact ⟨⟨⟨.test, rfl⟩, _, rfl⟩, ⟨⟨.test, rfl⟩, _, rfl⟩, ⟨⟨.test, rfl⟩, _, rfl⟩, ⟨⟨.output, rfl⟩, _, rfl⟩,
      fun _ h => absurd h List.not_mem_nil⟩
  have hlast : SinceFile ([first, file, test] ++ [printed]) [first, file] [test, printed] := by
    refine ⟨rfl, .inr ⟨[first], file, rfl, rfl, rfl⟩, ?_⟩
    simp only [List.forall_mem_cons]
    exact ⟨fun h => Option.some_ne_none _ h.unnamed, fun h => absurd h.kind (by decide +kernel),
      fun _ h => absurd h List.not_mem_nil⟩
  obtain ⟨reports, middle, report, next, hbefore, hreport, hnames⟩ := report_from_openNames hheaded hlast
  have hmiddle : ({} : TestRun).reportAll [first, file, test] =
      .ok ([], { file := "b.ts".toList, test := ["c".toList] }) := by decide +kernel
  obtain ⟨rfl, rfl⟩ := Prod.mk.inj (Except.ok.inj (hbefore.symm.trans hmiddle))
  obtain ⟨rfl, rfl⟩ := Prod.mk.inj (Except.ok.inj hreport)
  have hmargin : ∃ e ∈ [test, printed], ∃ name, e.testName? = some name ∧ depth e = 0 :=
    ⟨test, by simp, "c".toList, rfl, by decide +kernel⟩
  exact ⟨_, _, _, hbefore, hreport, (hnames _ rfl _ rfl).2.2.2.2 (.inr hmargin)⟩

/-- Names of one file that are reported of the next: with what is printed before its first test, and with a step
that is told of before its test. -/
theorem report_carried_over :
    let first : Draft :=
      [("kind", "test".toList), ("message", "a ... ok".toList), ("name", "a".toList), ("status", "ok".toList)]
    let file : Draft := [("kind", "test".toList), ("message", "running".toList), ("file", "b.ts".toList)]
    let printed : Draft := [("kind", "output".toList), ("message", "x".toList)]
    let step : Draft :=
      [("kind", "test".toList), ("message", "  s ... ok".toList), ("step", "  ".toList), ("name", "s".toList),
        ("status", "ok".toList)]
    let last (ds : List Draft) : Option (Text × Option (List Text)) :=
      ((({} : TestRun).reportAll ds).toOption.bind (·.1.getLast?)).map fun r => (r.file, r.openPath?)
    SinceFile [first, file, printed] [first, file] [printed] ∧ printed.testName? = none ∧
      last [first, file, printed] = some ("b.ts".toList, some ["a".toList]) ∧
      SinceFile [first, file, step] [first, file] [step] ∧ step.testName? = some "s".toList ∧
      last [first, file, step] = some ("b.ts".toList, some ["a".toList, "s".toList]) := by
  intro first file printed step last
  refine ⟨⟨rfl, .inr ⟨[first], file, rfl, rfl, rfl⟩, ?_⟩, rfl, by decide +kernel,
    ⟨rfl, .inr ⟨[first], file, rfl, rfl, rfl⟩, ?_⟩, rfl, by decide +kernel⟩
  · exact List.forall_mem_singleton.2 fun h => absurd h.kind (by decide +kernel)
  · exact List.forall_mem_singleton.2 fun h => Option.some_ne_none _ h.unnamed

end TestRun

end Fenceline
