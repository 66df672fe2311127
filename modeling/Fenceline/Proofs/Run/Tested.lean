import Fenceline.Proofs.Grammar.Block
import Fenceline.Proofs.Run.Cuts

/-!
# What a reporter of tests makes of a run

A reporter of tests remembers what the drafts before said, so what it makes of drafts is made of them one after
the other (`TestRun.reportAll`), and what it makes of two lists is what it makes of the first and then, from where
that has brought it, of the second.

**The law** (`close_feedAll_recounts`): if lines recount drafts, an intake with such a reporter files the reports
that are made of these drafts, in their order, and nothing else, unless one of them is fatal.
-/

namespace Fenceline

namespace TestRun

variable {run middle next : TestRun} {d : Draft} {ds es : List Draft} {report : Option Report}
  {reports more : List Report}

/-- **The reports that are made of drafts**, one after the other, and what is remembered in the end. -/
def reportAll (run : TestRun) : List Draft → Except Failure (List Report × TestRun)
  | [] => .ok ([], run)
  | d :: ds => do
    let (report, run) ← run.report d
    let (more, run) ← run.reportAll ds
    return (report.toList ++ more, run)

theorem reportAll_cons_eq_ok_iff : run.reportAll (d :: ds) = .ok (reports, next) ↔
    ∃ report middle more, run.report d = .ok (report, middle) ∧ middle.reportAll ds = .ok (more, next) ∧
      reports = report.toList ++ more := by
  rw [reportAll]
  constructor
  · intro h
    obtain ⟨⟨report, middle⟩, hd, h⟩ := bind_eq_ok.1 h
    obtain ⟨⟨more, last⟩, hds, h⟩ := bind_eq_ok.1 h
    cases h
    exact ⟨report, middle, more, hd, hds, rfl⟩
  · rintro ⟨report, middle, more, hd, hds, rfl⟩
    exact bind_eq_ok.2 ⟨_, hd, bind_eq_ok.2 ⟨_, hds, rfl⟩⟩

theorem reportAll_cons (hd : run.report d = .ok (report, middle))
    (hds : middle.reportAll ds = .ok (reports, next)) :
    run.reportAll (d :: ds) = .ok (report.toList ++ reports, next) :=
  reportAll_cons_eq_ok_iff.2 ⟨report, middle, reports, hd, hds, rfl⟩

/-- What comes later is made from where what came first has brought the reporter. -/
theorem reportAll_append (hds : run.reportAll ds = .ok (reports, middle))
    (hes : middle.reportAll es = .ok (more, next)) : run.reportAll (ds ++ es) = .ok (reports ++ more, next) := by
  induction ds generalizing run reports with
  | nil =>
    cases hds
    exact hes
  | cons d ds ih =>
    obtain ⟨report, first, rest, hd, hrest, rfl⟩ := reportAll_cons_eq_ok_iff.1 hds
    rw [List.append_assoc]
    exact reportAll_cons hd (ih hrest)

/-- A draft that is shown and dropped makes no report. -/
theorem report_of_debug (hkind : d.kind = .ok .debug) {text : Text} (htext : d.message = .ok text) :
    run.report d = .ok (none, run) := by
  simp only [report, Draft.diagnostic?, hkind, htext, bind, Except.bind, pure, Except.pure]

/-- Drafts that are shown and dropped make no reports. -/
theorem reportAll_of_debug (h : ∀ d ∈ ds, d.kind = .ok .debug ∧ ∃ text, d.message = .ok text) :
    run.reportAll ds = .ok ([], run) := by
  induction ds with
  | nil => rfl
  | cons d ds ih =>
    obtain ⟨⟨hkind, text, htext⟩, hrest⟩ := List.forall_mem_cons.1 h
    exact reportAll_cons (report_of_debug hkind htext) (ih hrest)

/-- What makes a report, or none, has a head. -/
theorem headed_of_report (h : run.report d = .ok (report, next)) : d.Headed := by
  obtain ⟨kind, hkind, h⟩ := bind_eq_ok.1 h
  obtain ⟨text, htext, -⟩ := bind_eq_ok.1 h
  exact ⟨⟨kind, hkind⟩, text, htext⟩

end TestRun

namespace Ledger

variable {watch : Watch} {l : Ledger} {run next : TestRun} {d : Draft} {ds : List Draft} {report : Option Report}
  {reports : List Report} {outcomes : List Outcome}

/-- The ledger with reports that a reporter of tests made, and with what it remembers. -/
def fileAll (l : Ledger) (reports : List Report) (run : TestRun) : Ledger :=
  { reports.foldl file l with reporter := some (.tests run) }

/-- No report that is filed is a line that is left over. -/
theorem unrecognized_fileAll (l : Ledger) (reports : List Report) (run : TestRun) :
    (l.fileAll reports run).unrecognized = l.unrecognized := by
  show (reports.foldl file l).unrecognized = _
  induction reports generalizing l with
  | nil => rfl
  | cons report reports ih => exact ih (l.file report)

/-- Who makes the reports does not matter to where they are filed. -/
theorem foldl_file_reporter (reports : List Report) (l : Ledger) (reporter : Option Reporter) :
    reports.foldl file { l with reporter } = { reports.foldl file l with reporter } := by
  induction reports generalizing l with
  | nil => rfl
  | cons report reports ih => exact ih (l.file report)

theorem fileAll_append (l : Ledger) (reports more : List Report) (run next : TestRun) :
    (l.fileAll reports run).fileAll more next = l.fileAll (reports ++ more) next := by
  rw [fileAll, fileAll, foldl_file_reporter, fileAll, List.foldl_append]

/-- **One draft**: the report that is made of it is filed. -/
theorem filed_tests (hreporter : l.reporter = some (.tests run)) (hreport : run.report d = .ok (report, next))
    (hfatal : d.kind ≠ .ok .fatal) : l.filed watch (.flush d true) = l.fileAll report.toList next := by
  obtain ⟨⟨kind, hkind⟩, text, htext⟩ := TestRun.headed_of_report hreport
  have hmade : (Reporter.tests run).report d = .ok (report, .tests next) :=
    bind_eq_ok.2 ⟨_, hreport, rfl⟩
  have hstay : l.fileAll [] run = l := by
    rw [fileAll, ← hreporter]
    rfl
  -- What is shown and dropped leaves the ledger; of anything else a report is made.
  by_cases hdropped : kind = .debug
  · rw [hdropped] at hkind
    rw [TestRun.report_of_debug hkind htext] at hreport
    cases hreport
    simp only [filed, add, hkind, bind, Except.bind, Kind.category, Draft.notice, htext]
    cases watch.finished <;> exact hstay.symm
  · have hcategory : kind.category = .problem ∨ kind.category = .info := by
      cases kind with
      | debug => exact absurd rfl hdropped
      | fatal => exact absurd hkind hfatal
      | error | check | lint | diff | failure => exact .inl rfl
      | test | output => exact .inr rfl
    simp only [filed, add, hkind, bind, Except.bind, hreporter, hmade]
    rcases hcategory with hcategory | hcategory
    all_goals
      rw [hcategory]
      cases report <;> rfl

/-- **Drafts that are finished**: the reports that are made of them are filed. -/
theorem foldl_filed_tests (hreporter : l.reporter = some (.tests run)) (hreports : run.reportAll ds = .ok (reports, next))
    (hfatal : ∀ d ∈ ds, d.kind ≠ .ok .fatal) :
    (ds.map (.flush · true)).foldl (filed watch) l = l.fileAll reports next := by
  induction ds generalizing l run reports with
  | nil =>
    cases hreports
    rw [fileAll, ← hreporter]
    rfl
  | cons d ds ih =>
    obtain ⟨report, middle, more, hd, hds, rfl⟩ := TestRun.reportAll_cons_eq_ok_iff.1 hreports
    obtain ⟨hone, hfatal⟩ := List.forall_mem_cons.1 hfatal
    rw [List.map_cons, List.foldl_cons, filed_tests hreporter hd hone, ih rfl hds hfatal, fileAll_append]

/-- What lasts of drafts are those that are finished. -/
theorem lasting_eq (h : outcomes.filterMap Outcome.unrecognized? = []) :
    Reader.lasting outcomes = (outcomes.filterMap Outcome.settled?).map (.flush · true) := by
  induction outcomes with
  | nil => rfl
  | cons o outcomes ih =>
    cases o with
    | unrecognized line => cases h
    | flush d done =>
      have hrest : Reader.lasting outcomes = (outcomes.filterMap Outcome.settled?).map (.flush · true) := ih h
      cases done with
      | true => exact congrArg (.flush d true :: ·) hrest
      | false => exact hrest

end Ledger

namespace Intake

variable {i : Intake} {run next : TestRun} {reports : List Report} {lines : List Line}

/-- **An intake that has just begun to read what tests are told of**, with a reporter of tests. -/
structure Testing (i : Intake) (run : TestRun) : Prop where
  reader : i.reader = { grammar := Grammar.test }
  failure : i.failure = none
  resolver : i.resolver = none
  reporter : i.ledger.reporter = some (.tests run)

/-- An intake with a reporter of tests files what is made of the finished drafts, in their order. -/
theorem close_feedAll_tests (h : i.Testing run)
    (hrecognized : (i.reader.readAll lines).1.filterMap Outcome.unrecognized? = [])
    (hreports : run.reportAll ((i.reader.readAll lines).1.filterMap Outcome.settled?) = .ok (reports, next))
    (hfatal : ∀ d ∈ (i.reader.readAll lines).1.filterMap Outcome.settled?, d.kind ≠ .ok .fatal) :
    (i.feedAll lines).close.failure = none ∧ (i.feedAll lines).close.ledger = i.ledger.fileAll reports next := by
  have hspares : i.reader.grammar.Spares "kind" := by
    rw [h.reader]
    exact (Grammar.sparesHead_of_mem_shipped Grammar.test (by simp [Grammar.shipped])).spares_kind
  have hheld : ∀ p ∈ i.reader.pending, p.draft.Headed := by
    intro p hp
    rw [h.reader] at hp
    cases hp
  obtain ⟨events, hclose⟩ := close_feedAll_filed lines hspares hheld h.failure fun o _ => by
    rw [h.resolver]
    exact o.isPlaced_none
  have hstay : (i.reader.readAll lines).1.map (·.placed i.resolver) = (i.reader.readAll lines).1 := by
    simp only [h.resolver, Outcome.placed_none, List.map_id']
  rw [hclose]
  refine ⟨h.failure, ?_⟩
  show List.foldl _ _ _ = _
  rw [hstay, Ledger.foldl_filed_lasting, Ledger.lasting_eq hrecognized,
    Ledger.foldl_filed_tests h.reporter hreports hfatal]

/-- **An intake with a reporter of tests files what is made of the drafts that its lines recount**, in their
order; these are what its reader gives out as finished, and no line is left over. -/
theorem close_feedAll_recounts (h : i.Testing run) {P : Draft → Prop} {ds : List Draft} {last : String}
    (hrecounts : Grammar.test.Recounts P "default" lines ds last)
    (hreports : run.reportAll ds = .ok (reports, next)) (hfatal : ∀ d ∈ ds, d.kind ≠ .ok .fatal) :
    (i.reader.readAll lines).1.filterMap Outcome.settled? = ds ∧
      (i.reader.readAll lines).1.filterMap Outcome.unrecognized? = [] ∧
      (i.feedAll lines).close.failure = none ∧ (i.feedAll lines).close.ledger = i.ledger.fileAll reports next := by
  have hgrammar : i.reader.grammar = Grammar.test := by rw [h.reader]
  have hstate : i.reader.state = "default" := by rw [h.reader]
  have hnothing : i.reader.deliver = [] := by
    rw [h.reader]
    rfl
  obtain ⟨hsettled, hall⟩ := hrecounts.readAll i.reader hgrammar hstate
  rw [hnothing, List.filterMap_nil, List.nil_append] at hsettled
  have hrecognized : (i.reader.readAll lines).1.filterMap Outcome.unrecognized? = [] := by
    refine List.filterMap_eq_nil_iff.2 fun o ho => ?_
    rcases hall o ho with ho | ⟨d, -, rfl⟩ | ⟨d, -, rfl⟩
    · rw [hnothing] at ho
      cases ho
    · rfl
    · rfl
  exact ⟨hsettled, hrecognized, close_feedAll_tests h hrecognized (hsettled ▸ hreports) (hsettled ▸ hfatal)⟩

end Intake

end Fenceline
