import Fenceline.Proofs.Distinct
import Fenceline.Proofs.Run.Complaints
import Mathlib.Data.List.Induction
import Mathlib.Data.List.Nodup

/-!
# The entries and the signals tell one story

A ledger is told of reports, finished or still growing (`Call`), and signals each of them to whoever
watches. What one call does is one of five things (`Ledger.Step`), whoever makes reports of drafts; what a
sequence of calls has come to can then be read off its signals (`Ledger.Story`), and every call keeps it so
(`Story.step`).

**The law** (`callAll_story`): the entries are those of the requested files and then those of the other files
that a report was signalled for, each once; an entry holds the reports that were signalled for its file, in
their order; these are the reports that the reporter makes of the drafts it is handed, one after the other
(`Reporter.Makes`); and what the run fails with are the fatal messages. Without the calls about reports that are
still growing, or without those about reports that are shown and dropped, the ledger is the same, and so are
the signals about the others.
-/

namespace Fenceline

/-! ## What is told, and what is signalled -/

namespace Signal

/-- The problem that a signal is about. -/
def problem? : Signal → Option Report
  | problem report => some report
  | _ => none

/-- The piece of information that a signal is about. -/
def info? : Signal → Option Report
  | info report => some report
  | _ => none

/-- The finished report that a signal is about. -/
def report? : Signal → Option Report
  | problem report | info report => some report
  | _ => none

/-- The message that a signal says the run fails for. -/
def fatal? : Signal → Option Text
  | fatal message => some message
  | _ => none

/-- What a signal shows of a report that is dropped. -/
def notice? : Signal → Option Notice
  | debug notice => some notice
  | _ => none

/-- Whether a signal is about a report that is still growing. -/
def isPartial : Signal → Bool
  | partialProblem _ | partialInfo _ | partialDebug _ => true
  | _ => false

/-- Whether a signal is about a finished report that is dropped. -/
def isNotice : Signal → Bool
  | debug _ => true
  | _ => false

end Signal

/-- What a ledger is told: that a report is finished, or that it is still growing. -/
inductive Call where
  | finished (draft : Draft)
  | growing (draft : Draft)
  deriving DecidableEq, Repr

namespace Call

/-- A report that can be filed, or one that can be shown. -/
def Valid : Call → Prop
  | finished d => d.Headed
  | growing d => Succeeds d.kind

/-- Whether a report is finished. -/
def isFinished : Call → Bool
  | finished _ => true
  | growing _ => false

/-- Whether a report is finished and dropped. -/
def isDropped : Call → Bool
  | finished d =>
    match d.kind with
    | .ok .debug => true
    | _ => false
  | growing _ => false

/-- The message that the run fails for. -/
def complaint? : Call → Option Text
  | finished d => Outcome.complaint? (.flush d true)
  | growing _ => none

/-- What is shown of a finished report that is dropped. -/
def notice? : Call → Option Notice
  | finished d =>
    match d.kind, d.notice with
    | .ok .debug, .ok notice => some notice
    | _, _ => none
  | growing _ => none

/-- The draft that the reporter is handed. -/
def handed? : Call → Option Draft
  | finished d =>
    match d.kind with
    | .ok .fatal | .ok .debug | .error _ => none
    | .ok _ => some d
  | growing _ => none

theorem handed?_finished {d : Draft} {kind : Kind} (hkind : d.kind = .ok kind) (hfatal : kind ≠ .fatal)
    (hdebug : kind ≠ .debug) : (finished d).handed? = some d := by
  simp only [handed?, hkind]

theorem handed?_of_fatal {d : Draft} (hkind : d.kind = .ok .fatal) : (finished d).handed? = none := by
  simp only [handed?, hkind]

theorem handed?_of_debug {d : Draft} (hkind : d.kind = .ok .debug) : (finished d).handed? = none := by
  simp only [handed?, hkind]

end Call

/-- **What a reporter made of drafts**, one after the other: these reports, and this is what it remembers then. -/
inductive Reporter.Makes (first : Reporter) : List Draft → List Report → Reporter → Prop
  | nil : Makes first [] [] first
  | snoc {ds : List Draft} {reports : List Report} {reporter next : Reporter} {d : Draft} {report : Option Report}
    (h : Makes first ds reports reporter) (hreport : reporter.report d = .ok (report, next)) :
    Makes first (ds ++ [d]) (reports ++ report.toList) next

/-! ## What an entry tells -/

namespace FileResult

variable {r : FileResult} {report : Report} {signals new : List Signal}

/-- **An entry tells of its file what was signalled for it**, in the order of the signals. -/
structure Tells (r : FileResult) (signals : List Signal) : Prop where
  problems : r.problems = (signals.filterMap Signal.problem?).filter (·.file = r.file)
  infos : r.infos = (signals.filterMap Signal.info?).filter (·.file = r.file)

/-- Signals about other files bring no report on a file, and so none of one kind. -/
theorem filter_eq_nil {about : Signal → Option Report} {file : Text}
    (habout : ∀ s report, about s = some report → s.report? = some report)
    (hnew : ∀ s ∈ new, ∀ report, s.report? = some report → report.file ≠ file) :
    (new.filterMap about).filter (·.file = file) = [] := by
  apply List.filter_eq_nil_iff.2
  intro report hreport
  obtain ⟨s, hs, hfound⟩ := List.mem_filterMap.1 hreport
  simpa using hnew s hs report (habout s report hfound)

theorem report?_of_problem? (s : Signal) (report : Report) (h : s.problem? = some report) :
    s.report? = some report := by
  cases s <;> first | exact h | cases h

theorem report?_of_info? (s : Signal) (report : Report) (h : s.info? = some report) :
    s.report? = some report := by
  cases s <;> first | exact h | cases h

/-- Signals about other files change nothing. -/
theorem Tells.append_other (h : r.Tells signals)
    (hnew : ∀ s ∈ new, ∀ report, s.report? = some report → report.file ≠ r.file) :
    r.Tells (signals ++ new) where
  problems := by
    rw [List.filterMap_append, List.filter_append, filter_eq_nil report?_of_problem? hnew, List.append_nil]
    exact h.problems
  infos := by
    rw [List.filterMap_append, List.filter_append, filter_eq_nil report?_of_info? hnew, List.append_nil]
    exact h.infos

/-- An entry without reports tells of a file that no signal was about. -/
theorem tells_empty {file : Text}
    (h : ∀ s ∈ signals, ∀ report, s.report? = some report → report.file ≠ file) :
    Tells { file := file } signals := by
  have hstart : Tells { file := file } [] := ⟨rfl, rfl⟩
  exact hstart.append_other h

/-- **A report is signalled as it is filed.** -/
theorem Tells.add (h : r.Tells signals) (hfile : r.file = report.file) :
    (r.add report).Tells (signals ++ [Ledger.signalOf report]) := by
  have hsame : report.file = (r.add report).file := by rw [Ledger.file_add, hfile]
  by_cases hproblem : report.isProblem = true
  · have hsignal : Ledger.signalOf report = .problem report := if_pos hproblem
    have hadd : r.add report = { r with problems := r.problems ++ [report] } := if_pos hproblem
    rw [hsignal]
    refine ⟨?_, ?_⟩
    · rw [List.filterMap_append, List.filter_append, Ledger.file_add, ← h.problems, hadd]
      simp [Signal.problem?, hfile]
    · rw [List.filterMap_append, List.filter_append, Ledger.file_add, ← h.infos, hadd]
      simp [Signal.info?]
  · have hsignal : Ledger.signalOf report = .info report := if_neg hproblem
    have hadd : r.add report = { r with infos := r.infos ++ [report] } := if_neg hproblem
    rw [hsignal]
    refine ⟨?_, ?_⟩
    · rw [List.filterMap_append, List.filter_append, Ledger.file_add, ← h.problems, hadd]
      simp [Signal.problem?]
    · rw [List.filterMap_append, List.filter_append, Ledger.file_add, ← h.infos, hadd]
      simp [Signal.info?, hfile]

end FileResult

namespace Ledger

variable {l next : Ledger} {c : Call} {calls : List Call} {signals new : List Signal} {report : Report}
  {requested initial : List Text} {first : Reporter}

/-- What a call gives. -/
def call (watch : Watch) (l : Ledger) : Call → Except Failure (List Event × Ledger)
  | .finished d => l.add watch d
  | .growing d => do
    let events ← growing watch d
    return (events, l)

/-- What several calls give. -/
def callAll (watch : Watch) (l : Ledger) : List Call → Except Failure (List Event × Ledger)
  | [] => .ok ([], l)
  | c :: rest => do
    let (events, l) ← l.call watch c
    let (more, l) ← l.callAll watch rest
    return (events ++ more, l)

/-! ## One call -/

/-- **What a call can do**, with everything watched: the signals that it gives and the ledger after it. -/
inductive Step (l : Ledger) : Call → List Signal → Ledger → Prop
  /-- A report that is still growing is shown, if at all. -/
  | growing {d : Draft} {new : List Signal} (hpartial : ∀ s ∈ new, s.isPartial = true) :
    Step l (.growing d) new l
  /-- The message of a fatal report joins those that the run fails for. -/
  | fatal {d : Draft} {text : Text} (hkind : d.kind = .ok .fatal) (htext : d.message = .ok text) :
    Step l (.finished d) [.fatal text.trimEnd] (l.reject text.trimEnd)
  /-- A report that is shown and dropped leaves the ledger as it is. -/
  | debug {d : Draft} {notice : Notice} (hkind : d.kind = .ok .debug) (hnotice : d.notice = .ok notice) :
    Step l (.finished d) [.debug notice] l
  /-- The reporter may make no report of any other draft, and still remember something of it. -/
  | silent {d : Draft} {kind : Kind} {reporter reporter' : Reporter} (hkind : d.kind = .ok kind)
    (hfatal : kind ≠ .fatal) (hdebug : kind ≠ .debug) (hl : l.reporter = some reporter)
    (hreport : reporter.report d = .ok (none, reporter')) :
    Step l (.finished d) [] { l with reporter := some reporter' }
  /-- The report that the reporter makes is filed and signalled. -/
  | filed {d : Draft} {kind : Kind} {reporter reporter' : Reporter} {report : Report} (hkind : d.kind = .ok kind)
    (hfatal : kind ≠ .fatal) (hdebug : kind ≠ .debug) (hl : l.reporter = some reporter)
    (hreport : reporter.report d = .ok (some report, reporter')) :
    Step l (.finished d) [signalOf report] (Ledger.file { l with reporter := some reporter' } report)

/-- The reporter of a ledger that has one may change, but it stays. -/
theorem Step.reporter (h : Step l c new next) (hl : l.reporter.isSome = true) :
    next.reporter.isSome = true := by
  cases h with
  | growing _ | fatal _ _ | debug _ _ => exact hl
  | silent _ _ _ _ _ | filed _ _ _ _ _ => rfl

/-- A report that is still growing is shown for what it is: a problem, an information or a debug notice. -/
theorem exists_growing {d : Draft} {kind : Kind} (hkind : d.kind = .ok kind) :
    ∃ new : List Signal, (∀ s ∈ new, s.isPartial = true) ∧ growing {} d = .ok (new.map .signal) := by
  simp only [growing, hkind, bind, Except.bind]
  cases kind.category with
  | problem => exact ⟨[.partialProblem d], by simp [Signal.isPartial], rfl⟩
  | info => exact ⟨[.partialInfo d], by simp [Signal.isPartial], rfl⟩
  | debug => exact ⟨[.partialDebug d], by simp [Signal.isPartial], rfl⟩
  | fatal => exact ⟨[], List.forall_mem_nil _, rfl⟩

/-- **What the reporter makes of a draft is filed**, if it makes a report of it. -/
theorem exists_step_of_report {d : Draft} {kind : Kind} {reporter reporter' : Reporter} {report : Option Report}
    (hkind : d.kind = .ok kind) (hcategory : kind.category = .problem ∨ kind.category = .info)
    (hreporter : l.reporter = some reporter) (hreport : reporter.report d = .ok (report, reporter')) :
    ∃ new next, l.call {} (.finished d) = .ok (new.map .signal, next) ∧ Step l (.finished d) new next := by
  have hfatal : kind ≠ .fatal := by
    rintro rfl
    simp [Kind.category] at hcategory
  have hdebug : kind ≠ .debug := by
    rintro rfl
    simp [Kind.category] at hcategory
  cases report with
  | none =>
    refine ⟨[], { l with reporter := some reporter' }, ?_,
      .silent hkind hfatal hdebug hreporter hreport⟩
    rcases hcategory with hcategory | hcategory
    all_goals
      simp only [call, add, hkind, hcategory, hreporter, hreport, bind, Except.bind]
      rfl
  | some report =>
    refine ⟨[signalOf report], Ledger.file { l with reporter := some reporter' } report, ?_,
      .filed hkind hfatal hdebug hreporter hreport⟩
    rcases hcategory with hcategory | hcategory
    all_goals
      simp only [call, add, hkind, hcategory, hreporter, hreport, bind, Except.bind]
      rfl

/-- **A valid call is answered**, in one of these ways. -/
theorem exists_step (hl : l.reporter.isSome = true) (hc : c.Valid) :
    ∃ new next, l.call {} c = .ok (new.map .signal, next) ∧ Step l c new next := by
  cases c with
  | growing d =>
    obtain ⟨kind, hkind⟩ := hc
    obtain ⟨new, hpartial, hgrowing⟩ := exists_growing hkind
    refine ⟨new, l, ?_, .growing hpartial⟩
    simp only [call, hgrowing, bind, Except.bind]
    rfl
  | finished d =>
    obtain ⟨kind, hkind⟩ := hc.kind
    obtain ⟨text, htext⟩ := hc.message
    obtain ⟨reporter, hreporter⟩ := Option.isSome_iff_exists.1 hl
    obtain ⟨report, reporter', hreport⟩ := hc.report reporter
    cases hcategory : kind.category with
    | problem => exact exists_step_of_report hkind (.inl hcategory) hreporter hreport
    | info => exact exists_step_of_report hkind (.inr hcategory) hreporter hreport
    | fatal =>
      obtain rfl := Kind.category_eq_fatal_iff.1 hcategory
      refine ⟨_, _, ?_, .fatal hkind htext⟩
      simp only [call, add, hkind, htext, bind, Except.bind]
      rfl
    | debug =>
      obtain rfl : kind = .debug := by
        revert hcategory
        cases kind <;> decide
      obtain ⟨notice, hnotice⟩ : ∃ notice, d.notice = .ok notice := by
        simp only [Draft.notice, htext, bind, Except.bind]
        exact ⟨_, rfl⟩
      refine ⟨_, _, ?_, .debug hkind hnotice⟩
      simp only [call, add, hkind, hnotice, bind, Except.bind]
      rfl

/-! ## What calls have come to -/

/-- The files that finished reports were signalled for. -/
def reported (signals : List Signal) : List Text :=
  (signals.filterMap Signal.report?).map (·.file)

/-- **What a ledger has come to**, told by the calls and their signals. -/
structure Story (requested initial : List Text) (first : Reporter) (calls : List Call) (signals : List Signal)
    (l : Ledger) : Prop where
  /-- The entries are those of the requested files, and those of the files that reports belong to. -/
  files : l.files = (requested ++ reported signals).eraseDups
  /-- Every entry tells what was signalled for its file. -/
  entries : ∀ r ∈ l.results, r.Tells signals
  /-- The run fails with what was signalled as fatal. -/
  unrecognized : l.unrecognized = initial ++ signals.filterMap Signal.fatal?
  /-- The messages of the fatal reports were signalled. -/
  complaints : signals.filterMap Signal.fatal? = calls.filterMap Call.complaint?
  /-- The reports that are dropped were signalled. -/
  notices : signals.filterMap Signal.notice? = calls.filterMap Call.notice?
  /-- The other reports that were signalled are those that the reporter made. -/
  made : ∃ current, l.reporter = some current ∧
    first.Makes (calls.filterMap Call.handed?) (signals.filterMap Signal.report?) current

/-- The ledger before all calls. -/
def opened (requested initial : List Text) (reporter : Reporter) : Ledger :=
  { ofFiles requested (some reporter) with unrecognized := initial }

theorem story_opened (requested initial : List Text) (first : Reporter) :
    Story requested initial first [] [] (opened requested initial first) where
  files := by
    show (requested.eraseDups.map _).map FileResult.file = (requested ++ []).eraseDups
    rw [List.map_map, List.append_nil]
    exact List.map_id _
  entries := by
    intro r hr
    obtain ⟨file, -, rfl⟩ := List.mem_map.1 hr
    exact FileResult.tells_empty (List.forall_mem_nil _)
  unrecognized := (List.append_nil _).symm
  complaints := rfl
  notices := rfl
  made := ⟨first, rfl, .nil⟩

/-- Where a report is filed: every other entry stays, and the entry of its file is one that was there or a
new one. -/
theorem mem_fileInto {rs : List FileResult} (hnodup : (rs.map (·.file)).Nodup) {r : FileResult}
    (hr : r ∈ fileInto report rs) :
    (r ∈ rs ∧ r.file ≠ report.file) ∨
      (∃ old ∈ rs, old.file = report.file ∧ r = old.add report) ∨
      (report.file ∉ rs.map (·.file) ∧ r = FileResult.add { file := report.file } report) := by
  induction rs with
  | nil => exact .inr (.inr ⟨List.not_mem_nil, List.mem_singleton.1 hr⟩)
  | cons first rs ih =>
    rw [List.map_cons, List.nodup_cons] at hnodup
    rw [fileInto] at hr
    split at hr
    · rename_i hfile
      rcases List.mem_cons.1 hr with rfl | hr
      · exact .inr (.inl ⟨first, List.mem_cons_self, hfile, rfl⟩)
      · refine .inl ⟨List.mem_cons_of_mem _ hr, fun hother => hnodup.1 ?_⟩
        rw [hfile, ← hother]
        exact List.mem_map_of_mem hr
    · rename_i hfile
      rcases List.mem_cons.1 hr with rfl | hr
      · exact .inl ⟨List.mem_cons_self, hfile⟩
      · rcases ih hnodup.2 hr with ⟨hold, hother⟩ | ⟨old, hold, hsame, hadd⟩ | ⟨hnew, hadd⟩
        · exact .inl ⟨List.mem_cons_of_mem _ hold, hother⟩
        · exact .inr (.inl ⟨old, List.mem_cons_of_mem _ hold, hsame, hadd⟩)
        · refine .inr (.inr ⟨?_, hadd⟩)
          rw [List.map_cons, List.mem_cons, not_or]
          exact ⟨fun h => hfile h.symm, hnew⟩

section made

variable (h : Story requested initial first calls signals l)

include h

/-- A call that the reporter does not hear of. -/
theorem Story.made_kept (hreporter : next.reporter = l.reporter) (hc : c.handed? = none)
    (hnew : ∀ s ∈ new, s.report? = none) :
    ∃ current, next.reporter = some current ∧ first.Makes ((calls ++ [c]).filterMap Call.handed?)
      ((signals ++ new).filterMap Signal.report?) current := by
  rw [List.filterMap_append, List.filterMap_append, List.filterMap_cons_none hc, List.filterMap_nil,
    List.filterMap_eq_nil_iff.2 hnew, List.append_nil, List.append_nil, hreporter]
  exact h.made

/-- A call whose draft the reporter is handed. -/
theorem Story.made_reported {d : Draft} {current after : Reporter} {report : Option Report}
    (hl : l.reporter = some current) (hreport : current.report d = .ok (report, after))
    (hreporter : next.reporter = some after) (hc : c.handed? = some d)
    (hnew : new.filterMap Signal.report? = report.toList) :
    ∃ current, next.reporter = some current ∧ first.Makes ((calls ++ [c]).filterMap Call.handed?)
      ((signals ++ new).filterMap Signal.report?) current := by
  obtain ⟨before, hbefore, hmade⟩ := h.made
  obtain rfl := Option.some.inj (hl.symm.trans hbefore)
  rw [List.filterMap_append, List.filterMap_append, List.filterMap_cons_some hc, List.filterMap_nil, hnew]
  exact ⟨after, hreporter, hmade.snoc hreport⟩

end made

/-- A call that files nothing. -/
theorem Story.quiet (h : Story requested initial first calls signals l) (hresults : next.results = l.results)
    (hnew : ∀ s ∈ new, s.report? = none)
    (hunrecognized : next.unrecognized = l.unrecognized ++ new.filterMap Signal.fatal?)
    (hcomplaint : new.filterMap Signal.fatal? = c.complaint?.toList)
    (hnotice : new.filterMap Signal.notice? = c.notice?.toList)
    (hmade : ∃ current, next.reporter = some current ∧
      first.Makes ((calls ++ [c]).filterMap Call.handed?) ((signals ++ new).filterMap Signal.report?) current) :
    Story requested initial first (calls ++ [c]) (signals ++ new) next where
  files := by
    have hnone : new.filterMap Signal.report? = [] := List.filterMap_eq_nil_iff.2 hnew
    have hreported : reported (signals ++ new) = reported signals := by
      rw [reported, List.filterMap_append, hnone, List.append_nil]
      rfl
    rw [Ledger.files, hresults, hreported]
    exact h.files
  entries := by
    intro r hr
    rw [hresults] at hr
    apply (h.entries r hr).append_other
    intro s hs report hreport
    rw [hnew s hs] at hreport
    cases hreport
  unrecognized := by
    rw [hunrecognized, h.unrecognized, List.filterMap_append, List.append_assoc]
  complaints := by
    rw [List.filterMap_append, List.filterMap_append, h.complaints, hcomplaint]
    cases hc : c.complaint? <;> simp [hc]
  notices := by
    rw [List.filterMap_append, List.filterMap_append, h.notices, hnotice]
    cases hc : c.notice? <;> simp [hc]
  made := hmade

section signalOf

variable (report : Report)

/-- A report is signalled as a problem or as a piece of information. -/
@[elab_as_elim]
theorem signalOf_cases {motive : Signal → Prop} (problem : motive (.problem report))
    (info : motive (.info report)) : motive (signalOf report) := by
  unfold signalOf
  split
  · exact problem
  · exact info

theorem report?_signalOf : (signalOf report).report? = some report :=
  signalOf_cases report rfl rfl

theorem fatal?_signalOf : (signalOf report).fatal? = none :=
  signalOf_cases report rfl rfl

theorem notice?_signalOf : (signalOf report).notice? = none :=
  signalOf_cases report rfl rfl

theorem isPartial_signalOf : (signalOf report).isPartial = false :=
  signalOf_cases report rfl rfl

theorem isNotice_signalOf : (signalOf report).isNotice = false :=
  signalOf_cases report rfl rfl

end signalOf

/-- No signal was about a file without an entry. -/
theorem Story.tells_fresh (h : Story requested initial first calls signals l) {file : Text} (hfresh : file ∉ l.files) :
    FileResult.Tells { file := file } signals := by
  apply FileResult.tells_empty
  intro s hs report hreport hsame
  have hmem : report.file ∈ reported signals :=
    List.mem_map_of_mem (List.mem_filterMap.2 ⟨s, hs, hreport⟩)
  apply hfresh
  rw [h.files, ← hsame]
  exact List.mem_eraseDups.2 (List.mem_append_right _ hmem)

/-- **A call that files a report** makes an entry for its file, or adds to the one that is there. -/
theorem Story.file (h : Story requested initial first calls signals l) {d : Draft} {current after : Reporter}
    (hl : l.reporter = some current) (hreport : current.report d = .ok (some report, after))
    (hhanded : c.handed? = some d) (hcomplaint : c.complaint? = none) (hnotice : c.notice? = none) :
    Story requested initial first (calls ++ [c]) (signals ++ [signalOf report])
      (Ledger.file { l with reporter := some after } report) where
  files := by
    have hreported : reported (signals ++ [signalOf report]) = reported signals ++ [report.file] := by
      rw [reported, List.filterMap_append, List.map_append, List.filterMap_cons_some (report?_signalOf report)]
      rfl
    rw [files_file, hreported, ← List.append_assoc]
    show (if report.file ∈ l.files then l.files else l.files ++ [report.file]) = _
    rw [h.files]
    by_cases hmem : report.file ∈ requested ++ reported signals
    · rw [if_pos (List.mem_eraseDups.2 hmem), eraseDups_concat_of_mem hmem]
    · rw [if_neg fun hfile => hmem (List.mem_eraseDups.1 hfile), eraseDups_concat_of_not_mem hmem]
  entries := by
    intro r hr
    have hnodup : (l.results.map (·.file)).Nodup := by
      show l.files.Nodup
      rw [h.files]
      exact nodup_eraseDups _
    rcases mem_fileInto hnodup hr with ⟨hold, hother⟩ | ⟨old, hold, hsame, rfl⟩ | ⟨hfresh, rfl⟩
    · apply (h.entries r hold).append_other
      intro s hs report' hreport'
      rw [List.mem_singleton.1 hs, report?_signalOf] at hreport'
      rw [← Option.some.inj hreport']
      exact hother.symm
    · exact (h.entries old hold).add hsame
    · exact (h.tells_fresh hfresh).add rfl
  unrecognized := by
    rw [List.filterMap_append, List.filterMap_cons_none (fatal?_signalOf report), List.filterMap_nil, List.append_nil]
    exact h.unrecognized
  complaints := by
    rw [List.filterMap_append, List.filterMap_append, List.filterMap_cons_none (fatal?_signalOf report),
      List.filterMap_cons_none hcomplaint, h.complaints]
    rfl
  notices := by
    rw [List.filterMap_append, List.filterMap_append, List.filterMap_cons_none (notice?_signalOf report),
      List.filterMap_cons_none hnotice, h.notices]
    rfl
  made := h.made_reported hl hreport rfl hhanded (List.filterMap_cons_some (report?_signalOf report))

theorem notice?_eq_none {d : Draft} {kind : Kind} (hkind : d.kind = .ok kind) (hdebug : kind ≠ .debug) :
    (Call.finished d).notice? = none := by
  simp only [Call.notice?, hkind]
  split
  · rename_i heq _
    exact absurd (Except.ok.inj heq) hdebug
  · rfl

/-- **Every call goes on with the story.** -/
theorem Story.step (h : Story requested initial first calls signals l) (hstep : Step l c new next) :
    Story requested initial first (calls ++ [c]) (signals ++ new) next := by
  cases hstep with
  | growing hpartial =>
    have hquiet : ∀ s ∈ new, s.report? = none ∧ s.fatal? = none ∧ s.notice? = none := by
      intro s hs
      have := hpartial s hs
      cases s <;> first | exact ⟨rfl, rfl, rfl⟩ | cases this
    have hfatal : new.filterMap Signal.fatal? = [] :=
      List.filterMap_eq_nil_iff.2 fun s hs => (hquiet s hs).2.1
    have hnotice : new.filterMap Signal.notice? = [] :=
      List.filterMap_eq_nil_iff.2 fun s hs => (hquiet s hs).2.2
    have hreport : ∀ s ∈ new, s.report? = none := fun s hs => (hquiet s hs).1
    refine h.quiet rfl hreport ?_ hfatal hnotice (h.made_kept rfl rfl hreport)
    rw [hfatal, List.append_nil]
  | fatal hkind htext =>
    refine h.quiet rfl (by simp [Signal.report?]) rfl ?_ ?_
      (h.made_kept rfl (Call.handed?_of_fatal hkind) (by simp [Signal.report?]))
    · rw [Call.complaint?, Outcome.complaint?_fatal hkind htext]
      rfl
    · rw [notice?_eq_none hkind (by decide)]
      rfl
  | @debug d notice hkind hnotice =>
    refine h.quiet rfl (by simp [Signal.report?]) (List.append_nil _).symm ?_ ?_
      (h.made_kept rfl (Call.handed?_of_debug hkind) (by simp [Signal.report?]))
    · rw [Call.complaint?, Outcome.complaint?_other hkind (by decide)]
      rfl
    · simp only [Call.notice?, hkind, hnotice]
      rfl
  | silent hkind hfatal hdebug hl hreport =>
    refine h.quiet rfl (List.forall_mem_nil _) (List.append_nil _).symm ?_ ?_
      (h.made_reported hl hreport rfl (Call.handed?_finished hkind hfatal hdebug) rfl)
    · rw [Call.complaint?, Outcome.complaint?_other hkind hfatal]
      rfl
    · rw [notice?_eq_none hkind hdebug]
      rfl
  | filed hkind hfatal hdebug hl hreport =>
    exact h.file hl hreport (Call.handed?_finished hkind hfatal hdebug)
      (Outcome.complaint?_other hkind hfatal) (notice?_eq_none hkind hdebug)

/-! ## Several calls -/

/-- **Calls, one after the other**, with everything watched. -/
inductive Runs : Ledger → List Call → List Signal → Ledger → Prop
  | nil (l : Ledger) : Runs l [] [] l
  | cons {l mid next : Ledger} {c : Call} {calls : List Call} {new signals : List Signal}
    (hcall : l.call {} c = .ok (new.map .signal, mid)) (hstep : Step l c new mid)
    (hrest : Runs mid calls signals next) : Runs l (c :: calls) (new ++ signals) next

/-- Valid calls are answered, one after the other. -/
theorem exists_runs (hl : l.reporter.isSome = true) (hcalls : ∀ c ∈ calls, c.Valid) :
    ∃ signals next, Runs l calls signals next := by
  induction calls generalizing l with
  | nil => exact ⟨[], l, .nil l⟩
  | cons c calls ih =>
    obtain ⟨hc, hcalls⟩ := List.forall_mem_cons.1 hcalls
    obtain ⟨new, mid, hcall, hstep⟩ := exists_step hl hc
    obtain ⟨signals, next, hrest⟩ := ih (hstep.reporter hl) hcalls
    exact ⟨new ++ signals, next, .cons hcall hstep hrest⟩

/-- What calls give, one after the other, is what they give. -/
theorem Runs.callAll (h : Runs l calls signals next) :
    l.callAll {} calls = .ok (signals.map .signal, next) := by
  induction h with
  | nil l => rfl
  | cons hcall hstep hrest ih =>
    rw [Ledger.callAll, hcall]
    show (do let (more, l) ← Ledger.callAll {} _ _; return (_ ++ more, l)) = _
    rw [ih, List.map_append]
    rfl

/-- **Calls go on with the story.** -/
theorem Runs.story (hruns : Runs l calls signals next) {done : List Call} {told : List Signal}
    (h : Story requested initial first done told l) :
    Story requested initial first (done ++ calls) (told ++ signals) next := by
  induction hruns generalizing done told with
  | nil l =>
    rw [List.append_nil, List.append_nil]
    exact h
  | @cons l mid next c calls new signals hcall hstep hrest ih =>
    have hlater := ih (h.step hstep)
    rwa [List.append_assoc, List.append_assoc] at hlater

/-- **Calls that leave a ledger as it is can be left out**, and their signals with them. -/
theorem Runs.filter (hruns : Runs l calls signals next) {keep : Call → Bool} {lasting : Signal → Bool}
    (hkeep : ∀ l c new next, Step l c new next → keep c = true → ∀ s ∈ new, lasting s = true)
    (hdrop : ∀ l c new next, Step l c new next → keep c = false →
      next = l ∧ ∀ s ∈ new, lasting s = false) :
    Runs l (calls.filter keep) (signals.filter lasting) next := by
  induction hruns with
  | nil l => exact .nil l
  | @cons l mid next c calls new signals hcall hstep hrest ih =>
    rw [List.filter_append]
    by_cases hc : keep c = true
    · rw [List.filter_cons_of_pos hc, List.filter_eq_self.2 (hkeep _ _ _ _ hstep hc)]
      exact .cons hcall hstep ih
    · obtain ⟨rfl, hsignals⟩ := hdrop _ _ _ _ hstep (Bool.eq_false_iff.2 hc)
      have hnone : new.filter lasting = [] :=
        List.filter_eq_nil_iff.2 fun s hs => by simp [hsignals s hs]
      rw [List.filter_cons_of_neg hc, hnone]
      exact ih

/-- Without the calls about reports that are still growing. -/
theorem Runs.filter_finished (hruns : Runs l calls signals next) :
    Runs l (calls.filter Call.isFinished) (signals.filter (!·.isPartial)) next := by
  apply hruns.filter
  · intro l c new next hstep hc
    cases hstep with
    | growing _ => cases hc
    | fatal _ _ | debug _ _ | silent _ _ _ _ _ => simp [Signal.isPartial]
    | filed _ _ _ _ _ => simp [isPartial_signalOf]
  · intro l c new next hstep hc
    cases hstep with
    | growing hpartial => exact ⟨rfl, fun s hs => by simp [hpartial s hs]⟩
    | fatal _ _ | debug _ _ | silent _ _ _ _ _ | filed _ _ _ _ _ => cases hc

/-- Without the calls about finished reports that are dropped. -/
theorem Runs.filter_dropped (hruns : Runs l calls signals next) :
    Runs l (calls.filter (!·.isDropped)) (signals.filter (!·.isNotice)) next := by
  have hother : ∀ {d : Draft} {kind : Kind}, d.kind = .ok kind → kind ≠ .debug →
      (Call.finished d).isDropped = false := by
    intro d kind hkind hdebug
    simp only [Call.isDropped, hkind]
    split
    · rename_i heq
      exact absurd (Except.ok.inj heq) hdebug
    · rfl
  apply hruns.filter
  · intro l c new next hstep hc
    cases hstep with
    | growing hpartial =>
      intro s hs
      have := hpartial s hs
      cases s <;> first | rfl | cases this
    | debug hkind _ => simp [Call.isDropped, hkind] at hc
    | fatal _ _ | silent _ _ _ _ _ => simp [Signal.isNotice]
    | filed _ _ _ _ _ => simp [isNotice_signalOf]
  · intro l c new next hstep hc
    rw [Bool.not_eq_false'] at hc
    cases hstep with
    | growing _ => cases hc
    | debug _ _ => exact ⟨rfl, by simp [Signal.isNotice]⟩
    | fatal hkind _ => simp [hother hkind (by decide)] at hc
    | silent hkind _ hdebug _ _ | filed hkind _ hdebug _ _ => simp [hother hkind hdebug] at hc

/-! ## The whole story -/

/-- **The entries and the signals tell one story**, whoever makes reports and whatever calls come. Of the
requested files each has one entry, in their order, and behind them every other file that a report was
signalled for; an entry holds the reports that were signalled for its file and belong to it, and these are all
that the reporter made; and the calls about reports that are still growing, or that are dropped, can be left
out. -/
theorem callAll_story (requested initial : List Text) (reporter : Reporter)
    (hcalls : ∀ c ∈ calls, c.Valid) :
    let start := opened requested initial reporter
    ∃ signals l, start.callAll {} calls = .ok (signals.map .signal, l) ∧
      Story requested initial reporter calls signals l ∧
      l.files = requested.eraseDups ++ ((reported signals).filter (· ∉ requested)).eraseDups ∧
      l.files.Nodup ∧
      (∀ r ∈ l.results, ∀ report ∈ r.problems ++ r.infos, report.file = r.file) ∧
      start.callAll {} (calls.filter Call.isFinished) =
        .ok ((signals.filter (!·.isPartial)).map .signal, l) ∧
      start.callAll {} (calls.filter (!·.isDropped)) =
        .ok ((signals.filter (!·.isNotice)).map .signal, l) := by
  intro start
  obtain ⟨signals, l, hruns⟩ := exists_runs (l := start) rfl hcalls
  have hstory : Story requested initial reporter calls signals l :=
    hruns.story (story_opened requested initial reporter)
  refine ⟨signals, l, hruns.callAll, hstory, ?_, ?_, ?_, hruns.filter_finished.callAll,
    hruns.filter_dropped.callAll⟩
  · have hothers : (reported signals).removeAll requested = (reported signals).filter (· ∉ requested) := by
      apply List.filter_congr
      intro file _
      simp
    rw [hstory.files, List.eraseDups_append, hothers]
  · rw [hstory.files]
    exact nodup_eraseDups _
  · intro r hr report hreport
    obtain ⟨hproblems, hinfos⟩ := hstory.entries r hr
    rw [hproblems, hinfos] at hreport
    rcases List.mem_append.1 hreport with hreport | hreport
    · exact of_decide_eq_true (List.mem_filter.1 hreport).2
    · exact of_decide_eq_true (List.mem_filter.1 hreport).2

/-- A run of tests in which one file was asked for twice and another not at all. -/
theorem callAll_story_tests :
    let requested := ["a.ts".toList, "b.ts".toList, "a.ts".toList]
    let running : Draft := [("kind", "test".toList), ("message", "running 1 test from c.ts".toList),
      ("file", "c.ts".toList)]
    let passed : Draft := [("kind", "test".toList), ("message", "t ... ok".toList), ("name", "t".toList),
      ("status", "ok".toList)]
    let failed : Draft := [("kind", "failure".toList), ("message", "t => b.ts:1:2".toList),
      ("file", "b.ts".toList)]
    let told : Draft := [("kind", "debug".toList), ("message", "Check b.ts".toList)]
    let fatal : Draft := [("kind", "fatal".toList), ("message", "error: d \n".toList)]
    let calls : List Call := [.growing running, .finished running, .finished told, .finished passed,
      .growing failed, .finished failed, .finished fatal]
    (∀ c ∈ calls, c.Valid) ∧ ∃ signals l,
      (opened requested ["e".toList] (.tests {})).callAll {} calls = .ok (signals.map .signal, l) ∧
      Story requested ["e".toList] (.tests {}) calls signals l ∧
      l.files = ["a.ts".toList, "b.ts".toList, "c.ts".toList] ∧
      l.unrecognized = ["e".toList, "error: d".toList] := by
  intro requested running passed failed told fatal calls
  have hcalls : ∀ c ∈ calls, c.Valid := by
    have hfinished : ∀ d ∈ [running, told, passed, failed, fatal], d.Headed := by
      intro d hd
      have hparts : ∀ d ∈ [running, told, passed, failed, fatal],
          Succeeds d.kind ∧ Succeeds d.message := by decide +kernel
      exact ⟨(hparts d hd).1, (hparts d hd).2⟩
    intro c hc
    cases c with
    | finished d =>
      apply hfinished d
      simpa [calls] using hc
    | growing d =>
      apply (hfinished d _).kind
      rcases (by simpa [calls] using hc : d = running ∨ d = failed) with rfl | rfl
      · exact List.mem_cons_self
      · decide +kernel
  obtain ⟨signals, l, hrun, hstory, -⟩ := callAll_story requested ["e".toList] (.tests {}) hcalls
  have hend : ((opened requested ["e".toList] (.tests {})).callAll {} calls).toOption.map
      (fun given => (given.2.files, given.2.unrecognized)) =
        some (["a.ts".toList, "b.ts".toList, "c.ts".toList], ["e".toList, "error: d".toList]) := by
    decide +kernel
  rw [hrun] at hend
  obtain ⟨hfiles, hunrecognized⟩ := Prod.mk.inj (Option.some.inj hend)
  exact ⟨hcalls, signals, l, hrun, hstory, hfiles, hunrecognized⟩

end Ledger

end Fenceline
