import Fenceline.Proofs.Grammar.Confinement
import Fenceline.Proofs.Run.History

/-!
# Which problems an intake signals

An intake takes what its reader gives out, one after the other, until something fails. So where nothing fails,
taking in lines is taking what the reader gives out for all of them (`close_feedAll_eq`), and what is signalled
can be told from that alone.

**The law** (`signals_of_harmless`): where every draft can be brought back and none is fatal, a reporter of
diagnostics makes one problem of each finished draft that is a diagnostic, in their order; nothing else is
signalled as a problem, and nothing fails the run.
-/

namespace Fenceline

/-- The problem that an event signals. -/
def Event.problem? (e : Event) : Option Report :=
  e.signal?.bind Signal.problem?

/-- The problem that becomes of a finished draft. -/
def Resolver.problem? (r : Resolver) (d : Draft) : Option Report :=
  match (r.resolve d).bind Draft.diagnostic? with
  | .ok report => report
  | .error _ => none

theorem Resolver.problem?_of_resolve {r : Resolver} {d e : Draft} {report : Option Report}
    (hresolve : r.resolve d = .ok e) (hreport : e.diagnostic? = .ok report) : r.problem? d = report := by
  simp only [Resolver.problem?, hresolve, Except.bind, hreport]

/-- **What does not fail a run**: a draft that can be brought back and is not fatal. -/
def Outcome.Harmless (r : Resolver) : Outcome → Prop
  | .flush d _ => ∃ e kind, r.resolve d = .ok e ∧ e.kind = .ok kind ∧ kind ≠ .fatal
  | .unrecognized _ => False

namespace Intake

variable {i : Intake} {r : Resolver} {o : Outcome} {outcomes : List Outcome}

/-- The problems that were signalled. -/
def problems (i : Intake) : List Report :=
  i.events.filterMap Event.problem?

/-! ## Taking what the reader gives out -/

theorem foldl_take_of_failed (h : i.failure.isSome = true) (outcomes : List Outcome) :
    outcomes.foldl take i = i := by
  have htake : ∀ o, i.take o = i := fun o => by
    unfold take
    exact if_pos h
  induction outcomes with
  | nil => rfl
  | cons o outcomes ih => rw [List.foldl_cons, htake, ih]

/-- Where the reader is does not matter to what it gave out. -/
theorem take_reader (i : Intake) (reader : Reader) (o : Outcome) :
    ({ i with reader } : Intake).take o = { i.take o with reader } := by
  unfold take
  split
  · rfl
  · cases o with
    | unrecognized line => rfl
    | flush d done =>
      have hplace : ({ i with reader } : Intake).place d = i.place d := rfl
      dsimp only
      rw [hplace]
      rcases i.place d with ⟨notices, failure | e⟩
      · rfl
      · dsimp only [withResult, file]
        cases done with
        | true => cases i.ledger.add i.watch e <;> rfl
        | false => cases Ledger.growing i.watch e <;> rfl

theorem foldl_take_reader (outcomes : List Outcome) (i : Intake) (reader : Reader) :
    outcomes.foldl take { i with reader } = { outcomes.foldl take i with reader } := by
  induction outcomes generalizing i with
  | nil => rfl
  | cons o outcomes ih => rw [List.foldl_cons, List.foldl_cons, take_reader, ih]

/-- Nothing failed before if nothing failed in the end. -/
theorem failure_of_foldl_take (h : (outcomes.foldl take i).failure = none) : i.failure = none := by
  by_contra hfailure
  rw [foldl_take_of_failed (Option.isSome_iff_ne_none.2 hfailure)] at h
  exact hfailure h

theorem feed_eq (h : i.failure = none) (line : Line) :
    i.feed line = { (i.reader.feed line).1.foldl take i with reader := (i.reader.feed line).2 } := by
  rw [feed, if_neg (by simp [h])]
  exact foldl_take_reader _ _ _

/-- Where nothing fails, taking in lines is taking what the reader gives out for them. -/
theorem feedAll_eq (lines : List Line) (h : ((i.reader.feedAll lines).1.foldl take i).failure = none) :
    i.feedAll lines =
      { (i.reader.feedAll lines).1.foldl take i with reader := (i.reader.feedAll lines).2 } := by
  induction lines generalizing i with
  | nil => rfl
  | cons line rest ih =>
    rw [Reader.feedAll_cons, List.foldl_append] at h
    have hline := feed_eq (failure_of_foldl_take (failure_of_foldl_take h)) line
    have hreader : (i.feed line).reader = (i.reader.feed line).2 := by rw [hline]
    have hrest : (((i.reader.feed line).2.feedAll rest).1.foldl take (i.feed line)).failure = none := by
      rw [hline, foldl_take_reader]
      exact h
    have hlater := ih (i := i.feed line) (by rwa [hreader])
    rw [hreader] at hlater
    rw [feedAll, List.foldl_cons, ← feedAll, hlater, hline, foldl_take_reader, Reader.feedAll_cons,
      List.foldl_append]

/-- **Where nothing fails, taking in a whole output is taking what the reader gives out for it.** -/
theorem close_feedAll_eq (lines : List Line) (h : ((i.reader.readAll lines).1.foldl take i).failure = none) :
    (i.feedAll lines).close =
      { (i.reader.readAll lines).1.foldl take i with reader := (i.reader.readAll lines).2 } := by
  rw [Reader.readAll, List.foldl_append] at h
  have hfeed := feedAll_eq lines (failure_of_foldl_take h)
  have hnone : ¬ (i.feedAll lines).failure.isSome = true := by
    rw [hfeed]
    simp [failure_of_foldl_take h]
  rw [close, if_neg hnone, hfeed]
  show List.foldl take _ _ = _
  rw [foldl_take_reader, foldl_take_reader, Reader.readAll, List.foldl_append]
  rfl

/-! ## What is signalled -/

/-- Notices of a resolver signal nothing. -/
theorem problems_notices (i : Intake) (d : Draft) : (i.place d).1.filterMap Event.problem? = [] := by
  unfold place
  cases i.resolver with
  | none => rfl
  | some r =>
    dsimp only [Resolver.notices]
    split
    · split <;> rfl
    · rfl

/-- **An intake that signals reports of diagnostics**, of which nothing failed so far. -/
structure Signalling (i : Intake) (r : Resolver) : Prop where
  failure : i.failure = none
  resolver : i.resolver = some r
  reporter : i.ledger.reporter = some .diagnostic
  watch : i.watch.finished = true

/-- A draft that is still growing signals no problem. -/
theorem problems_growing {d : Draft} {kind : Kind} (hkind : d.kind = .ok kind) (watch : Watch) :
    ∃ events, Ledger.growing watch d = .ok events ∧ events.filterMap Event.problem? = [] := by
  simp only [Ledger.growing, hkind, bind, Except.bind]
  cases watch.growing <;> cases kind.category <;> exact ⟨_, rfl, rfl⟩

/-- What is made of a diagnostic is a problem, and nothing is made of a draft that is shown and dropped. -/
theorem isProblem_of_diagnostic? {d : Draft} {kind : Kind} {text : Text} {report : Option Report}
    (hkind : d.kind = .ok kind) (htext : d.message = .ok text) (hreport : d.diagnostic? = .ok report) :
    (∀ made ∈ report, made.isProblem = true) ∧ (kind = .debug → report = none) := by
  simp only [Draft.diagnostic?, hkind, htext, bind, Except.bind, pure, Except.pure, Except.ok.injEq] at hreport
  rw [← hreport]
  cases kind <;> simp <;> rfl

/-- A finished draft that is not fatal signals the problem that becomes of it. -/
theorem problems_add {l : Ledger} {watch : Watch} (hreporter : l.reporter = some .diagnostic)
    (hwatch : watch.finished = true) {d : Draft} {kind : Kind} {text : Text} {report : Option Report}
    (hkind : d.kind = .ok kind) (hfatal : kind ≠ .fatal) (htext : d.message = .ok text)
    (hreport : d.diagnostic? = .ok report) :
    ∃ events next, l.add watch d = .ok (events, next) ∧ events.filterMap Event.problem? = report.toList ∧
      next.reporter = some .diagnostic ∧ next.unrecognized = l.unrecognized := by
  obtain ⟨hproblem, hdebug⟩ := isProblem_of_diagnostic? hkind htext hreport
  unfold Ledger.add
  simp only [hkind, htext, bind, Except.bind, hreporter, Reporter.report, hreport]
  by_cases hdropped : kind = .debug
  · rw [hdropped, hdebug hdropped]
    simp only [Kind.category, hwatch, if_true, Draft.notice, htext, bind, Except.bind]
    exact ⟨_, _, rfl, by simp [Ledger.told, hwatch, Event.problem?, Event.signal?, Signal.problem?], hreporter, rfl⟩
  · have hfiled : kind.category = .problem ∨ kind.category = .info := by
      cases kind <;> simp_all [Kind.category]
    have hmade : ∀ made ∈ report, (Ledger.told watch (Ledger.signalOf made)).filterMap Event.problem? = [made] := by
      intro made hmem
      rw [Ledger.told, if_pos hwatch, Ledger.signalOf, if_pos (hproblem made hmem)]
      rfl
    rcases hfiled with hcategory | hcategory
    all_goals
      rw [hcategory]
      cases report with
      | none => exact ⟨_, _, rfl, rfl, rfl, rfl⟩
      | some made => exact ⟨_, _, rfl, hmade made rfl, rfl, rfl⟩

/-- **One thing that the reader gives out.** -/
theorem Signalling.take (h : i.Signalling r) (ho : o.Harmless r) :
    (i.take o).Signalling r ∧ (i.take o).ledger.unrecognized = i.ledger.unrecognized ∧
      (i.take o).problems = i.problems ++ (o.settled?.bind r.problem?).toList := by
  cases o with
  | unrecognized line => exact ho.elim
  | flush d done =>
    obtain ⟨e, kind, hresolve, hkind, hfatal⟩ := ho
    obtain ⟨text, htext⟩ := Resolver.succeeds_message_of_resolve hresolve
    have hplace : i.place d = ((i.place d).1, .ok e) := by
      refine Prod.ext rfl ?_
      rw [place_snd, h.resolver]
      exact hresolve
    have htake : i.take (.flush d done) = (i.withResult (i.place d).1 (.ok i.ledger)).file e done := by
      rw [Intake.take, if_neg (by simp [h.failure]), hplace]
    have hnotices := problems_notices i d
    cases done with
    | false =>
      obtain ⟨events, hgrowing, hnone⟩ := problems_growing hkind i.watch
      have htaken : i.take (.flush d false) = { i with events := i.events ++ (i.place d).1 ++ events } := by
        rw [htake]
        simp only [file, Bool.false_eq_true, if_false, hgrowing, withResult]
      rw [htaken]
      refine ⟨⟨h.failure, h.resolver, h.reporter, h.watch⟩, rfl, ?_⟩
      simp [problems, hnotices, hnone, Outcome.settled?]
    | true =>
      have hheaded : e.Headed := ⟨⟨kind, hkind⟩, text, htext⟩
      obtain ⟨report, hreport⟩ := hheaded.diagnostic?
      obtain ⟨events, next, hadd, hproblems, hreporter, hunrecognized⟩ :=
        problems_add h.reporter h.watch hkind hfatal htext hreport
      have hproblem : r.problem? d = report := Resolver.problem?_of_resolve hresolve hreport
      have htaken : i.take (.flush d true) =
          { i with events := i.events ++ (i.place d).1 ++ events, ledger := next } := by
        rw [htake]
        simp only [file, if_true, hadd, withResult]
      rw [htaken]
      refine ⟨⟨h.failure, h.resolver, hreporter, h.watch⟩, hunrecognized, ?_⟩
      simp [problems, hnotices, hproblems, hproblem, Outcome.settled?]

/-- **All that the reader gives out.** -/
theorem Signalling.foldl_take (h : i.Signalling r) (houtcomes : ∀ o ∈ outcomes, o.Harmless r) :
    (outcomes.foldl Intake.take i).Signalling r ∧
      (outcomes.foldl Intake.take i).ledger.unrecognized = i.ledger.unrecognized ∧
      (outcomes.foldl Intake.take i).problems =
        i.problems ++ (outcomes.filterMap Outcome.settled?).filterMap r.problem? := by
  induction outcomes generalizing i with
  | nil => exact ⟨h, rfl, (List.append_nil _).symm⟩
  | cons o outcomes ih =>
    obtain ⟨ho, houtcomes⟩ := List.forall_mem_cons.1 houtcomes
    obtain ⟨hone, hunrecognized, hproblems⟩ := h.take ho
    obtain ⟨hall, hrest, hmore⟩ := ih hone houtcomes
    refine ⟨hall, hrest.trans hunrecognized, ?_⟩
    rw [List.foldl_cons, hmore, hproblems, List.append_assoc]
    cases hsettled : o.settled? with
    | none => simp [hsettled]
    | some d => cases hproblem : r.problem? d <;> simp [hsettled, hproblem]

/-- **An intake signals one problem for each finished diagnostic**, in their order, if all that its reader gives
out can be brought back and is not fatal; nothing fails, and nothing is left over that fails the run. -/
theorem signals_of_harmless (h : i.Signalling r) (lines : List Line)
    (houtcomes : ∀ o ∈ (i.reader.readAll lines).1, o.Harmless r) :
    (i.feedAll lines).close.failure = none ∧
      (i.feedAll lines).close.ledger.unrecognized = i.ledger.unrecognized ∧
      (i.feedAll lines).close.problems =
        i.problems ++ ((i.reader.readAll lines).1.filterMap Outcome.settled?).filterMap r.problem? := by
  obtain ⟨hall, hunrecognized, hproblems⟩ := h.foldl_take houtcomes
  rw [close_feedAll_eq lines hall.failure]
  exact ⟨hall.failure, hunrecognized, hproblems⟩

end Intake

end Fenceline
