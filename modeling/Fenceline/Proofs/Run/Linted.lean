import Fenceline.Proofs.Grammar.Lint
import Fenceline.Proofs.Location.Placed
import Fenceline.Proofs.Location.Report
import Fenceline.Proofs.Run.Signals

/-!
# Diagnostics of the linter end at their documents

The linter prints diagnostics of places in the files of samples, one below the other, and in the end how many
there were. Each of them is read as a report (`LintDiagnostic.tells`), the report is brought back to the document
of its sample (`Resolver.resolve_placed`), and what is brought back is signalled (`signals_of_harmless`).

**The law** (`signals_lint`): one problem is signalled for each diagnostic, in their order, with its rule and its
reason, on the document as it was requested, at the line and the column of the document. No line is left over,
and nothing fails.

**What it does not establish.** The samples have to be in a directory other than the root, their documents have
to have names that a file can have, and the lines and columns have to be few digits long. Otherwise a report
ends elsewhere, or it cannot be brought back and the run fails (`signals_lint_astray`).
-/

namespace Fenceline

open Grammar Reference

namespace Resolver

/-- **A diagnostic on a sample that a resolver knows**, which speaks of no other place. -/
structure Locates (r : Resolver) (directory : Absolute) (d : LintDiagnostic) (s : Sample) : Prop where
  known : s ∈ r.samples
  stored : s.Stored directory
  file : d.file = s.place
  short : Short d.line ∧ Short d.column
  plain : ∀ t ∈ d.rule :: d.reason :: d.body, '$' ∉ t

/-- What a diagnostic on a sample says of the document, as far as some of its lines. -/
def told (r : Resolver) (d : LintDiagnostic) (s : Sample) (lines : List Text) : Text :=
  Text.joinWith ['\n'] (d.header :: (" --> ".toList ++ r.documentAt s d.line d.column) :: lines)

/-- **The report on the document** that becomes of a diagnostic on a sample. -/
def lintOf (r : Resolver) (d : LintDiagnostic) (s : Sample) : Report :=
  .lint
    { message := (r.told d s d.body).trimEnd
      file := r.shown s
      line := d.line + s.startLine
      column := d.column + s.column - 1
      rule := d.rule
      reason := d.reason }

variable {r : Resolver} {directory : Absolute} {d : LintDiagnostic} {s : Sample}

/-- A draft that is on no file and says nothing of places stays. -/
theorem Knows.resolve_of_nowhere (h : r.Knows directory) {d : Draft} {kind : Kind} {text : Text}
    (hkind : d.kind = .ok kind) (hfile : d.get? "file" = none) (htext : d.message = .ok text)
    (hplain : '$' ∉ text) : r.resolve d = .ok (d.set "message" text) := by
  have hmessage : r.resolveMessage text (r.offset kind) none = .ok text :=
    h.resolveMessage_of_not_mem hplain rfl
  simp only [resolve, hkind, resolveFields, hfile, htext, bind, Except.bind, Option.map_none, hmessage]
  rfl

namespace Locates

theorem dollar_not_mem_header (hd : r.Locates directory d s) : '$' ∉ d.header := by
  have hrule := hd.plain d.rule List.mem_cons_self
  have hreason := hd.plain d.reason (List.mem_cons_of_mem _ List.mem_cons_self)
  have hseverity : '$' ∉ d.severity.toList := by
    unfold LintDiagnostic.severity
    cases d.warning <;> decide
  have hbehind : '$' ∉ "]: ".toList ++ d.reason := List.not_mem_append (by decide) hreason
  exact List.not_mem_append hseverity (List.not_mem_append (by decide) (List.not_mem_append hrule hbehind))

/-- **The report is brought back to the document**, as far as it comes. -/
theorem resolve_saying (h : r.Knows directory) (hd : r.Locates directory d s) {front : List Text}
    (hfront : front <+: d.body) :
    r.resolve (d.saying (Text.joinWith ['\n'] (d.header :: d.at_ :: front))) =
      .ok (d.placed (r.told d s front) (r.shown s) (Text.ofInt (d.line + s.startLine))
        (Text.ofInt (d.column + s.column - 1))) := by
  have hnewline : '\n' ∉ s.place := hd.file ▸ d.file_solid.2
  have hat : d.at_ = " --> ".toList ++ s.placeAt d.line d.column := by
    rw [LintDiagnostic.at_, hd.file]
    rfl
  have hplain : ∀ t ∈ [d.header] ++ front, '$' ∉ t := by
    refine List.forall_mem_cons.2 ⟨hd.dollar_not_mem_header, fun t ht => hd.plain t ?_⟩
    exact List.mem_cons_of_mem _ (List.mem_cons_of_mem _ (hfront.subset ht))
  have hinvites : Mention.Invites " --> ".toList := .inr ⟨" -->".toList, ' ', by decide, .inl rfl⟩
  let lines := [d.header] ++ (" --> ".toList ++ s.placeAt d.line d.column) :: front
  have hkind : (d.saying (Text.joinWith ['\n'] lines)).kind = .ok .lint := rfl
  obtain ⟨named, hresolve⟩ := resolve_placed h hd.known hd.stored hnewline hkind (by decide)
    hinvites hd.short.1 hd.short.2 hplain rfl (congrArg some hd.file) rfl rfl
  rw [hat]
  exact hresolve

/-- **The problem that becomes of a diagnostic** is the report on the document. -/
theorem problem?_draft (h : r.Knows directory) (hd : r.Locates directory d s) :
    r.problem? d.draft = some (r.lintOf d s) := by
  obtain ⟨hstart, hwidth⟩ := hd.stored.short
  have hline : Text.readInt? (Text.ofInt (d.line + s.startLine)) = some (d.line + s.startLine) :=
    Text.readInt?_ofInt (length_ofNat_add hd.short.1 hstart (by omega))
  have hcolumn : Text.readInt? (Text.ofInt (d.column + s.column - 1)) = some (d.column + s.column - 1) :=
    Text.readInt?_ofInt (length_ofNat_add hd.short.2 hwidth (by omega))
  let e := d.placed (r.told d s d.body) (r.shown s) (Text.ofInt (d.line + s.startLine))
    (Text.ofInt (d.column + s.column - 1))
  have hresolve : r.resolve d.draft = .ok e := hd.resolve_saying h (List.prefix_refl d.body)
  have hfinding : e.finding (r.told d s d.body).trimEnd =
      { message := (r.told d s d.body).trimEnd, file := r.shown s,
        line := ((Text.readInt? (Text.ofInt (d.line + s.startLine))).getD (-1)),
        column := ((Text.readInt? (Text.ofInt (d.column + s.column - 1))).getD (-1)),
        rule := d.rule, reason := d.reason } := rfl
  have hreport : e.diagnostic? = .ok (some (.lint (e.finding (r.told d s d.body).trimEnd))) := rfl
  rw [hfinding, hline, hcolumn] at hreport
  exact problem?_of_resolve hresolve hreport

/-- The header of a diagnostic stays. -/
theorem harmless_headed (h : r.Knows directory) (hd : r.Locates directory d s) (done : Bool) :
    (Outcome.flush (d.headed d.header) done).Harmless r :=
  have hkind : (d.headed d.header).kind = .ok .lint := rfl
  ⟨_, .lint, h.resolve_of_nowhere hkind rfl rfl hd.dollar_not_mem_header, rfl, by decide⟩

theorem harmless_saying (h : r.Knows directory) (hd : r.Locates directory d s) {front : List Text}
    (hfront : front <+: d.body) (done : Bool) :
    (Outcome.flush (d.saying (Text.joinWith ['\n'] (d.header :: d.at_ :: front))) done).Harmless r :=
  ⟨_, .lint, hd.resolve_saying h hfront, rfl, by decide⟩

end Locates

/-! ## The last line -/

theorem dollar_not_mem_found (count : Nat) : '$' ∉ foundLine count := by
  have hcount : '$' ∉ Text.ofNat count := Text.not_mem_ofNat (by decide)
  exact List.not_mem_append (by decide) (List.not_mem_append hcount (by decide))

theorem Knows.resolve_found (h : r.Knows directory) (count : Nat) :
    r.resolve (foundDraft count) = .ok (foundDraft count) :=
  have hkind : (foundDraft count).kind = .ok .debug := rfl
  h.resolve_of_nowhere hkind rfl rfl (dollar_not_mem_found count)

/-- How many problems there are is no problem. -/
theorem Knows.problem?_found (h : r.Knows directory) (count : Nat) : r.problem? (foundDraft count) = none :=
  problem?_of_resolve (h.resolve_found count) rfl

end Resolver

namespace Intake

variable {i : Intake} {r : Resolver} {directory : Absolute} {lines : List Line}

/-- **Diagnostics of the linter on samples are signalled as problems of the documents**, one for each and in
their order. No line is left over, and nothing fails. -/
theorem signals_lint (h : i.Signalling r) (hreader : i.reader = { grammar := lint }) (hr : r.Knows directory)
    (ds : List (LintDiagnostic × Sample)) (hds : ∀ p ∈ ds, r.Locates directory p.1 p.2) (count : Nat)
    (hfinal : ∀ l ∈ lines, l.final = true)
    (hsaid : lines.map Line.said = ds.flatMap (·.1.texts) ++ [foundLine count]) :
    (i.feedAll lines).close.failure = none ∧
      (i.feedAll lines).close.ledger.unrecognized = i.ledger.unrecognized ∧
      (i.feedAll lines).close.problems = i.problems ++ ds.map fun p => r.lintOf p.1 p.2 := by
  -- What is printed: a diagnostic, or how many there are.
  let printed : List (Option (LintDiagnostic × Sample)) := ds.map some ++ [none]
  let texts (o : Option (LintDiagnostic × Sample)) : List Text := o.elim [foundLine count] (·.1.texts)
  let draft (o : Option (LintDiagnostic × Sample)) : Draft := o.elim (foundDraft count) (·.1.draft)
  have hprinted : lines.map Line.said = printed.flatMap texts := by
    rw [hsaid, List.flatMap_append, List.flatMap_map]
    rfl
  have hall : ∀ o ∈ printed, o = none ∨ ∃ p ∈ ds, o = some p := by
    intro o ho
    rcases List.mem_append.1 ho with ho | ho
    · obtain ⟨p, hp, rfl⟩ := List.mem_map.1 ho
      exact .inr ⟨p, hp, rfl⟩
    · exact .inl (List.mem_singleton.1 ho)
  have hfound : ∀ done, (Outcome.flush (foundDraft count) done).Harmless r := fun _ =>
    ⟨_, .debug, hr.resolve_found count, rfl, by decide⟩
  have htells : ∀ o ∈ printed, ∀ part : List Line, (∀ l ∈ part, l.final = true) →
      part.map Line.said = texts o →
        ∃ state, lint.Tells (fun d => (Outcome.flush d false).Harmless r) part (draft o) state := by
    intro o ho part hpart hsays
    rcases hall o ho with rfl | ⟨p, hp, rfl⟩
    · exact ⟨_, tells_found hpart hsays (hfound false)⟩
    · exact ⟨_, p.1.tells hpart hsays ((hds p hp).harmless_headed hr false)
        fun front hfront => (hds p hp).harmless_saying hr hfront false⟩
  obtain ⟨hsettled, hshown⟩ := readAll_of_printed hfinal hprinted htells
  rw [← hreader] at hsettled hshown
  have hharmless : ∀ o ∈ (i.reader.readAll lines).1, o.Harmless r := by
    intro o ho
    rcases hshown o ho with ⟨printed, hmem, rfl⟩ | ⟨d, hd, rfl⟩
    · rcases hall printed hmem with rfl | ⟨p, hp, rfl⟩
      · exact hfound true
      · exact (hds p hp).harmless_saying hr (List.prefix_refl p.1.body) true
    · exact hd
  obtain ⟨hfailure, hunrecognized, hproblems⟩ := signals_of_harmless h lines hharmless
  refine ⟨hfailure, hunrecognized, ?_⟩
  have hmade : ∀ p ∈ ds, r.problem? p.1.draft = some (r.lintOf p.1 p.2) := fun p hp =>
    (hds p hp).problem?_draft hr
  rw [hproblems, hsettled, List.filterMap_map, List.filterMap_append, List.filterMap_map]
  have hlast : [none].filterMap (r.problem? ∘ draft) = [] :=
    List.filterMap_cons_none (hr.problem?_found count)
  rw [hlast, List.append_nil]
  congr 1
  rw [← List.filterMap_eq_map]
  exact List.filterMap_congr hmade

/-- Two diagnostics, one of them printed in colour and with another place below it: the document of the first
one was requested under a spelling of its own. -/
theorem signals_lint_two :
    let directory : Absolute := ["t".toList]
    let s : Sample := ⟨.ofAbsolute ["p".toList, "a.ts".toList], 1, 1, 1, [], some "ts".toList, "x\n".toList,
      some (.ofAbsolute (directory ++ ["x$1-3.ts".toList]))⟩
    let u : Sample := ⟨.ofAbsolute ["p".toList, "b.md".toList], 4, 1, 3, [' ', ' '], some "js".toList,
      "y\n".toList, some (.ofAbsolute (directory ++ ["y$4-6.js".toList]))⟩
    let r : Resolver :=
      { cwd := .ofAbsolute ["p".toList], samples := [s, u], sampleDir := some (.ofAbsolute directory),
        displayNames := [(s.file, "a.ts".toList)] }
    let i : Intake :=
      { resolver := some r, reader := { grammar := lint },
        ledger := .ofFiles ["a.ts".toList] (some .diagnostic) }
    let lines : List Line :=
      ["\x1b[31merror[no-var]\x1b[0m: bad", " --> /t/x$1-3.ts:1:5", "  |", " --> /b.ts:9:9",
        "warning[no-any]: loose", " --> /t/y$4-6.js:2:1", "Found 2 problems"].map (⟨.stderr, ·.toList, true⟩)
    (i.feedAll lines).close.failure = none ∧ (i.feedAll lines).close.ledger.unrecognized = [] ∧
      (i.feedAll lines).close.problems =
        [.lint ⟨"error[no-var]: bad\n --> /p/a.ts:2:5\n  |\n --> /b.ts:9:9".toList, "a.ts".toList, 2, 5,
            "no-var".toList, "bad".toList⟩,
          .lint ⟨"warning[no-any]: loose\n --> /p/b.md:6:3".toList, "/p/b.md".toList, 6, 3,
            "no-any".toList, "loose".toList⟩] := by
  intro directory s u r i lines
  have hs : s.Stored directory :=
    { document := ⟨["p".toList, "a.ts".toList], rfl, by decide, by decide, Sample.plain_of_all (by decide)⟩
      stored := ⟨"x".toList, "ts".toList, List.all_eq_true.1 (by decide), by decide⟩
      lines := by decide
      short := by decide }
  have hu : u.Stored directory :=
    { document := ⟨["p".toList, "b.md".toList], rfl, by decide, by decide, Sample.plain_of_all (by decide)⟩
      stored := ⟨"y".toList, "js".toList, List.all_eq_true.1 (by decide), by decide⟩
      lines := by decide
      short := by decide }
  have hr : r.Knows directory :=
    { ne_nil := List.cons_ne_nil _ _
      spellable := by decide
      sampleDir := rfl
      nodup := by decide
      marked := List.forall_mem_cons.2 ⟨⟨['x'], "1-3.ts".toList, rfl, by decide⟩,
        List.forall_mem_singleton.2 ⟨['y'], "4-6.js".toList, rfl, by decide⟩⟩
      short := by decide }
  let bad : LintDiagnostic :=
    { warning := false
      rule := "no-var".toList
      reason := "bad".toList
      file := s.place
      line := 1
      column := 5
      body := ["  |".toList, " --> /b.ts:9:9".toList]
      rule_name := ⟨List.cons_ne_nil _ _, by decide⟩
      reason_line := by decide
      file_solid := ⟨⟨'/', rfl, by decide +kernel⟩, by decide⟩
      body_plain := by decide +kernel }
  let loose : LintDiagnostic :=
    { warning := true
      rule := "no-any".toList
      reason := "loose".toList
      file := u.place
      line := 2
      column := 1
      body := []
      rule_name := ⟨List.cons_ne_nil _ _, by decide⟩
      reason_line := by decide
      file_solid := ⟨⟨'/', rfl, by decide +kernel⟩, by decide⟩
      body_plain := List.forall_mem_nil _ }
  have hbad : r.Locates directory bad s := ⟨List.mem_cons_self, hs, rfl, by decide, by decide⟩
  have hloose : r.Locates directory loose u :=
    ⟨List.mem_cons_of_mem _ List.mem_cons_self, hu, rfl, by decide, by decide⟩
  have hi : i.Signalling r := ⟨rfl, rfl, rfl, rfl⟩
  have hsaid : lines.map Line.said = [(bad, s), (loose, u)].flatMap (·.1.texts) ++ [foundLine 2] := by
    decide +kernel
  obtain ⟨hfailure, hunrecognized, hproblems⟩ := signals_lint hi rfl hr [(bad, s), (loose, u)]
    (List.forall_mem_cons.2 ⟨hbad, List.forall_mem_singleton.2 hloose⟩) 2 (by decide) hsaid
  refine ⟨hfailure, hunrecognized, hproblems.trans ?_⟩
  decide +kernel

/-- Three diagnostics that do not end at the documents of their samples: the samples are in the root, and the
report is moved by the name of the file alone; the document has a name that no file can have, and the run
fails; the line has so many digits that the one in the document has too many, and the report is not brought
back. -/
theorem signals_lint_astray :
    let sample (document : Text) (directory : Absolute) : Sample :=
      ⟨.ofAbsolute ["p".toList, document], 1, 1, 1, [], some "ts".toList, "x\n".toList,
        some (.ofAbsolute (directory ++ ["x$1-3.ts".toList]))⟩
    let resolver (s : Sample) (directory : Absolute) : Resolver :=
      { cwd := .ofAbsolute ["p".toList], samples := [s], sampleDir := some (.ofAbsolute directory) }
    let read (s : Sample) (directory : Absolute) : Intake :=
      let i : Intake :=
        { resolver := some (resolver s directory), reader := { grammar := lint },
          ledger := .ofFiles [] (some .diagnostic) }
      let texts := ["error[no-var]: bad".toList, LintDiagnostic.arrow s.place ['1'] ['1'], foundLine 1]
      (i.feedAll (texts.map (⟨.stderr, ·, true⟩))).close
    let atRoot := sample "a.ts".toList []
    let directory : Absolute := ["t".toList]
    let null := sample ['a', '\x00'] directory
    let s := sample "a.ts".toList directory
    ((read atRoot []).problems = [.lint ⟨"error[no-var]: bad\n --> /x:2:4".toList, "/x".toList, 2, 4,
          "no-var".toList, "bad".toList⟩] ∧
        (resolver atRoot []).shown atRoot = "/p/a.ts".toList ∧ atRoot.column = 1) ∧
      (read null directory).failure = some .nullInPath ∧
      ∀ d : LintDiagnostic, d.file = s.place → d.line = 10 ^ Text.maxDigits - 1 → d.column = 1 →
        ¬ Succeeds ((resolver s directory).resolve d.draft) := by
  intro sample resolver read atRoot directory null s
  refine ⟨by decide +kernel, by decide +kernel, fun d hfile hline hcolumn => ?_⟩
  have hpath : FileUrl.path d.file = .ok s.place := by
    rw [hfile]
    rfl
  have hlength : (Text.ofNat d.line).length ≤ Text.maxDigits := by
    refine (Nat.length_toDigits_le_iff (by decide) (by decide)).2 ?_
    rw [hline]
    exact Nat.sub_lt (Nat.pow_pos (by decide)) (by decide)
  have hshort : (Text.ofNat d.column).length ≤ Text.maxDigits := by
    rw [hcolumn]
    decide
  have hkind : d.draft.kind = .ok .lint := rfl
  refine Resolver.not_succeeds_resolve hkind ⟨_, rfl⟩ rfl hpath (by decide) (s := s) (by decide)
    (Resolver.integer?_ofNat rfl hlength) (Resolver.integer?_ofNat rfl hshort) fun hwritable => ?_
  have hsum : (d.line : Int) + s.startLine = ((10 ^ Text.maxDigits : Nat) : Int) := by
    rw [hline]
    show ((10 ^ Text.maxDigits - 1 : Nat) : Int) + 1 = _
    have hpos : 0 < 10 ^ Text.maxDigits := Nat.pow_pos (by decide)
    omega
  have hlt := hwritable.1
  rw [hsum, Writable, Int.natAbs_natCast] at hlt
  exact Nat.lt_irrefl _ hlt

end Intake

end Fenceline
