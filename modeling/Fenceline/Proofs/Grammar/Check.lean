import Fenceline.Proofs.Grammar.Block

/-!
# What a type check reports

A diagnostic of a type check is a header with a code, a severity and a reason, an excerpt of the source, the
place, and whatever is related to it, places of other files among it (`CheckDiagnostic`). The first place is
read by a rule of its own, which leads to a state in which that rule does not apply; so later places are lines
of the body.

**The law** (`readAll_check`): diagnostics printed one below the other are read as one report each, with the
parts of its header and its first place; nothing else is told, and no line is left over.

**What it does not establish.** Which text a diagnostic prints: escape sequences are no part of what a line
says, so they are no part of the report either. Nor that every place is found: none is where the name of the
file begins with a blank (`readAll_check_coloured`).
-/

namespace Fenceline

namespace Grammar

open Pattern Reference

/-! ## The rules of a type check -/

/-- The rules for what a type check says of all errors. -/
def checkSummary : Rule where
  patterns := [
    line [lit "Found ", digits, lit " error", maybe "s", lit "."],
    line [lit "error: Type checking failed."]]
  effect := .opens .debug

/-- The pieces of a header. -/
def headerPieces : List Pattern :=
  [maybe "error: ", group "rule" (seq (lit "TS") digits), lit " [",
    group "severity" (some1 .greedy isCapital), lit "]: ", group "reason" anything]

/-- The rule for the header of a diagnostic. -/
def checkHeader : Rule where
  patterns := [line headerPieces]
  effect := .opens .check

/-- The rule for the place of a diagnostic. -/
def checkPlace : Rule where
  patterns := [line (some1 .greedy Text.isBlank :: lit "at " :: place)]
  states := ["check"]
  effect := .extends []
  next := some "related"

theorem check_eq : check =
    [narration, checkSummary, checkHeader, checkPlace, fatal, fatalBody, body ["check", "related"], blank] :=
  rfl

variable {t : Text}

/-- A summary begins in one of two ways. -/
theorem checkSummary_isNone {t : Text} (hfound : ¬ "Found ".toList <+: t)
    (hfailed : ¬ "error: Type checking failed.".toList <+: t) : (checkSummary.read? t).isNone = true := by
  refine read?_isNone fun p hp => ?_
  simp only [checkSummary, List.mem_cons, List.not_mem_nil, or_false] at hp
  rcases hp with rfl | rfl
  · exact find?_eq_none (results_seq_of_nil (results_lit_of_not_begins hfound) _)
  · exact find?_eq_none (results_seq_of_nil (results_lit_of_not_begins hfailed) _)

/-! ## Diagnostics -/

/-- **A diagnostic of a type check**, by what its lines say. -/
structure CheckDiagnostic where
  /-- Whether the header begins with `error: `. -/
  prefixed : Bool
  /-- The digits behind `TS`. -/
  code : Text
  severity : Text
  reason : Text
  /-- The lines between the header and the place. -/
  excerpt : List Text
  /-- What stands before the place. -/
  indent : Text
  file : Text
  line : Text
  column : Text
  /-- The lines below the place. -/
  further : List Text
  code_digits : Digits code
  severity_capitals : severity ≠ [] ∧ ∀ x ∈ severity, isCapital x = true
  reason_line : '\n' ∉ reason
  excerpt_plain : ∀ t ∈ excerpt, '\n' ∉ t ∧ check.Plain t ∧ (checkPlace.read? t).isNone = true
  indent_blank : indent ≠ [] ∧ ∀ x ∈ indent, Text.isBlank x = true
  file_solid : (∃ x ∈ file.head?, notBlank x = true) ∧ '\n' ∉ file
  line_digits : Digits line
  column_digits : Digits column
  further_plain : ∀ t ∈ further, '\n' ∉ t ∧ check.Plain t

namespace CheckDiagnostic

variable (d : CheckDiagnostic)

/-- The name of the rule. -/
def rule : Text :=
  "TS".toList ++ d.code

/-- What the first line says. -/
def header : Text :=
  (if d.prefixed then "error: ".toList else []) ++
    (d.rule ++ (" [".toList ++ (d.severity ++ ("]: ".toList ++ d.reason))))

/-- What the line with the place says. -/
def at_ : Text :=
  d.indent ++ ("at ".toList ++ (d.file ++ (':' :: d.line ++ ':' :: d.column)))

/-- What the lines say. -/
def texts : List Text :=
  d.header :: (d.excerpt ++ d.at_ :: d.further)

/-- What is known of the report before its place is. -/
def headed (message : Text) : Draft :=
  [("rule", d.rule), ("severity", d.severity), ("reason", d.reason), ("kind", Kind.check.name.toList),
    ("message", message)]

/-- The report when it says a message. -/
def saying (message : Text) : Draft :=
  d.headed message ++ [("file", d.file), ("line", d.line), ("column", d.column)]

/-- The report. -/
def draft : Draft :=
  d.saying (Text.joinWith ['\n'] d.texts)

/-! ## Reading the header -/

variable {d}

theorem header_head? : d.header.head? = some (if d.prefixed then 'e' else 'T') := by
  unfold header rule
  cases d.prefixed <;> rfl

/-- No header is a summary. -/
theorem not_prefix_header : ¬ "error: Type checking failed.".toList <+: d.header := by
  rintro ⟨r, hr⟩
  unfold header rule at hr
  cases hprefixed : d.prefixed with
  | true =>
    rw [hprefixed] at hr
    have hchar : some 'y' = some 'S' := congrArg (fun t : Text => t[8]?) hr
    exact absurd hchar (by decide)
  | false =>
    rw [hprefixed] at hr
    have hchar : some 'e' = some 'T' := congrArg (fun t : Text => t[0]?) hr
    exact absurd hchar (by decide)

/-- What stands before the code is read, if anything does. -/
theorem first_prefix : ∃ b, (maybe "error: ").First ⟨none, d.header, []⟩
    ⟨b, d.rule ++ (" [".toList ++ (d.severity ++ ("]: ".toList ++ d.reason))), []⟩ := by
  unfold header
  cases d.prefixed with
  | true => exact ⟨_, (first_lit "error: ").opt⟩
  | false =>
    refine ⟨none, first_opt_of_results (results_literal_of_ne 'e' "rror: ".toList ?_)⟩
    exact (by decide : some 'T' ≠ some 'e')

/-- **A header is read with its parts.** -/
theorem read?_header : ∃ reading, checkHeader.read? d.header = some reading ∧
    reading.captured = [("rule", d.rule), ("severity", d.severity), ("reason", d.reason)] := by
  let afterSeverity := "]: ".toList ++ d.reason
  let afterRule := " [".toList ++ (d.severity ++ afterSeverity)
  obtain ⟨b, hprefix⟩ := d.first_prefix
  obtain ⟨b', hrule⟩ : ∃ b', (group "rule" (seq (lit "TS") digits)).First ⟨b, d.rule ++ afterRule, []⟩
      ⟨b', afterRule, [⟨"rule", d.rule ++ afterRule, afterRule⟩]⟩ := by
    have hcode : NoDigit afterRule := noDigit_cons (by decide +kernel) _
    unfold rule
    rw [List.append_assoc]
    exact ⟨_, ((first_lit "TS").seq
      (first_some1 d.code_digits.ne_nil d.code_digits.isDecimal hcode)).group⟩
  have hbracket : ∀ x ∈ afterSeverity.head?, isCapital x = false := by
    intro x hx
    obtain rfl := Option.some.inj hx
    decide
  have hseverity : ∀ b caps, (group "severity" (some1 .greedy isCapital)).First
      ⟨b, d.severity ++ afterSeverity, caps⟩
      ⟨behind b d.severity, afterSeverity, ⟨"severity", d.severity ++ afterSeverity, afterSeverity⟩ :: caps⟩ :=
    fun b caps => (first_some1 d.severity_capitals.1 d.severity_capitals.2 hbracket).group
  have hfirst : (all (headerPieces ++ [atEnd])).First ⟨none, d.header, []⟩ _ :=
    hprefix.seq (hrule.seq ((first_lit " [").seq ((hseverity _ _).seq
      ((first_lit "]: ").seq (first_reason d.reason_line "reason")))))
  refine ⟨_, read?_of_first rfl hfirst, ?_⟩
  have hreason : (⟨"reason", d.reason, []⟩ : Capture).text = d.reason := by simp [Capture.text]
  show [("rule", (⟨"rule", d.rule ++ afterRule, afterRule⟩ : Capture).text),
    ("severity", (⟨"severity", d.severity ++ afterSeverity, afterSeverity⟩ : Capture).text),
    ("reason", (⟨"reason", d.reason, []⟩ : Capture).text)] = _
  rw [text_capture, text_capture, hreason]

/-- **A header opens a report** in every state. -/
theorem select_header {reading : Reading} (hread : checkHeader.read? d.header = some reading) (state : String) :
    check.select state d.header = some ⟨2, checkHeader, reading⟩ := by
  refine select_of_reads [narration, checkSummary] rfl hread fun r hr => .inr ?_
  simp only [List.mem_cons, List.not_mem_nil, or_false] at hr
  rcases hr with rfl | rfl
  · refine narration_isNone fun x hx hhead => ?_
    rw [header_head?] at hhead
    have hhead : (if d.prefixed then 'e' else 'T') = x := Option.some.inj hhead
    split at hhead <;> exact absurd (hhead ▸ hx) (by decide)
  · refine checkSummary_isNone (not_prefix_of_head? rfl fun hhead => ?_) not_prefix_header
    rw [header_head?] at hhead
    have hhead : (if d.prefixed then 'e' else 'T') = 'F' := Option.some.inj hhead
    split at hhead <;> exact absurd hhead (by decide)

/-! ## Reading the place -/

/-- The line with the place begins with a blank. -/
theorem head?_at_ne {x : Char} (hx : Text.isBlank x = false) : d.at_.head? ≠ some x := by
  obtain ⟨y, indent, hindent⟩ := List.exists_cons_of_ne_nil d.indent_blank.1
  have hy : Text.isBlank y = true := d.indent_blank.2 y (hindent ▸ List.mem_cons_self)
  rw [at_, hindent]
  rintro hhead
  rw [Option.some.inj hhead, hx] at hy
  cases hy

theorem not_prefix_at {s : String} {x : Char} {r : Text} (hs : s.toList = x :: r) (hx : Text.isBlank x = false) :
    ¬ s.toList <+: d.at_ :=
  not_prefix_of_head? hs (head?_at_ne hx)

/-- **The place is read with its parts.** -/
theorem read?_at : ∃ reading, checkPlace.read? d.at_ = some reading ∧
    reading.captured = [("file", d.file), ("line", d.line), ("column", d.column)] := by
  obtain ⟨⟨x, hx, hsolid⟩, hnewline⟩ := d.file_solid
  obtain ⟨file, hfile⟩ := List.head?_eq_some_iff.1 (Option.mem_def.1 hx)
  let rest := ':' :: d.line ++ ':' :: d.column
  obtain ⟨b, hplace⟩ := first_place hsolid (fun hmem => hnewline (hfile ▸ List.mem_cons_of_mem x hmem))
    d.line_digits d.column_digits (behind (behind none d.indent) "at ".toList) []
  rw [← hfile] at hplace
  have hindent : (some1 .greedy Text.isBlank).First ⟨none, d.at_, []⟩
      ⟨behind none d.indent, "at ".toList ++ (d.file ++ rest), []⟩ := by
    refine first_some1 d.indent_blank.1 d.indent_blank.2 fun x hx => ?_
    obtain rfl := Option.some.inj hx
    decide +kernel
  have hfirst : (all (some1 .greedy Text.isBlank :: lit "at " :: place ++ [atEnd])).First ⟨none, d.at_, []⟩ _ :=
    hindent.seq ((first_lit "at ").seq hplace)
  refine ⟨_, read?_of_first rfl hfirst, ?_⟩
  show [("file", (⟨"file", d.file ++ rest, rest⟩ : Capture).text),
    ("line", (⟨"line", d.line ++ ':' :: d.column, ':' :: d.column⟩ : Capture).text),
    ("column", (⟨"column", d.column, []⟩ : Capture).text)] = _
  rw [text_capture, text_capture]
  simp [Capture.text]

/-- No header begins with a blank. -/
theorem header_isNone_at : (checkHeader.read? d.at_).isNone = true := by
  refine read?_isNone fun p hp => ?_
  rw [List.mem_singleton.1 hp]
  have hprefix : (maybe "error: ").results ⟨none, d.at_, []⟩ = [⟨none, d.at_, []⟩] :=
    results_maybe_of_not_begins (not_prefix_at rfl (by decide +kernel))
  have hrule : (group "rule" (seq (lit "TS") digits)).results ⟨none, d.at_, []⟩ = [] := by
    rw [results, results_seq_of_nil (results_lit_of_not_begins (not_prefix_at rfl (by decide +kernel)))]
    rfl
  refine find?_eq_none ?_
  show (seq (maybe "error: ") (seq (group "rule" (seq (lit "TS") digits)) _)).results _ = []
  rw [results, hprefix, List.flatMap_singleton]
  exact results_seq_of_nil hrule _

/-- **The first place is read as the place of the report.** -/
theorem select_at {reading : Reading} (hread : checkPlace.read? d.at_ = some reading) :
    check.select "check" d.at_ = some ⟨3, checkPlace, reading⟩ := by
  refine select_of_reads [narration, checkSummary, checkHeader] (by decide) hread fun r hr => .inr ?_
  simp only [List.mem_cons, List.not_mem_nil, or_false] at hr
  rcases hr with rfl | rfl | rfl
  · have hletters : (['C', 'D', 'E', 'W'].all fun x => !Text.isBlank x) = true := by decide +kernel
    have hletter : ∀ x ∈ ['C', 'D', 'E', 'W'], Text.isBlank x = false := fun x hx =>
      Bool.not_eq_true' _ ▸ List.all_eq_true.1 hletters x hx
    exact narration_isNone fun x hx => head?_at_ne (hletter x hx)
  · exact checkSummary_isNone (not_prefix_at rfl (by decide +kernel)) (not_prefix_at rfl (by decide +kernel))
  · exact header_isNone_at

/-! ## The report -/

/-- Any line is one of the body, if no rule before reads it. -/
theorem isBody_check {state : String} {t : Text} (hstate : state ∈ ["check", "related"]) (hline : '\n' ∉ t)
    (hplain : check.Plain t) (hplace : checkPlace.applies state = false ∨ (checkPlace.read? t).isNone = true) :
    check.IsBody state t := by
  refine isBody_of_plain [narration, checkSummary, checkHeader, checkPlace, fatal, fatalBody]
    check_eq (List.contains_iff_mem.2 hstate) hplain hline fun r hr => ?_
  simp only [List.mem_cons, List.not_mem_nil, or_false] at hr hstate
  rcases hr with rfl | rfl | rfl | rfl | rfl | rfl
  · exact .inl rfl
  · exact .inl rfl
  · exact .inl rfl
  · exact .inr hplace
  · exact .inl rfl
  · rcases hstate with rfl | rfl <;> exact .inr (.inl (by decide))

/-- **The lines of a diagnostic tell its report.** -/
theorem tells {lines : List Line} (hfinal : ∀ l ∈ lines, l.final = true)
    (hsaid : lines.map Line.said = d.texts) :
    check.Tells (·.IsOf .check) lines d.draft "related" := by
  obtain ⟨header, hheader, hparts⟩ := d.read?_header
  obtain ⟨place, hplace, hnumbers⟩ := d.read?_at
  have hopened : Draft.opened header.captured .check d.header = d.headed d.header := by
    rw [hparts]
    rfl
  have habove : ∀ lines, (d.headed d.header).below lines = d.headed (Text.joinWith ['\n'] (d.header :: lines)) :=
    Draft.below_set (d.headed d.header) d.header
  have hplaced : ∀ message, (d.headed message).extended [] place.captured d.at_ =
      d.saying (message ++ ['\n'] ++ d.at_) := by
    intro message
    rw [hnumbers, List.append_assoc]
    rfl
  have hbelow : ∀ message lines, (d.saying message).below lines =
      d.saying (Text.joinWith ['\n'] (message :: lines)) :=
    fun message => Draft.below_set (d.saying message) message
  have hall := tells_located (P := (·.IsOf .check)) "check" "related" hfinal hsaid
    (fun state => ⟨_, select_header hheader state⟩) rfl rfl
    (fun t ht => isBody_check (by decide) (d.excerpt_plain t ht).1 (d.excerpt_plain t ht).2.1
      (.inr (d.excerpt_plain t ht).2.2))
    (select_at hplace) rfl rfl
    (fun t ht => isBody_check (by decide) (d.further_plain t ht).1 (d.further_plain t ht).2 (.inl (by decide)))
    (fun front _ => by rw [hopened, habove]; rfl)
    (fun front _ => by rw [hopened, habove, hplaced, hbelow]; rfl)
  rw [hopened, habove, hplaced, hbelow, Text.joinWith_append_cons] at hall
  have htexts : Text.joinWith ['\n'] (Text.joinWith ['\n'] (d.header :: d.excerpt) :: d.at_ :: d.further) =
      Text.joinWith ['\n'] d.texts :=
    Text.joinWith_joinWith_cons (List.cons_ne_nil d.header d.excerpt) ['\n'] (d.at_ :: d.further)
  rwa [htexts] at hall

end CheckDiagnostic

/-- **Diagnostics of a type check are read as one report each**, in their order, with the parts of the header,
the first place, and all their lines; no line is left over, and nothing else is told. -/
theorem readAll_check (ds : List CheckDiagnostic) {lines : List Line} (hfinal : ∀ l ∈ lines, l.final = true)
    (hsaid : lines.map Line.said = ds.flatMap CheckDiagnostic.texts) :
    let r : Reader := { grammar := check }
    (r.readAll lines).1.filterMap Outcome.settled? = ds.map CheckDiagnostic.draft ∧
      (r.readAll lines).1.filterMap Outcome.unrecognized? = [] ∧
      ∀ d done, .flush d done ∈ (r.readAll lines).1 → d.IsOf .check := by
  intro r
  obtain ⟨hsettled, hall⟩ := readAll_of_printed (P := (·.IsOf .check)) hfinal hsaid
    fun d _ part hpart htexts => ⟨"related", d.tells hpart htexts⟩
  refine ⟨hsettled, List.filterMap_eq_nil_iff.2 fun o ho => ?_, fun d done hd => ?_⟩
  · rcases hall o ho with ⟨d, -, rfl⟩ | ⟨d, -, rfl⟩ <;> rfl
  · rcases hall _ hd with ⟨e, -, he⟩ | ⟨e, hkind, he⟩
    · rw [(Outcome.flush.inj he).1]
      rfl
    · rwa [(Outcome.flush.inj he).1]

/-- Two diagnostics, the first of them in colour and with a related place, in files that have colons and digits
in their names. -/
theorem readAll_check_related :
    let lines : List Line := ["\x1b[1mTS2322 \x1b[31m[ERROR]: bad", "let x = 1;", "  at /a:1/m.ts:2:5",
      "  at /b.ts:9:9", "error: TS7006 [ERROR]: none", "  at 10:20:30:40"].map fun t => ⟨.stderr, t.toList, true⟩
    let r : Reader := { grammar := check }
    (r.readAll lines).1.filterMap Outcome.settled? =
        [[("rule", "TS2322".toList), ("severity", "ERROR".toList), ("reason", "bad".toList),
          ("kind", "check".toList),
          ("message", "TS2322 [ERROR]: bad\nlet x = 1;\n  at /a:1/m.ts:2:5\n  at /b.ts:9:9".toList),
          ("file", "/a:1/m.ts".toList), ("line", "2".toList), ("column", "5".toList)],
        [("rule", "TS7006".toList), ("severity", "ERROR".toList), ("reason", "none".toList),
          ("kind", "check".toList), ("message", "error: TS7006 [ERROR]: none\n  at 10:20:30:40".toList),
          ("file", "10:20".toList), ("line", "30".toList), ("column", "40".toList)]] ∧
      (r.readAll lines).1.filterMap Outcome.unrecognized? = [] := by
  intro lines r
  let related : CheckDiagnostic :=
    { prefixed := false
      code := "2322".toList
      severity := "ERROR".toList
      reason := "bad".toList
      excerpt := ["let x = 1;".toList]
      indent := "  ".toList
      file := "/a:1/m.ts".toList
      line := "2".toList
      column := "5".toList
      further := ["  at /b.ts:9:9".toList]
      code_digits := ⟨by decide, List.all_eq_true.1 (by decide +kernel)⟩
      severity_capitals := ⟨by decide, List.all_eq_true.1 (by decide)⟩
      reason_line := by decide
      excerpt_plain := by decide +kernel
      indent_blank := ⟨by decide, List.all_eq_true.1 (by decide +kernel)⟩
      file_solid := ⟨⟨'/', rfl, by decide +kernel⟩, by decide⟩
      line_digits := ⟨by decide, List.all_eq_true.1 (by decide +kernel)⟩
      column_digits := ⟨by decide, List.all_eq_true.1 (by decide +kernel)⟩
      further_plain := by decide +kernel }
  let short : CheckDiagnostic :=
    { prefixed := true
      code := "7006".toList
      severity := "ERROR".toList
      reason := "none".toList
      excerpt := []
      indent := "  ".toList
      file := "10:20".toList
      line := "30".toList
      column := "40".toList
      further := []
      code_digits := ⟨by decide, List.all_eq_true.1 (by decide +kernel)⟩
      severity_capitals := ⟨by decide, List.all_eq_true.1 (by decide)⟩
      reason_line := by decide
      excerpt_plain := List.forall_mem_nil _
      indent_blank := ⟨by decide, List.all_eq_true.1 (by decide +kernel)⟩
      file_solid := ⟨⟨'1', rfl, by decide +kernel⟩, by decide⟩
      line_digits := ⟨by decide, List.all_eq_true.1 (by decide +kernel)⟩
      column_digits := ⟨by decide, List.all_eq_true.1 (by decide +kernel)⟩
      further_plain := List.forall_mem_nil _ }
  have hsaid : lines.map Line.said = [related, short].flatMap CheckDiagnostic.texts := by decide +kernel
  obtain ⟨hsettled, hnone, -⟩ := readAll_check [related, short] (by decide) hsaid
  exact ⟨hsettled, hnone⟩

/-- Two diagnostics that are not read as they are printed: one in colour, whose report is without the escape
sequences, and one in a file whose name begins with a blank, whose report has no place. -/
theorem readAll_check_coloured :
    let printed (texts : List String) : List Line := texts.map fun t => ⟨.stderr, t.toList, true⟩
    let r : Reader := { grammar := check }
    (r.readAll (printed ["TS1 [ERROR]: \x1b[31mbad", "  at m:1:2"])).1.filterMap Outcome.settled? =
        [[("rule", "TS1".toList), ("severity", "ERROR".toList), ("reason", "bad".toList),
          ("kind", "check".toList), ("message", "TS1 [ERROR]: bad\n  at m:1:2".toList),
          ("file", "m".toList), ("line", "1".toList), ("column", "2".toList)]] ∧
      (r.readAll (printed ["TS1 [ERROR]: bad", "  at  m:1:2"])).1.filterMap Outcome.settled? =
        [[("rule", "TS1".toList), ("severity", "ERROR".toList), ("reason", "bad".toList),
          ("kind", "check".toList), ("message", "TS1 [ERROR]: bad\n  at  m:1:2".toList)]] := by
  decide +kernel

end Grammar

end Fenceline
