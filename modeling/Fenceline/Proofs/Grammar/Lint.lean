import Fenceline.Proofs.Grammar.Block

/-!
# What linting reports

A diagnostic of the linter is a header with a severity, a rule and a reason, the place behind an arrow, and
lines about it (`LintDiagnostic`). How many problems there are is told in the end.

**The laws.** `LintDiagnostic.tells`: the lines of a diagnostic tell its report. `tells_found`: the last line
tells a report that is shown and dropped.
-/

namespace Fenceline

namespace Grammar

open Pattern Reference

/-! ## The rules of the linter -/

/-- What the linter says of all problems. -/
def foundPieces : List Pattern :=
  [maybe "error: ", lit "Found ", digits, lit " ",
    alt (seq (lit "problem") (maybe "s")) (seq (lit "documentation lint error") (maybe "s")), wordEdge, anything]

/-- The rules for what the linter says of its work. -/
def lintSummary : Rule where
  patterns := [line foundPieces, checkedFiles]
  effect := .opens .debug

/-- The pieces of a header. -/
def lintPieces : List Pattern :=
  [alt (lit "error") (lit "warning"), lit "[", group "rule" (some1 .greedy (· != ']')), lit "]: ",
    group "reason" anything]

/-- The rule for the header of a diagnostic. -/
def lintHeader : Rule where
  patterns := [line lintPieces]
  effect := .opens .lint

/-- The rule for the place of a diagnostic. -/
def lintPlace : Rule where
  patterns := [line (many .greedy Text.isBlank :: lit "-->" :: many .greedy Text.isBlank :: place)]
  states := ["lint"]
  effect := .extends []
  next := some "lint-body"

theorem lint_eq : lint =
    [narration, lintSummary, lintHeader, lintPlace, fatal, fatalBody, body ["lint", "lint-body"], blank] :=
  rfl

variable {t : Text}

/-- A summary begins in one of three ways. -/
theorem lintSummary_isNone (herror : ¬ "error: ".toList <+: t) (hfound : ¬ "Found ".toList <+: t)
    (hchecked : ¬ "Checked ".toList <+: t) : (lintSummary.read? t).isNone = true := by
  refine read?_isNone fun p hp => ?_
  simp only [lintSummary, List.mem_cons, List.not_mem_nil, or_false] at hp
  rcases hp with rfl | rfl
  · refine find?_eq_none ?_
    show (seq (maybe "error: ") (seq (lit "Found ") _)).results _ = []
    rw [results, results_maybe_of_not_begins herror, List.flatMap_singleton]
    exact results_seq_of_nil (results_lit_of_not_begins hfound) _
  · exact find?_eq_none (results_seq_of_nil (results_lit_of_not_begins hchecked) _)

/-! ## Diagnostics -/

/-- **A diagnostic of the linter**, by what its lines say. -/
structure LintDiagnostic where
  /-- Whether it is a warning, and no error. -/
  warning : Bool
  rule : Text
  reason : Text
  file : Text
  line : Nat
  column : Nat
  /-- The lines below the place. -/
  body : List Text
  rule_name : rule ≠ [] ∧ ']' ∉ rule
  reason_line : '\n' ∉ reason
  file_solid : (∃ x ∈ file.head?, notBlank x = true) ∧ '\n' ∉ file
  body_plain : ∀ t ∈ body, '\n' ∉ t ∧ lint.Plain t

namespace LintDiagnostic

variable (d : LintDiagnostic)

/-- How bad it is. -/
def severity : String :=
  if d.warning then "warning" else "error"

/-- What the first line says. -/
def header : Text :=
  d.severity.toList ++ ("[".toList ++ (d.rule ++ ("]: ".toList ++ d.reason)))

/-- What the line with a place says. -/
def arrow (file line column : Text) : Text :=
  [' '] ++ ("-->".toList ++ ([' '] ++ (file ++ (':' :: line ++ ':' :: column))))

/-- What the line with the place says. -/
def at_ : Text :=
  arrow d.file (Text.ofNat d.line) (Text.ofNat d.column)

/-- What the lines say. -/
def texts : List Text :=
  d.header :: d.at_ :: d.body

/-- What is known of the report before its place is. -/
def headed (message : Text) : Draft :=
  [("rule", d.rule), ("reason", d.reason), ("kind", Kind.lint.name.toList), ("message", message)]

/-- The report when it says a message and is on a place. -/
def placed (message file line column : Text) : Draft :=
  d.headed message ++ [("file", file), ("line", line), ("column", column)]

/-- The report when it says a message. -/
def saying (message : Text) : Draft :=
  d.placed message d.file (Text.ofNat d.line) (Text.ofNat d.column)

/-- The report. -/
def draft : Draft :=
  d.saying (Text.joinWith ['\n'] d.texts)

/-! ## Reading the lines -/

variable {d}

theorem head?_header : d.header.head? = some (if d.warning then 'w' else 'e') := by
  unfold header severity
  cases d.warning <;> rfl

/-- **A header is read with its parts.** -/
theorem read?_header : ∃ reading, lintHeader.read? d.header = some reading ∧
    reading.captured = [("rule", d.rule), ("reason", d.reason)] := by
  let afterRule := "]: ".toList ++ d.reason
  let afterSeverity := "[".toList ++ (d.rule ++ afterRule)
  obtain ⟨b, hseverity⟩ : ∃ b, (alt (lit "error") (lit "warning")).First ⟨none, d.header, []⟩
      ⟨b, afterSeverity, []⟩ := by
    unfold header severity
    cases d.warning with
    | true =>
      refine ⟨_, first_alt_of_results (results_literal_of_ne 'e' "rror".toList ?_) (first_lit "warning")⟩
      exact (by decide : some 'w' ≠ some 'e')
    | false => exact ⟨_, (first_lit "error").alt _⟩
  have hbracket : ∀ x ∈ afterRule.head?, (x != ']') = false := by
    intro x hx
    obtain rfl := Option.some.inj hx
    rfl
  have hname : ∀ x ∈ d.rule, (x != ']') = true := fun x hx => bne_iff_ne.2 fun he => d.rule_name.2 (he ▸ hx)
  have hrule : ∀ b caps, (group "rule" (some1 .greedy (· != ']'))).First ⟨b, d.rule ++ afterRule, caps⟩
      ⟨behind b d.rule, afterRule, ⟨"rule", d.rule ++ afterRule, afterRule⟩ :: caps⟩ :=
    fun b caps => (first_some1 d.rule_name.1 hname hbracket).group
  have hfirst : (all (lintPieces ++ [atEnd])).First ⟨none, d.header, []⟩ _ :=
    hseverity.seq ((first_lit "[").seq ((hrule _ _).seq
      ((first_lit "]: ").seq (first_reason d.reason_line "reason"))))
  refine ⟨_, read?_of_first rfl hfirst, ?_⟩
  show [("rule", (⟨"rule", d.rule ++ afterRule, afterRule⟩ : Capture).text),
    ("reason", (⟨"reason", d.reason, []⟩ : Capture).text)] = _
  rw [text_capture]
  simp [Capture.text]

/-- No header is a fatal error. -/
theorem not_prefix_header : ¬ "error: ".toList <+: d.header := by
  rintro ⟨more, hmore⟩
  unfold header severity at hmore
  cases hwarning : d.warning with
  | true =>
    rw [hwarning] at hmore
    have hchar : some 'e' = some 'w' := congrArg (fun t : Text => t[0]?) hmore
    exact absurd hchar (by decide)
  | false =>
    rw [hwarning] at hmore
    have hchar : some ':' = some '[' := congrArg (fun t : Text => t[5]?) hmore
    exact absurd hchar (by decide)

/-- **A header opens a report** in every state. -/
theorem select_header {reading : Reading} (hread : lintHeader.read? d.header = some reading) (state : String) :
    lint.select state d.header = some ⟨2, lintHeader, reading⟩ := by
  refine select_of_reads [narration, lintSummary] rfl hread fun r hr => .inr ?_
  have hhead : ∀ x ∈ ['C', 'D', 'E', 'W', 'F'], d.header.head? ≠ some x := by
    intro x hx hhead
    rw [head?_header] at hhead
    have hhead : (if d.warning then 'w' else 'e') = x := Option.some.inj hhead
    split at hhead <;> exact absurd (hhead ▸ hx) (by decide)
  simp only [List.mem_cons, List.not_mem_nil, or_false] at hr
  rcases hr with rfl | rfl
  · exact narration_isNone fun x hx => hhead x (List.mem_append_left ['F'] hx)
  · exact lintSummary_isNone not_prefix_header (not_prefix_of_head? rfl (hhead 'F' (by decide)))
      (not_prefix_of_head? rfl (hhead 'C' (by decide)))

/-- Nothing that begins with a letter is ahead where the line with a place begins. -/
theorem not_prefix_arrow {s : String} {x : Char} {r file line column : Text} (hs : s.toList = x :: r)
    (hx : x ≠ ' ') : ¬ s.toList <+: arrow file line column :=
  not_prefix_of_head? hs fun hhead => hx (Option.some.inj hhead).symm

/-- **The place is read with its parts.** -/
theorem read?_at : ∃ reading, lintPlace.read? d.at_ = some reading ∧
    reading.captured =
      [("file", d.file), ("line", Text.ofNat d.line), ("column", Text.ofNat d.column)] := by
  obtain ⟨⟨x, hx, hsolid⟩, hnewline⟩ := d.file_solid
  obtain ⟨file, hfile⟩ := List.head?_eq_some_iff.1 (Option.mem_def.1 hx)
  let line := Text.ofNat d.line
  let column := Text.ofNat d.column
  let rest := ':' :: line ++ ':' :: column
  have hblank : ∀ y ∈ [' '], Text.isBlank y = true := List.forall_mem_singleton.2 (by decide +kernel)
  have harrow : ∀ y ∈ ("-->".toList ++ ([' '] ++ (d.file ++ rest))).head?, Text.isBlank y = false := by
    intro y hy
    obtain rfl := Option.some.inj hy
    decide +kernel
  have hbehind : ∀ y ∈ (d.file ++ rest).head?, Text.isBlank y = false := by
    intro y hy
    rw [hfile] at hy
    obtain rfl := Option.some.inj hy
    exact Bool.not_eq_true' _ ▸ hsolid
  obtain ⟨b, hplace⟩ := first_place hsolid (fun hmem => hnewline (hfile ▸ List.mem_cons_of_mem x hmem))
    (digits_ofNat d.line) (digits_ofNat d.column) (behind (behind (behind none [' ']) "-->".toList) [' ']) []
  rw [← hfile] at hplace
  have hfirst : (all (many .greedy Text.isBlank :: lit "-->" :: many .greedy Text.isBlank :: place ++ [atEnd])).First
      ⟨none, d.at_, []⟩ _ :=
    (first_greedy hblank harrow).seq ((first_lit "-->").seq ((first_greedy hblank hbehind).seq hplace))
  refine ⟨_, read?_of_first rfl hfirst, ?_⟩
  show [("file", (⟨"file", d.file ++ rest, rest⟩ : Capture).text),
    ("line", (⟨"line", line ++ ':' :: column, ':' :: column⟩ : Capture).text),
    ("column", (⟨"column", column, []⟩ : Capture).text)] = _
  rw [text_capture, text_capture]
  simp [Capture.text, line, column]

/-- **The place is read as the place of the report.** -/
theorem select_at {reading : Reading} (hread : lintPlace.read? d.at_ = some reading) :
    lint.select "lint" d.at_ = some ⟨3, lintPlace, reading⟩ := by
  refine select_of_reads [narration, lintSummary, lintHeader] (by decide) hread fun r hr => .inr ?_
  simp only [List.mem_cons, List.not_mem_nil, or_false] at hr
  rcases hr with rfl | rfl | rfl
  · refine narration_isNone fun x hx hhead => ?_
    have hspace : ' ' = x := Option.some.inj hhead
    exact absurd (hspace ▸ hx) (by decide)
  · exact lintSummary_isNone (not_prefix_arrow rfl (by decide)) (not_prefix_arrow rfl (by decide))
      (not_prefix_arrow rfl (by decide))
  · refine read?_isNone fun p hp => ?_
    rw [List.mem_singleton.1 hp]
    refine find?_eq_none (results_seq_of_nil ?_ _)
    rw [results, results_lit_of_not_begins (not_prefix_arrow rfl (by decide)),
      results_lit_of_not_begins (not_prefix_arrow rfl (by decide))]
    rfl

/-! ## The report -/

/-- **The lines of a diagnostic tell its report**, whatever holds of it as far as it comes. -/
theorem tells {P : Draft → Prop} {lines : List Line} (hfinal : ∀ l ∈ lines, l.final = true)
    (hsaid : lines.map Line.said = d.texts) (hheaded : P (d.headed d.header))
    (hsaying : ∀ front, front <+: d.body →
      P (d.saying (Text.joinWith ['\n'] (d.header :: d.at_ :: front)))) :
    lint.Tells P lines d.draft "lint-body" := by
  obtain ⟨header, hheader, hparts⟩ := d.read?_header
  obtain ⟨place, hplace, hnumbers⟩ := d.read?_at
  have hopened : Draft.opened header.captured .lint d.header = d.headed d.header := by
    rw [hparts]
    rfl
  have hplaced : (d.headed d.header).extended [] place.captured d.at_ =
      d.saying (d.header ++ ['\n'] ++ d.at_) := by
    rw [hnumbers, List.append_assoc]
    rfl
  have hbelow : ∀ lines, (d.saying (d.header ++ ['\n'] ++ d.at_)).below lines =
      d.saying (Text.joinWith ['\n'] (d.header :: d.at_ :: lines)) := by
    intro lines
    rw [← Text.joinWith_append_cons]
    exact Draft.below_set (d.saying (d.header ++ ['\n'] ++ d.at_)) _ lines
  have hbody : ∀ t ∈ d.body, lint.IsBody "lint-body" t := by
    intro t ht
    refine isBody_of_plain [narration, lintSummary, lintHeader, lintPlace, fatal, fatalBody] lint_eq
      (by decide) (d.body_plain t ht).2 (d.body_plain t ht).1 fun r hr => ?_
    have hrules : ∀ r ∈ [narration, lintSummary, lintHeader, lintPlace, fatal, fatalBody],
        r.report?.isSome = true ∨ r.applies "lint-body" = false := by decide
    exact (hrules r hr).imp_right .inl
  -- Nothing stands between the header and the place.
  have hnone : ∀ t ∈ ([] : List Text), lint.IsBody "lint" t := List.forall_mem_nil _
  have hsaid : lines.map Line.said = d.header :: ([] ++ d.at_ :: d.body) := hsaid
  have hall := tells_located (P := P) "lint" "lint-body" hfinal hsaid
    (fun state => ⟨_, select_header hheader state⟩) rfl rfl hnone (select_at hplace) rfl rfl hbody
    (fun front hfront => by rw [hopened, List.prefix_nil.1 hfront]; exact hheaded)
    (fun front hfront => by
      rw [hopened]
      show P (((d.headed d.header).extended [] place.captured d.at_).below front)
      rw [hplaced, hbelow]
      exact hsaying front hfront)
  rw [hopened] at hall
  have hdraft : (((d.headed d.header).below []).extended [] place.captured d.at_).below d.body = d.draft := by
    show ((d.headed d.header).extended [] place.captured d.at_).below d.body = d.draft
    rw [hplaced, hbelow]
    rfl
  rwa [hdraft] at hall

end LintDiagnostic

/-! ## The last line -/

/-- The line that tells how many problems there are. -/
def foundLine (count : Nat) : Text :=
  "Found ".toList ++ (Text.ofNat count ++ (" ".toList ++ ("problem".toList ++ ("s".toList ++ []))))

/-- The report of this line. -/
def foundDraft (count : Nat) : Draft :=
  [("kind", Kind.debug.name.toList), ("message", foundLine count)]

theorem read?_found (count : Nat) :
    ∃ reading, lintSummary.read? (foundLine count) = some reading ∧ reading.captured = [] := by
  have hprefix : (maybe "error: ").First ⟨none, foundLine count, []⟩ ⟨none, foundLine count, []⟩ :=
    first_opt_of_results (results_literal_of_ne 'e' "rror: ".toList (by decide : some 'F' ≠ some 'e'))
  have hdigits : ∀ b rest, digits.First ⟨b, Text.ofNat count ++ (" ".toList ++ rest), []⟩
      ⟨behind b (Text.ofNat count), " ".toList ++ rest, []⟩ :=
    fun b rest => first_some1 (digits_ofNat count).ne_nil (digits_ofNat count).isDecimal
      (noDigit_cons (by decide +kernel) rest)
  have hproblems : ∀ b, (alt (seq (lit "problem") (maybe "s"))
      (seq (lit "documentation lint error") (maybe "s"))).First
        ⟨b, "problem".toList ++ ("s".toList ++ []), []⟩ ⟨some 's', [], []⟩ :=
    fun b => ((first_lit "problem").seq (first_lit "s").opt).alt _
  have hfirst : (all (foundPieces ++ [atEnd])).First ⟨none, foundLine count, []⟩ _ :=
    hprefix.seq ((first_lit "Found ").seq ((hdigits _ _).seq ((first_lit " ").seq
      ((hproblems _).seq ((first_wordEdge (by decide +kernel)).seq
        ((first_anything List.not_mem_nil).seq (first_atEnd rfl)))))))
  exact ⟨_, read?_of_first rfl hfirst, rfl⟩

/-- **The last line tells a report that is shown and dropped.** -/
theorem tells_found {P : Draft → Prop} {count : Nat} {lines : List Line}
    (hfinal : ∀ l ∈ lines, l.final = true) (hsaid : lines.map Line.said = [foundLine count])
    (hP : P (foundDraft count)) : lint.Tells P lines (foundDraft count) "debug" := by
  obtain ⟨line, rfl, hline⟩ := List.map_eq_singleton_iff.1 hsaid
  obtain ⟨reading, hread, hcaptured⟩ := read?_found count
  have hselect : ∀ state, ∃ index, lint.select state line.said = some ⟨index, lintSummary, reading⟩ := by
    intro state
    rw [hline]
    refine ⟨1, select_of_reads [narration] rfl hread fun r hr => .inr ?_⟩
    rw [List.mem_singleton.1 hr]
    refine narration_isNone fun x hx hhead => ?_
    have hletter : 'F' = x := Option.some.inj hhead
    exact absurd (hletter ▸ hx) (by decide)
  have hopened : Draft.opened reading.captured .debug line.said = foundDraft count := by
    rw [hcaptured, hline]
    rfl
  have htells := tells_of_opens (P := P) (hfinal line List.mem_cons_self) hselect rfl (hopened ▸ hP)
  rwa [hopened] at htells

end Grammar

end Fenceline
