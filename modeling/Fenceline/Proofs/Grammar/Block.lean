import Fenceline.Proofs.Grammar.Confinement
import Fenceline.Proofs.Grammar.Whole
import Fenceline.Proofs.Text.Cut
import Mathlib.Data.List.Forall2

/-!
# Lines that tell one report

A report is told by the line that opens it and the lines that extend it. Which rule reads a line depends on
the state of the reader (`Reads`), so lines tell a report from one state on (`TellsFrom`), and reports are
recounted one after the other if each begins in the state in which the one before it ends (`Recounts`). Where a
line that opens a report is read in every state, what the lines tell does not depend on what was read before
them (`Tells`). A line of the body goes below what the report says.

**The laws.** `Recounts.readAll`: lines that recount reports are read as these reports, each given out as
finished once, and whatever else is given out is one of them as far as it had come. `tells_located`: a report is
told by the line that opens it, an excerpt, the line with its place, and more lines.
-/

namespace Fenceline

/-- The draft with lines below what it says. -/
def Draft.below (d : Draft) (lines : List Text) : Draft :=
  lines.foldl (fun d line => d.appendLine "message" line) d

/-- Lines below what a report says. -/
theorem Draft.below_set (d : Draft) (message : Text) (lines : List Text) :
    Draft.below (d.set "message" message) lines =
      d.set "message" (Text.joinWith ['\n'] (message :: lines)) := by
  induction lines generalizing message with
  | nil => rfl
  | cons line lines ih =>
    have hone : Draft.appendLine (d.set "message" message) "message" line =
        d.set "message" (message ++ ['\n'] ++ line) := by
      rw [appendLine, Keyed.get?_set_self, List.append_assoc]
      exact Keyed.set_set ..
    rw [← Text.joinWith_append_cons, ← ih, ← hone]
    rfl

namespace Grammar

open Pattern

variable {g before after : Grammar} {rule : Rule} {state : String} {states : List String} {t : Text}
  {P : Draft → Prop} {line : Line} {lines more : List Line} {d : Draft} {kind : Kind} {collected : List String}

/-! ## Which rule reads a line -/

/-- **A text that opens no report.** -/
def Plain (g : Grammar) (t : Text) : Prop :=
  ∀ rule ∈ g, rule.report?.isSome = true → (rule.read? t).isNone = true

instance (g : Grammar) (t : Text) : Decidable (g.Plain t) :=
  inferInstanceAs (Decidable (∀ rule ∈ g, _ → (Rule.read? rule t).isNone = true))

/-- A rule that is not for a state, or does not read a line at all, does not read the line in the state. -/
theorem readIn?_eq_none (h : rule.applies state = false ∨ (rule.read? t).isNone = true) :
    rule.readIn? state t = none := by
  unfold Rule.readIn?
  split
  · rename_i happlies
    exact Option.isNone_iff_eq_none.1 (h.resolve_left (Bool.eq_false_iff.1 · happlies))
  · rfl

/-- **The first rule that reads a line is selected.** -/
theorem select_of_reads (before : Grammar) {reading : Reading} (happlies : rule.applies state = true)
    (hread : rule.read? t = some reading)
    (hbefore : ∀ r ∈ before, r.applies state = false ∨ (r.read? t).isNone = true) :
    select (before ++ rule :: after) state t = some ⟨before.length, rule, reading⟩ := by
  refine select_eq_some_iff.2 ⟨before, after, rfl, rfl, ?_, fun r hr => readIn?_eq_none (hbefore r hr)⟩
  rw [Rule.readIn?, if_pos happlies, hread]

/-- A rule reads what its first pattern reads. -/
theorem read?_of_first {pieces : List Pattern} {others : List Pattern}
    (hrule : rule.patterns = Grammar.line pieces :: others) {c : Cursor}
    (h : (all (pieces ++ [atEnd])).First ⟨none, t, []⟩ c) :
    rule.read? t = some ⟨Grammar.line pieces, t, c⟩ := by
  rw [Rule.read?, hrule, List.findSome?_cons, find?_of_first h]
  rfl

theorem read?_isNone (h : ∀ p ∈ rule.patterns, p.find? t = none) : (rule.read? t).isNone = true := by
  rw [Option.isNone_iff_eq_none, Rule.read?, List.findSome?_eq_none_iff]
  intro p hp
  rw [h p hp]
  rfl

/-- What the toolchain tells of its work begins with one of four letters. -/
theorem narration_isNone (h : ∀ x ∈ ['C', 'D', 'E', 'W'], t.head? ≠ some x) :
    (narration.read? t).isNone = true := by
  refine read?_isNone fun p hp => ?_
  rw [List.mem_singleton.1 hp]
  refine find?_eq_none (results_seq_of_nil ?_ _)
  have hword : ∀ (y : Char) (text : Text), y ∈ ['C', 'D', 'E', 'W'] →
      (literal (y :: text)).results ⟨none, t, []⟩ = [] :=
    fun y text hy => results_literal_of_ne y text (h y hy)
  have hcheck : (lit "Check").results ⟨none, t, []⟩ = [] := hword 'C' "heck".toList (by decide)
  have hdownload : (lit "Download").results ⟨none, t, []⟩ = [] := hword 'D' "ownload".toList (by decide)
  have hcompile : (lit "Compile").results ⟨none, t, []⟩ = [] := hword 'C' "ompile".toList (by decide)
  have hemit : (lit "Emit").results ⟨none, t, []⟩ = [] := hword 'E' "mit".toList (by decide)
  have hwarning : (lit "Warning").results ⟨none, t, []⟩ = [] := hword 'W' "arning".toList (by decide)
  simp only [anyOf, results, hcheck, hdownload, hcompile, hemit, hwarning, List.nil_append]

/-! ## Lines of the body -/

/-- Any line is read as one of the body. -/
theorem read?_body (states : List String) (h : '\n' ∉ t) :
    ∃ reading, (body states).read? t = some reading ∧ reading.captured = [] := by
  have hfirst : (all ([anything] ++ [atEnd])).First ⟨none, t, []⟩ ⟨behind none t, [], []⟩ :=
    (first_anything h).seq (first_atEnd rfl)
  exact ⟨_, read?_of_first rfl hfirst, rfl⟩

/-- **How a line is read in a state**: what becomes of it, what is captured, and the state after it. -/
def Reads (g : Grammar) (state : String) (t : Text) (effect : Effect) (captured : List (String × Text))
    (after : String) : Prop :=
  ∃ s, g.select state t = some s ∧ s.rule.effect = effect ∧ s.reading.captured = captured ∧
    s.rule.stateAfter state = after

/-- How a line is read can be computed. -/
theorem reads_of_select {effect : Effect} {captured : List (String × Text)} {after : String}
    (h : (g.select state t).map (fun s => (s.rule.effect, s.reading.captured, s.rule.stateAfter state)) =
      some (effect, captured, after)) : g.Reads state t effect captured after := by
  obtain ⟨s, hs, hparts⟩ := Option.map_eq_some_iff.1 h
  simp only [Prod.mk.injEq] at hparts
  exact ⟨s, hs, hparts⟩

/-- **A line is read as the first rule reads it that can.** -/
theorem reads_of_first (before : Grammar) {reading : Reading} {captured : List (String × Text)} {next : String}
    (hg : g = before ++ rule :: after) (happlies : rule.applies state = true) (hread : rule.read? t = some reading)
    (hbefore : ∀ r ∈ before, r.applies state = false ∨ (r.read? t).isNone = true)
    (hcaptured : reading.captured = captured) (hnext : rule.stateAfter state = next) :
    g.Reads state t rule.effect captured next := by
  rw [hg]
  exact ⟨_, select_of_reads before happlies hread hbefore, rfl, hcaptured, hnext⟩

/-- A line is read as one of the body. -/
def IsBody (g : Grammar) (state : String) (t : Text) : Prop :=
  ∃ s, g.select state t = some s ∧ s.rule.effect = .extends [] ∧ s.reading.captured = [] ∧
    s.rule.stateAfter state = state

/-- **A line that no rule before reads is one of the body.** -/
theorem isBody_of_plain (before : Grammar) (hg : g = before ++ body states :: after) (happlies : states.contains state = true)
    (hplain : g.Plain t) (hline : '\n' ∉ t)
    (hbefore : ∀ r ∈ before, r.report?.isSome = true ∨ r.applies state = false ∨ (r.read? t).isNone = true) :
    g.IsBody state t := by
  obtain ⟨reading, hread, hcaptured⟩ := read?_body states hline
  have hbody : (body states).applies state = true := by
    rw [Rule.applies, Bool.or_eq_true]
    exact .inr happlies
  refine ⟨⟨before.length, body states, reading⟩, ?_, rfl, hcaptured, rfl⟩
  rw [hg]
  refine select_of_reads before hbody hread fun r hr => ?_
  rcases hbefore r hr with hopens | hnot
  · refine .inr (hplain r ?_ hopens)
    rw [hg]
    exact List.mem_append_left _ hr
  · exact hnot

/-- **A finished line that opens a report**: what was held is delivered, and its report is held. -/
theorem feed_of_reads (r : Reader) {captured : List (String × Text)} {next : String} (hfinal : line.final = true)
    (hreads : r.grammar.Reads r.state line.said (.opens kind) captured next) :
    r.feed line = (r.deliver ++ [.flush (.opened captured kind line.said) false],
      { r with state := next, pending := some ⟨.opened captured kind line.said, true⟩ }) := by
  obtain ⟨s, hs, he, rfl, hnext⟩ := hreads
  have hrole : r.role line = .opening kind := Reader.role_eq_opening_iff.2 ⟨_, hs, he⟩
  have hbegun : r.begun line = .opened s.reading.captured kind line.said := by
    simp only [Reader.begun, hs, he]
  have hstate : r.stateAfter line = next := by
    rw [Reader.stateAfter_of_select hfinal hs, hnext]
  rw [Reader.feed_of_opening hrole, hbegun, hstate, hfinal]

/-! ## What lines tell -/

/-- **Lines that tell one report to a reader in a state**: what was held is delivered, the report is held
instead, and on the way it is shown as far as it has come. -/
def TellsFrom (g : Grammar) (P : Draft → Prop) (state : String) (lines : List Line) (d : Draft)
    (after : String) : Prop :=
  ∀ r : Reader, r.grammar = g → r.state = state → ∃ shown : List Draft, (∀ e ∈ shown, P e) ∧
    r.feedAll lines =
      (r.deliver ++ shown.map (.flush · false), { r with state := after, pending := some ⟨d, true⟩ })

section From

variable {start : String} {captured : List (String × Text)} {next : String}

/-- **A line that opens a report tells it.** -/
theorem tellsFrom_of_opens (hfinal : line.final = true)
    (hreads : g.Reads start line.said (.opens kind) captured next)
    (hP : P (.opened captured kind line.said)) :
    g.TellsFrom P start [line] (.opened captured kind line.said) next := by
  rintro r hr rfl
  refine ⟨[.opened captured kind line.said], fun e he => List.mem_singleton.1 he ▸ hP, ?_⟩
  rw [Reader.feedAll_cons, feed_of_reads r hfinal (hr ▸ hreads)]
  simp [Reader.feedAll]

/-- **One more line of a report.** -/
theorem TellsFrom.extend (h : g.TellsFrom P start lines d state) (hfinal : line.final = true)
    (hreads : g.Reads state line.said (.extends collected) captured next)
    (hP : P (d.extended collected captured line.said)) :
    g.TellsFrom P start (lines ++ [line]) (d.extended collected captured line.said) next := by
  intro r hr hstart
  obtain ⟨s, hs, he, rfl, hnext⟩ := hreads
  obtain ⟨shown, hshown, hfeed⟩ := h r hr hstart
  let held : Reader := { r with state, pending := some ⟨d, true⟩ }
  have hs : held.grammar.select held.state line.said = some s := hr ▸ hs
  have hrole : held.role line = .extending := Reader.role_eq_extending_iff.2 ⟨s, collected, _, hs, he, rfl⟩
  have hgrown : held.grown line d = d.extended collected s.reading.captured line.said := by
    simp only [Reader.grown, hs, he, hfinal, if_true]
  obtain ⟨p, hp, hline⟩ := Reader.feed_of_extending hrole
  obtain rfl := Option.some.inj hp
  rw [hgrown, Reader.stateAfter_of_select hfinal hs, hnext] at hline
  refine ⟨shown ++ [d.extended collected s.reading.captured line.said], ?_, ?_⟩
  · intro e hmem
    rcases List.mem_append.1 hmem with hmem | hmem
    · exact hshown e hmem
    · exact List.mem_singleton.1 hmem ▸ hP
  · rw [Reader.feedAll_append, hfeed, Reader.feedAll_cons]
    show (_, (held.feed line).2) = _
    rw [hline]
    simp [Reader.feedAll, held]

/-- A line that is ignored tells nothing. -/
theorem TellsFrom.ignore (h : g.TellsFrom P start lines d state)
    (hreads : g.Reads state line.said .ignored captured state) :
    g.TellsFrom P start (lines ++ [line]) d state := by
  intro r hr hstart
  obtain ⟨s, hs, he, -, -⟩ := hreads
  obtain ⟨shown, hshown, hfeed⟩ := h r hr hstart
  have hrole : ({ r with state, pending := some ⟨d, true⟩ } : Reader).role line = .ignored :=
    Reader.role_eq_ignored_iff.2 ⟨s, hr ▸ hs, he⟩
  refine ⟨shown, hshown, ?_⟩
  rw [Reader.feedAll_append, hfeed, Reader.feedAll_cons, Reader.feed_of_ignored hrole]
  simp [Reader.feedAll]

/-- **Lines of the body go below what the report says.** -/
theorem TellsFrom.body (h : g.TellsFrom P start lines d state)
    (hmore : ∀ l ∈ more, l.final = true ∧ g.IsBody state l.said)
    (hP : ∀ front, front <+: more.map Line.said → P (d.below front)) :
    g.TellsFrom P start (lines ++ more) (d.below (more.map Line.said)) state := by
  induction more generalizing lines d with
  | nil => simpa [Draft.below] using h
  | cons l more ih =>
    obtain ⟨⟨hfinal, hbody⟩, hrest⟩ := List.forall_mem_cons.1 hmore
    have hone : g.TellsFrom P start (lines ++ [l]) (d.below [l.said]) state :=
      h.extend hfinal hbody (hP [l.said] (by simp))
    have hall := ih hone hrest fun front hfront => hP (l.said :: front)
      (by rw [List.map_cons]; exact List.cons_prefix_cons.2 ⟨rfl, hfront⟩)
    rwa [List.append_assoc, List.singleton_append] at hall

end From

/-- **Lines that tell one report**, whatever was read before them: what was held is delivered, the report is
held instead, and on the way it is shown as far as it has come. -/
def Tells (g : Grammar) (P : Draft → Prop) (lines : List Line) (d : Draft) (state : String) : Prop :=
  ∀ r : Reader, r.grammar = g → ∃ shown : List Draft, (∀ e ∈ shown, P e) ∧
    r.feedAll lines = (r.deliver ++ shown.map (.flush · false), { r with state, pending := some ⟨d, true⟩ })

theorem tells_iff : g.Tells P lines d state ↔ ∀ start, g.TellsFrom P start lines d state :=
  ⟨fun h _ r hr _ => h r hr, fun h r hr => h r.state r hr rfl⟩

/-- **A line that opens a report in every state tells it.** -/
theorem tells_of_opens {reading : Reading} (hfinal : line.final = true)
    (hselect : ∀ state, ∃ index, g.select state line.said = some ⟨index, rule, reading⟩)
    (he : rule.effect = .opens kind) (hP : P (.opened reading.captured kind line.said)) :
    g.Tells P [line] (.opened reading.captured kind line.said) (rule.next.getD kind.name) := by
  refine tells_iff.2 fun start => tellsFrom_of_opens hfinal ?_ hP
  obtain ⟨index, hs⟩ := hselect start
  exact ⟨_, hs, he, rfl, Rule.stateAfter_of_opens he start⟩

theorem Tells.extend (h : g.Tells P lines d state) (hfinal : line.final = true) {s : Selection}
    (hs : g.select state line.said = some s) (he : s.rule.effect = .extends collected)
    (hP : P (d.extended collected s.reading.captured line.said)) :
    g.Tells P (lines ++ [line]) (d.extended collected s.reading.captured line.said)
      (s.rule.stateAfter state) :=
  tells_iff.2 fun start => (tells_iff.1 h start).extend hfinal ⟨s, hs, he, rfl, rfl⟩ hP

theorem Tells.body (h : g.Tells P lines d state)
    (hmore : ∀ l ∈ more, l.final = true ∧ g.IsBody state l.said)
    (hP : ∀ front, front <+: more.map Line.said → P (d.below front)) :
    g.Tells P (lines ++ more) (d.below (more.map Line.said)) state :=
  tells_iff.2 fun start => (tells_iff.1 h start).body hmore hP

/-- **Lines that tell one report and its place**: one that opens the report, lines of the body, the one with
the place, and lines of the body again. -/
theorem tells_located {header place : Text} {excerpt further : List Text} (inner outer : String) {reading : Reading}
    {s : Selection} (hfinal : ∀ l ∈ lines, l.final = true)
    (hsaid : lines.map Line.said = header :: (excerpt ++ place :: further))
    (hheader : ∀ state, ∃ index, g.select state header = some ⟨index, rule, reading⟩)
    (hopens : rule.effect = .opens kind) (hinner : rule.next.getD kind.name = inner)
    (hexcerpt : ∀ t ∈ excerpt, g.IsBody inner t) (hplace : g.select inner place = some s)
    (hextends : s.rule.effect = .extends []) (houter : s.rule.stateAfter inner = outer)
    (hfurther : ∀ t ∈ further, g.IsBody outer t)
    (hbefore : ∀ front, front <+: excerpt → P ((Draft.opened reading.captured kind header).below front))
    (hbehind : ∀ front, front <+: further →
      P ((((Draft.opened reading.captured kind header).below excerpt).extended [] s.reading.captured
        place).below front)) :
    g.Tells P lines ((((Draft.opened reading.captured kind header).below excerpt).extended []
      s.reading.captured place).below further) outer := by
  obtain ⟨first, rest, rfl, rfl, hrest⟩ := List.map_eq_cons_iff.1 hsaid
  obtain ⟨above, below, rfl, rfl, hbelow⟩ := List.map_eq_append_iff.1 hrest
  obtain ⟨second, below, rfl, rfl, rfl⟩ := List.map_eq_cons_iff.1 hbelow
  simp only [List.mem_cons, List.mem_append, or_imp, forall_and, forall_eq] at hfinal
  obtain ⟨hfirst, habove, hsecond, hbelow⟩ := hfinal
  have hopened : g.Tells P [first] (.opened reading.captured kind first.said) inner :=
    hinner ▸ tells_of_opens hfirst hheader hopens (hbefore [] (List.nil_prefix))
  have hexcerpted := hopened.body (fun l hl => ⟨habove l hl, hexcerpt _ (List.mem_map_of_mem hl)⟩) hbefore
  have hplaced := hexcerpted.extend hsecond hplace hextends (hbehind [] List.nil_prefix)
  rw [houter] at hplaced
  have hall := hplaced.body (fun l hl => ⟨hbelow l hl, hfurther _ (List.mem_map_of_mem hl)⟩) hbehind
  simpa using hall

/-! ## One report after the other -/

/-- **Lines that recount reports**: each is told from the state in which the one before it ends. -/
inductive Recounts (g : Grammar) (P : Draft → Prop) : String → List Line → List Draft → String → Prop
  | nil (state : String) : Recounts g P state [] [] state
  | cons {start middle last : String} {lines more : List Line} {d : Draft} {ds : List Draft} :
      g.TellsFrom P start lines d middle → Recounts g P middle more ds last →
        Recounts g P start (lines ++ more) (d :: ds) last

namespace Recounts

variable {start middle last : String} {ds es : List Draft}

theorem single (h : g.TellsFrom P start lines d last) : Recounts g P start lines [d] last := by
  have hcons := cons h (nil last)
  rwa [List.append_nil] at hcons

/-- One recount goes on where another ends. -/
theorem append (h : Recounts g P start lines ds middle) (hmore : Recounts g P middle more es last) :
    Recounts g P start (lines ++ more) (ds ++ es) last := by
  induction h with
  | nil => exact hmore
  | cons htell _ ih =>
    rw [List.append_assoc]
    exact cons htell (ih hmore)

/-- **What is given out while reports are recounted**: each of them as finished, and otherwise what was held
before or a report as far as it had come. -/
theorem readAll (h : Recounts g P start lines ds last) (r : Reader) (hr : r.grammar = g)
    (hstate : r.state = start) :
    (r.readAll lines).1.filterMap Outcome.settled? = r.deliver.filterMap Outcome.settled? ++ ds ∧
      ∀ o ∈ (r.readAll lines).1,
        o ∈ r.deliver ∨ (∃ d ∈ ds, o = .flush d true) ∨ ∃ d, P d ∧ o = .flush d false := by
  induction h generalizing r with
  | nil state => exact ⟨by rw [List.append_nil]; rfl, fun o ho => .inl ho⟩
  | @cons start middle last lines more d ds htells _ ih =>
    obtain ⟨shown, hshown, hfeed⟩ := htells r hr hstate
    obtain ⟨hsettled, hall⟩ := ih { r with state := middle, pending := some ⟨d, true⟩ } hr rfl
    have houtcomes : (r.readAll (lines ++ more)).1 = r.deliver ++ shown.map (.flush · false) ++
        (Reader.readAll { r with state := middle, pending := some ⟨d, true⟩ } more).1 := by
      simp only [Reader.readAll, Reader.feedAll_append, hfeed, List.append_assoc]
    have hnone : (shown.map (Outcome.flush · false)).filterMap Outcome.settled? = [] := by
      rw [List.filterMap_map, List.filterMap_eq_nil_iff]
      exact fun _ _ => rfl
    constructor
    · rw [houtcomes, List.filterMap_append, List.filterMap_append, hnone, List.append_nil, hsettled]
      rfl
    · intro o ho
      rw [houtcomes, List.mem_append, List.mem_append, List.mem_map] at ho
      rcases ho with (ho | ⟨e, he, rfl⟩) | ho
      · exact .inl ho
      · exact .inr (.inr ⟨e, hshown e he, rfl⟩)
      · rcases hall o ho with ho | ⟨e, he, rfl⟩ | hpart
        · exact .inr (.inl ⟨d, List.mem_cons_self, List.mem_singleton.1 ho⟩)
        · exact .inr (.inl ⟨e, List.mem_cons_of_mem _ he, rfl⟩)
        · exact .inr (.inr hpart)

/-- A line that is ignored tells nothing. -/
theorem ignore (h : Recounts g P start lines ds last) (hne : ds ≠ []) {captured : List (String × Text)}
    (hreads : g.Reads last line.said .ignored captured last) : Recounts g P start (lines ++ [line]) ds last := by
  induction h with
  | nil => exact absurd rfl hne
  | @cons start middle last lines more d ds htells hmore ih =>
    cases ds with
    | nil =>
      cases hmore
      rw [List.append_nil]
      exact single (htells.ignore hreads)
    | cons e ds =>
      rw [List.append_assoc]
      exact cons htells (ih (List.cons_ne_nil e ds) hreads)

end Recounts

/-- **Texts that recount reports** as the finished lines of an output. -/
def Recites (g : Grammar) (start : String) (texts : List Text) (ds : List Draft) (last : String) : Prop :=
  ∀ lines : List Line, (∀ l ∈ lines, l.final = true) → lines.map Line.said = texts →
    g.Recounts (fun _ => True) start lines ds last

section Texts

variable {start middle last : String} {texts further : List Text} {ds es : List Draft}
  {captured : List (String × Text)}

theorem recites_nil (g : Grammar) (state : String) : g.Recites state [] [] state := by
  intro lines _ hsaid
  rw [List.map_eq_nil_iff.1 hsaid]
  exact .nil state

/-- One recital goes on where another ends. -/
theorem Recites.append (h : g.Recites start texts ds middle) (hfurther : g.Recites middle further es last) :
    g.Recites start (texts ++ further) (ds ++ es) last := by
  intro lines hfinal hsaid
  obtain ⟨above, below, rfl, habove, hbelow⟩ := List.map_eq_append_iff.1 hsaid
  obtain ⟨hfirst, hrest⟩ := List.forall_mem_append.1 hfinal
  exact (h above hfirst habove).append (hfurther below hrest hbelow)

/-- A line that opens a report, and lines of its body. -/
theorem recites_below (hreads : g.Reads start t (.opens kind) captured last)
    (hbody : ∀ t ∈ texts, g.IsBody last t) :
    g.Recites start (t :: texts) [(Draft.opened captured kind t).below texts] last := by
  intro lines hfinal hsaid
  obtain ⟨line, lines, rfl, rfl, rfl⟩ := List.map_eq_cons_iff.1 hsaid
  obtain ⟨hfirst, hrest⟩ := List.forall_mem_cons.1 hfinal
  have hopened : g.TellsFrom (fun _ => True) start [line] _ last := tellsFrom_of_opens hfirst hreads trivial
  exact .single (hopened.body (fun l hl => ⟨hrest l hl, hbody _ (List.mem_map_of_mem hl)⟩) fun _ _ => trivial)

/-- A line that opens a report. -/
theorem recites_opened (hreads : g.Reads start t (.opens kind) captured last) :
    g.Recites start [t] [.opened captured kind t] last :=
  recites_below hreads (List.forall_mem_nil _)

/-- A line that is ignored tells nothing. -/
theorem Recites.ignore (h : g.Recites start texts ds last) (hne : ds ≠ [])
    (hreads : g.Reads last t .ignored captured last) : g.Recites start (texts ++ [t]) ds last := by
  intro lines hfinal hsaid
  obtain ⟨above, below, rfl, habove, hbelow⟩ := List.map_eq_append_iff.1 hsaid
  obtain ⟨line, rfl, rfl⟩ := List.map_eq_singleton_iff.1 hbelow
  exact (h above (List.forall_mem_append.1 hfinal).1 habove).ignore hne hreads

end Texts

/-- Lines that tell reports in whatever state recount them. -/
theorem recounts_of_tells {blocks : List (List Line)} {drafts : List Draft}
    (h : List.Forall₂ (fun lines d => ∃ state, g.Tells P lines d state) blocks drafts) (start : String) :
    ∃ last, Recounts g P start blocks.flatten drafts last := by
  induction h generalizing start with
  | nil => exact ⟨start, .nil start⟩
  | cons hblock _ ih =>
    obtain ⟨state, htells⟩ := hblock
    obtain ⟨last, hrest⟩ := ih state
    exact ⟨last, .cons (tells_iff.1 htells start) hrest⟩

/-- What is given out while reports are told: each of them as finished, and otherwise what was held before or a
report as far as it had come. -/
theorem readAll_of_tells {blocks : List (List Line)} {drafts : List Draft}
    (h : List.Forall₂ (fun lines d => ∃ state, g.Tells P lines d state) blocks drafts) (r : Reader)
    (hr : r.grammar = g) :
    (r.readAll blocks.flatten).1.filterMap Outcome.settled? =
        r.deliver.filterMap Outcome.settled? ++ drafts ∧
      ∀ o ∈ (r.readAll blocks.flatten).1,
        o ∈ r.deliver ∨ (∃ d ∈ drafts, o = .flush d true) ∨ ∃ d, P d ∧ o = .flush d false := by
  obtain ⟨last, hrecounts⟩ := recounts_of_tells h r.state
  exact hrecounts.readAll r hr rfl

section Printed

variable {α : Type} {ds : List α} {texts : α → List Text} {draft : α → Draft}

/-- Lines that say what is printed of reports, one below the other, fall into parts that tell one each. -/
theorem exists_parts (hfinal : ∀ l ∈ lines, l.final = true) (hsaid : lines.map Line.said = ds.flatMap texts)
    (htells : ∀ d ∈ ds, ∀ part : List Line, (∀ l ∈ part, l.final = true) → part.map Line.said = texts d →
      ∃ state, g.Tells P part (draft d) state) :
    ∃ parts, lines = parts.flatten ∧
      List.Forall₂ (fun part d => ∃ state, g.Tells P part d state) parts (ds.map draft) := by
  induction ds generalizing lines with
  | nil => exact ⟨[], List.map_eq_nil_iff.1 hsaid, .nil⟩
  | cons d ds ih =>
    rw [List.flatMap_cons] at hsaid
    obtain ⟨part, rest, rfl, hpart, hrest⟩ := List.map_eq_append_iff.1 hsaid
    obtain ⟨hfirst, hfinal⟩ := List.forall_mem_append.1 hfinal
    obtain ⟨htell, htells⟩ := List.forall_mem_cons.1 htells
    obtain ⟨parts, rfl, hparts⟩ := ih hfinal hrest htells
    exact ⟨part :: parts, rfl, .cons (htell part hfirst hpart) hparts⟩

/-- **What is printed of reports, one below the other, is read as these reports.** -/
theorem readAll_of_printed (hfinal : ∀ l ∈ lines, l.final = true)
    (hsaid : lines.map Line.said = ds.flatMap texts)
    (htells : ∀ d ∈ ds, ∀ part : List Line, (∀ l ∈ part, l.final = true) → part.map Line.said = texts d →
      ∃ state, g.Tells P part (draft d) state) :
    let r : Reader := { grammar := g }
    (r.readAll lines).1.filterMap Outcome.settled? = ds.map draft ∧
      ∀ o ∈ (r.readAll lines).1, (∃ d ∈ ds, o = .flush (draft d) true) ∨ ∃ d, P d ∧ o = .flush d false := by
  intro r
  obtain ⟨parts, rfl, hparts⟩ := exists_parts hfinal hsaid htells
  obtain ⟨hsettled, hall⟩ := readAll_of_tells hparts r rfl
  refine ⟨hsettled, fun o ho => ?_⟩
  rcases hall o ho with ho | ⟨e, he, rfl⟩ | hpart
  · cases ho
  · obtain ⟨d, hd, rfl⟩ := List.mem_map.1 he
    exact .inl ⟨d, hd, rfl⟩
  · exact .inr hpart

end Printed

end Grammar

end Fenceline
