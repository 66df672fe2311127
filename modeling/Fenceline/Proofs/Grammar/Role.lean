import Fenceline.Grammar.Deno
import Fenceline.Grammar.Reader

/-!
# What becomes of a line

To a reader in some state a line is one of four things: nothing at all, the beginning of a report, a part
of the report that is held, or a line that no rule accounts for. `Reader.role` says which; each role
has one equation for the whole step (`feed_of_ignored`, `feed_of_opening`, `feed_of_extending`,
`feed_of_rejected`), and what later modules say of a run follows from these four.

A grammar **spares** a name when no rule that extends a report reads a part of a line under it, and the
**head** of a report when it spares `kind` and `message`. A report keeps its kind under a grammar that
spares it; and what the report says only grows under one that spares the head: by a line of its own for each
finished line that extends it (`Draft.get?_extended_message`), by nothing for a part of a line
(`Draft.get?_absorb`).
-/

namespace Fenceline

/-- What a line is to a reader. -/
inductive Role where
  | ignored
  | opening (kind : Kind)
  | extending
  | rejected
  deriving DecidableEq, Repr

/-- The kind of the report that a line in this role opens. -/
def Role.kind? : Role → Option Kind
  | .opening kind => some kind
  | _ => none

/-- What a line says, escape sequences left out. -/
def Line.said (line : Line) : Text :=
  Text.stripEscapes line.text

/-! ## Grammars that leave the head of a report alone -/

/-- No rule of the grammar that extends a report reads a part of a line under a name. -/
def Grammar.Spares (g : Grammar) (name : String) : Prop :=
  ∀ r ∈ g, r.effect ≠ .ignored → r.report? = none → ∀ p ∈ r.patterns, name ∉ p.names

instance (g : Grammar) (name : String) : Decidable (g.Spares name) :=
  inferInstanceAs (Decidable (∀ r ∈ g, _ → _ → ∀ p ∈ Rule.patterns r, name ∉ p.names))

/-- No part that an extending rule names is the kind or the message of a report. -/
def Rule.SparesHead (r : Rule) : Prop :=
  r.effect ≠ .ignored → r.report? = none → ∀ p ∈ r.patterns, "kind" ∉ p.names ∧ "message" ∉ p.names

instance (r : Rule) : Decidable r.SparesHead :=
  inferInstanceAs (Decidable (_ → _ → ∀ p ∈ r.patterns, "kind" ∉ p.names ∧ "message" ∉ p.names))

/-- No rule of the grammar touches the head of a report that it extends. -/
def Grammar.SparesHead (g : Grammar) : Prop :=
  ∀ r ∈ g, r.SparesHead

instance (g : Grammar) : Decidable g.SparesHead :=
  inferInstanceAs (Decidable (∀ r ∈ g, Rule.SparesHead r))

theorem Grammar.SparesHead.spares_kind {g : Grammar} (h : g.SparesHead) : g.Spares "kind" :=
  fun r hr heffect hreport p hp => (h r hr heffect hreport p hp).1

theorem Grammar.SparesHead.spares_message {g : Grammar} (h : g.SparesHead) : g.Spares "message" :=
  fun r hr heffect hreport p hp => (h r hr heffect hreport p hp).2

/-- The grammars of the commands. -/
def Grammar.shipped : List Grammar :=
  [Grammar.check, Grammar.fmt, Grammar.lint, Grammar.doc, Grammar.test, Grammar.compile]

/-- The grammar of every command spares the head of a report. -/
theorem Grammar.sparesHead_of_mem_shipped : ∀ g ∈ Grammar.shipped, g.SparesHead := by
  decide

/-- What was read of a line is under names of the pattern that read it. -/
theorem Reading.mem_names_of_mem_captured {r : Reading} {name : String}
    (h : name ∈ r.captured.map (·.1)) : name ∈ r.pattern.names := by
  obtain ⟨⟨key, value⟩, hmem, rfl⟩ := List.mem_map.1 h
  obtain ⟨⟨given, text⟩, hgroup, hkept⟩ := List.mem_filterMap.1 hmem
  obtain ⟨written, hnames, hpair⟩ := List.mem_map.1 hgroup
  obtain ⟨_, _, hkey⟩ := Option.map_eq_some_iff.1 hkept
  rw [← (Prod.mk.inj hkey).1, ← (Prod.mk.inj hpair).1]
  exact hnames

/-- The pattern of a reading is one of the rule's. -/
theorem Rule.pattern_mem_of_readIn? {rule : Rule} {state : String} {line : Text} {reading : Reading}
    (h : rule.readIn? state line = some reading) : reading.pattern ∈ rule.patterns := by
  unfold Rule.readIn? at h
  split at h
  · obtain ⟨p, hp, hread⟩ := List.exists_of_findSome?_eq_some h
    obtain ⟨m, _, rfl⟩ := Option.map_eq_some_iff.1 hread
    exact hp
  · cases h

/-- What an extending rule of such a grammar reads is not under the name that is spared. -/
theorem Grammar.Spares.not_mem_captured {g : Grammar} {name : String} (hg : g.Spares name)
    {state : String} {line : Text} {s : Selection} (hs : g.select state line = some s)
    {collected : List String} (he : s.rule.effect = .extends collected) :
    name ∉ s.reading.captured.map (·.1) := by
  obtain ⟨before, after, hmem, _, hread, _⟩ := Grammar.select_eq_some_iff.1 hs
  have hrule : s.rule ∈ g := by rw [hmem]; exact List.mem_append_right _ List.mem_cons_self
  have hnames := hg _ hrule (by simp [he]) (by simp [Rule.report?, he]) _
    (Rule.pattern_mem_of_readIn? hread)
  exact fun h => hnames (Reading.mem_names_of_mem_captured h)

/-! ## The head of a draft -/

namespace Draft

theorem get?_setAll_of_not_mem {fields : List (String × Text)} {name : String}
    (h : name ∉ fields.map (·.1)) (d : Draft) : (d.setAll fields).get? name = d.get? name := by
  induction fields generalizing d with
  | nil => rfl
  | cons f fields ih =>
    simp only [List.map_cons, List.mem_cons, not_or] at h
    exact (ih h.2 _).trans (Keyed.get?_set_of_ne d f.2 h.1)

@[simp] theorem get?_opened_message (captured : List (String × Text)) (kind : Kind) (line : Text) :
    (opened captured kind line).get? "message" = some line :=
  Keyed.get?_set_self _ _ _

@[simp] theorem get?_opened_kind (captured : List (String × Text)) (kind : Kind) (line : Text) :
    (opened captured kind line).get? "kind" = some kind.name.toList :=
  (Keyed.get?_set_of_ne _ _ (by decide)).trans (Keyed.get?_set_self _ _ _)

/-- A part of a line changes nothing but what it names. -/
theorem get?_absorb {captured : List (String × Text)} {name : String}
    (h : name ∉ captured.map (·.1)) (d : Draft) (collected : List String) :
    (d.absorb collected captured).get? name = d.get? name := by
  refine get?_setAll_of_not_mem (fun hmem => h ?_) d
  obtain ⟨f, hf, rfl⟩ := List.mem_map.1 hmem
  exact List.mem_map_of_mem (List.mem_filter.1 hf).1

theorem get?_appendLine_of_ne {name other : String} (h : other ≠ name) (d : Draft) (value : Text) :
    (d.appendLine name value).get? other = d.get? other := by
  unfold appendLine
  split <;> exact Keyed.get?_set_of_ne _ _ h

theorem get?_appendLine_self {d : Draft} {name : String} {text : Text} (h : d.get? name = some text)
    (value : Text) : (d.appendLine name value).get? name = some (text ++ '\n' :: value) := by
  simp [appendLine, h]

/-- A finished line changes nothing but what it names and the message. -/
theorem get?_extended {captured : List (String × Text)} {name : String}
    (h : name ∉ captured.map (·.1)) (d : Draft) (collected : List String) (line : Text) :
    (d.extended collected captured line).get? name =
      ((d.absorb collected captured).appendLine "message" line).get? name := by
  unfold extended
  generalize (d.absorb collected captured).appendLine "message" line = e
  induction collected generalizing e with
  | nil => rfl
  | cons n names ih =>
    rw [List.foldl_cons, ih]
    split
    · rename_i value hvalue
      have hn : name ≠ n := by
        rintro rfl
        obtain ⟨before, after, heq, _⟩ := List.lookup_eq_some_iff.1 hvalue
        exact h (by simp [heq])
      exact get?_appendLine_of_ne hn _ _
    · rfl

/-- **A finished line puts a line of its own below what the report says.** -/
theorem get?_extended_message {captured : List (String × Text)} (h : "message" ∉ captured.map (·.1))
    {d : Draft} {text : Text} (hd : d.get? "message" = some text) (collected : List String)
    (line : Text) :
    (d.extended collected captured line).get? "message" = some (text ++ '\n' :: line) := by
  rw [get?_extended h]
  exact get?_appendLine_self ((get?_absorb h d collected).trans hd) line

/-- The kind of a report stays what it was. -/
theorem get?_extended_kind {captured : List (String × Text)} (h : "kind" ∉ captured.map (·.1))
    (d : Draft) (collected : List String) (line : Text) :
    (d.extended collected captured line).get? "kind" = d.get? "kind" := by
  rw [get?_extended h, get?_appendLine_of_ne (by decide), get?_absorb h]

theorem has_set {d : Draft} {name : String} (h : d.has name = true) (other : String) (value : Text) :
    Draft.has (d.set other value) name = true := by
  by_cases hname : name = other
  · subst hname
    simp [has]
  · rwa [has, Keyed.get?_set_of_ne _ _ hname]

theorem has_setAll {d : Draft} {name : String} (h : d.has name = true) (fields : List (String × Text)) :
    (d.setAll fields).has name = true := by
  induction fields generalizing d with
  | nil => exact h
  | cons f fields ih => exact ih (has_set h _ _)

theorem has_appendLine {d : Draft} {name : String} (h : d.has name = true) (other : String)
    (value : Text) : (d.appendLine other value).has name = true := by
  unfold appendLine
  split <;> exact has_set h _ _

/-- No line takes a part of a draft away. -/
theorem has_extended {d : Draft} {name : String} (h : d.has name = true) (collected : List String)
    (captured : List (String × Text)) (line : Text) :
    (d.extended collected captured line).has name = true := by
  have hstart := has_appendLine (has_setAll h (captured.filter (!collected.contains ·.1))) "message" line
  unfold extended absorb
  generalize Draft.appendLine _ "message" line = e at hstart
  induction collected generalizing e with
  | nil => exact hstart
  | cons n names ih =>
    rw [List.foldl_cons]
    split
    · exact ih _ (has_appendLine hstart _ _)
    · exact ih _ hstart

end Draft

/-! ## One step of a reader -/

/-- A draft as far as it has come, given out as finished. -/
def Outcome.settled? : Outcome → Option Draft
  | .flush draft true => some draft
  | _ => none

/-- A draft as far as it has come, given out to be seen. -/
def Outcome.shown? : Outcome → Option Draft
  | .flush draft false => some draft
  | _ => none

/-- A line that no rule accounts for. -/
def Outcome.unrecognized? : Outcome → Option Text
  | .unrecognized line => some line
  | _ => none

namespace Reader

/-- What a line is to the reader: by the first rule that reads it in the state that the reader is in, and
by whether a report is held. -/
def role (r : Reader) (line : Line) : Role :=
  match r.grammar.select r.state line.said with
  | none => .rejected
  | some s =>
    match s.rule.effect with
    | .ignored => .ignored
    | .opens kind => .opening kind
    | .extends _ => if r.pending.isSome then .extending else .rejected

/-- The draft that a line begins, if it opens a report. -/
def begun (r : Reader) (line : Line) : Draft :=
  match r.grammar.select r.state line.said with
  | none => []
  | some s =>
    match s.rule.effect with
    | .opens kind => .opened s.reading.captured kind line.said
    | _ => []

/-- What a line makes of the draft that is held, if it extends one. -/
def grown (r : Reader) (line : Line) (d : Draft) : Draft :=
  match r.grammar.select r.state line.said with
  | none => d
  | some s =>
    match s.rule.effect with
    | .extends collected =>
      if line.final then d.extended collected s.reading.captured line.said
      else d.absorb collected s.reading.captured
    | _ => d

/-- The state after a line that opens a report or extends one. -/
def stateAfter (r : Reader) (line : Line) : String :=
  match r.grammar.select r.state line.said with
  | none => r.state
  | some s => if line.final then s.rule.stateAfter r.state else r.state

variable {r : Reader} {line : Line}

theorem role_eq_ignored_iff : r.role line = .ignored ↔
    ∃ s, r.grammar.select r.state line.said = some s ∧ s.rule.effect = .ignored := by
  unfold role
  cases r.grammar.select r.state line.said with
  | none => simp
  | some s => cases he : s.rule.effect <;> cases hp : r.pending <;> simp [he]

theorem role_eq_opening_iff {kind : Kind} : r.role line = .opening kind ↔
    ∃ s, r.grammar.select r.state line.said = some s ∧ s.rule.effect = .opens kind := by
  unfold role
  cases r.grammar.select r.state line.said with
  | none => simp
  | some s => cases he : s.rule.effect <;> cases hp : r.pending <;> simp [he]

theorem role_eq_extending_iff : r.role line = .extending ↔
    ∃ s collected p, r.grammar.select r.state line.said = some s ∧
      s.rule.effect = .extends collected ∧ r.pending = some p := by
  unfold role
  cases r.grammar.select r.state line.said with
  | none => simp
  | some s => cases he : s.rule.effect <;> cases hp : r.pending <;> simp [he]

theorem role_eq_rejected_iff : r.role line = .rejected ↔
    r.grammar.select r.state line.said = none ∨
      ∃ s collected, r.grammar.select r.state line.said = some s ∧
        s.rule.effect = .extends collected ∧ r.pending = none := by
  unfold role
  cases r.grammar.select r.state line.said with
  | none => simp
  | some s => cases he : s.rule.effect <;> cases hp : r.pending <;> simp [he]

theorem feed_of_ignored (h : r.role line = .ignored) : r.feed line = ([], r) := by
  obtain ⟨s, hs, he⟩ := role_eq_ignored_iff.1 h
  unfold Line.said at hs
  simp only [feed, hs, he]

theorem feed_of_rejected (h : r.role line = .rejected) : r.feed line = (reject line line.said, r) := by
  rcases role_eq_rejected_iff.1 h with hs | ⟨s, collected, hs, he, hp⟩
  · unfold Line.said at hs
    simp only [feed, hs, Line.said]
  · unfold Line.said at hs
    simp only [feed, hs, he, hp, Line.said]

/-- **A line that opens a report delivers the one that was held and holds its own.** -/
theorem feed_of_opening {kind : Kind} (h : r.role line = .opening kind) :
    r.feed line = (r.deliver ++ [.flush (r.begun line) false],
      { r with state := r.stateAfter line, pending := some ⟨r.begun line, line.final⟩ }) := by
  obtain ⟨s, hs, he⟩ := role_eq_opening_iff.1 h
  unfold Line.said at hs
  simp only [feed, begun, stateAfter, Line.said, hs, he, advance]

/-- **A line that extends a report shows it as it is then.** -/
theorem feed_of_extending (h : r.role line = .extending) :
    ∃ p, r.pending = some p ∧
      r.feed line = ([.flush (r.grown line p.draft) false],
        { r with
          state := r.stateAfter line
          pending := some { p with draft := r.grown line p.draft } }) := by
  obtain ⟨s, collected, p, hs, he, hp⟩ := role_eq_extending_iff.1 h
  refine ⟨p, hp, ?_⟩
  unfold Line.said at hs
  simp only [feed, grown, stateAfter, Line.said, hs, he, hp, advance]

/-- What a line that opens a report says is all that the report says. -/
theorem get?_begun_message {kind : Kind} (h : r.role line = .opening kind) :
    (r.begun line).get? "message" = some line.said := by
  obtain ⟨s, hs, he⟩ := role_eq_opening_iff.1 h
  simp only [begun, hs, he, Draft.get?_opened_message]

theorem get?_begun_kind {kind : Kind} (h : r.role line = .opening kind) :
    (r.begun line).get? "kind" = some kind.name.toList := by
  obtain ⟨s, hs, he⟩ := role_eq_opening_iff.1 h
  simp only [begun, hs, he, Draft.get?_opened_kind]

/-- **What a report says only grows**, by a line for each finished line. -/
theorem get?_grown_message (hg : r.grammar.SparesHead) (h : r.role line = .extending) {d : Draft}
    {text : Text} (hd : d.get? "message" = some text) :
    (r.grown line d).get? "message" =
      some (if line.final then text ++ '\n' :: line.said else text) := by
  obtain ⟨s, collected, p, hs, he, _⟩ := role_eq_extending_iff.1 h
  have hfree := hg.spares_message.not_mem_captured hs he
  simp only [grown, hs, he]
  split
  · exact Draft.get?_extended_message hfree hd collected line.said
  · exact (Draft.get?_absorb hfree d collected).trans hd

/-- **A report keeps its kind.** -/
theorem get?_grown_kind (hg : r.grammar.Spares "kind") (h : r.role line = .extending) (d : Draft) :
    (r.grown line d).get? "kind" = d.get? "kind" := by
  obtain ⟨s, collected, p, hs, he, _⟩ := role_eq_extending_iff.1 h
  have hfree := hg.not_mem_captured hs he
  simp only [grown, hs, he]
  split
  · exact Draft.get?_extended_kind hfree d collected line.said
  · exact Draft.get?_absorb hfree d collected

/-- What a report has it keeps. -/
theorem has_grown {d : Draft} {name : String} (hd : d.has name = true) : (r.grown line d).has name = true := by
  unfold grown
  split
  · exact hd
  · split
    · split
      · exact Draft.has_extended hd _ _ _
      · exact Draft.has_setAll hd _
    · exact hd

/-! ## A run, line by line -/

/-- The lines of a run, each with what it is to the reader when it comes. -/
def marked (r : Reader) : List Line → List (Role × Line)
  | [] => []
  | line :: rest => (r.role line, line) :: (r.feed line).2.marked rest

/-- Every line of a run is marked once, in its place. -/
theorem marked_lines (r : Reader) (lines : List Line) : (r.marked lines).map (·.2) = lines := by
  induction lines generalizing r with
  | nil => rfl
  | cons line rest ih => simp only [marked, List.map_cons, ih]

theorem feedAll_cons (r : Reader) (line : Line) (rest : List Line) :
    r.feedAll (line :: rest) =
      ((r.feed line).1 ++ ((r.feed line).2.feedAll rest).1, ((r.feed line).2.feedAll rest).2) :=
  rfl

theorem readAll_nil (r : Reader) : (r.readAll []).1 = r.deliver := rfl

theorem readAll_cons (r : Reader) (line : Line) (rest : List Line) :
    (r.readAll (line :: rest)).1 = (r.feed line).1 ++ ((r.feed line).2.readAll rest).1 := by
  simp only [readAll, feedAll, List.append_assoc]

/-- Reading a line does not change the grammar. -/
@[simp] theorem grammar_feed (r : Reader) (line : Line) : (r.feed line).2.grammar = r.grammar := by
  cases h : r.role line with
  | ignored => rw [feed_of_ignored h]
  | opening kind => rw [feed_of_opening h]
  | extending =>
    obtain ⟨p, _, hfeed⟩ := feed_of_extending h
    rw [hfeed]
  | rejected => rw [feed_of_rejected h]

end Reader

end Fenceline
