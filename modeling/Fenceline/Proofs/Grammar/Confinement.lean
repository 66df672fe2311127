import Fenceline.Proofs.Grammar.Role

/-!
# A line extends a report of its own kind

A reader keeps its state apart from the report that it holds, and rules change the two separately. Some
states are for reports of some kinds (`Grammar.owners`), and a rule that extends a report applies in such
states only. What keeps the two together is asked of every rule of a grammar (`Rule.Confined`): a rule that
opens a report leads to a state that its kind suits, and a rule that extends one leads on to a state that
suits whatever was held before. A grammar is a list of rules, so this is decided
(`Grammar.confined_of_mem_shipped`).

**The law** (`pending_of_select_extends`): after whole lines a rule that extends a report finds one, of a kind
that all states of the rule are for; so a line is rejected only if no rule reads it, and a report that is
extended stays what it is.

**What it does not establish.** The same over parts of lines: a part of a line may open a report and leaves
the state as it is, so in between the state may be for a report that is no longer held.
-/

namespace Fenceline

/-- A draft of a report of a kind. -/
def Draft.IsOf (d : Draft) (kind : Kind) : Prop :=
  d.get? "kind" = some kind.name.toList

/-! ## States and the kinds they are for -/

namespace Grammar

/-- The kinds of report that a state is for; a state that is for none tells nothing of the report that is
held. -/
def owners : String → List Kind
  | "check" | "related" => [.check]
  | "diff" => [.diff]
  | "lint" | "lint-body" => [.lint]
  | "fatal" => [.fatal]
  | "output" => [.output]
  | "failure" => [.failure, .error]
  | _ => []

/-- A state in which a report of this kind may be held. -/
def Suits (kind : Kind) (state : String) : Prop :=
  owners state = [] ∨ kind ∈ owners state

instance (kind : Kind) (state : String) : Decidable (Suits kind state) :=
  inferInstanceAs (Decidable (_ ∨ _))

end Grammar

open Grammar

namespace Rule

/-- **A rule that keeps reports apart.** One that opens a report leads to a state that suits it. One that
extends a report applies in states that are for the same kinds, and from each leads on to a state that suits
them. -/
def Confined (r : Rule) : Prop :=
  match r.effect with
  | .ignored => True
  | .opens kind => Suits kind (r.next.getD kind.name)
  | .extends _ =>
    r.states ≠ [] ∧ ∀ state ∈ r.states, owners state ≠ [] ∧ ∀ kind ∈ owners state,
      Suits kind (r.next.getD state) ∧ ∀ other ∈ r.states, kind ∈ owners other

instance (r : Rule) : Decidable r.Confined := by
  unfold Confined
  exact match r.effect with
    | .ignored => inferInstanceAs (Decidable True)
    | .opens _ => inferInstanceAs (Decidable (Suits _ _))
    | .extends _ => inferInstanceAs (Decidable (_ ∧ _))

variable {r : Rule} {kind : Kind} {collected : List String}

theorem stateAfter_of_opens (h : r.effect = .opens kind) (state : String) :
    r.stateAfter state = r.next.getD kind.name := by
  unfold stateAfter report?
  rw [h]
  cases r.next <;> rfl

theorem stateAfter_of_extends (h : r.effect = .extends collected) (state : String) :
    r.stateAfter state = r.next.getD state := by
  unfold stateAfter report?
  rw [h]
  cases r.next <;> rfl

end Rule

namespace Grammar

/-- A grammar whose rules keep reports apart. -/
def Confined (g : Grammar) : Prop :=
  ∀ r ∈ g, r.Confined

instance (g : Grammar) : Decidable g.Confined :=
  inferInstanceAs (Decidable (∀ r ∈ g, Rule.Confined r))

/-- **The grammar of every command keeps reports apart.** -/
theorem confined_of_mem_shipped : ∀ g ∈ shipped, g.Confined := by
  decide

/-- A rule that was selected is one of the grammar's and applies in the state. -/
theorem rule_of_select {g : Grammar} {state : String} {line : Text} {s : Selection}
    (h : g.select state line = some s) : s.rule ∈ g ∧ s.rule.applies state = true := by
  obtain ⟨before, after, hg, -, hread, -⟩ := select_eq_some_iff.1 h
  constructor
  · rw [hg]
    exact List.mem_append_right _ List.mem_cons_self
  · unfold Rule.readIn? at hread
    split at hread
    · assumption
    · cases hread

/-- What a confined grammar knows of a rule that extends a report: the state is one of the rule's. -/
theorem Confined.extends {g : Grammar} (hg : g.Confined) {state : String} {line : Text} {s : Selection}
    (hs : g.select state line = some s) {collected : List String}
    (he : s.rule.effect = .extends collected) :
    state ∈ s.rule.states ∧ owners state ≠ [] ∧ ∀ kind ∈ owners state,
      Suits kind (s.rule.stateAfter state) ∧ ∀ other ∈ s.rule.states, kind ∈ owners other := by
  obtain ⟨hrule, happlies⟩ := rule_of_select hs
  have hconfined := hg s.rule hrule
  unfold Rule.Confined at hconfined
  rw [he] at hconfined
  obtain ⟨hne, hstates⟩ := hconfined
  have hstate : state ∈ s.rule.states := by
    rw [Rule.applies, Bool.or_eq_true, List.isEmpty_iff, List.contains_iff_mem] at happlies
    exact happlies.resolve_left hne
  rw [Rule.stateAfter_of_extends he]
  exact ⟨hstate, hstates state hstate⟩

/-- A rule that opens a report leads to a state that suits it. -/
theorem Confined.opens {g : Grammar} (hg : g.Confined) {state : String} {line : Text} {s : Selection}
    (hs : g.select state line = some s) {kind : Kind} (he : s.rule.effect = .opens kind) :
    Suits kind (s.rule.stateAfter state) := by
  have hconfined := hg s.rule (rule_of_select hs).1
  unfold Rule.Confined at hconfined
  rw [he] at hconfined
  rw [Rule.stateAfter_of_opens he]
  exact hconfined

end Grammar

/-! ## Readers that hold what their state is for -/

namespace Reader

variable {r : Reader} {line : Line} {g : Grammar} {lines : List Line}

/-- A report of a kind that the state is for is held. -/
def Holds (r : Reader) (kind : Kind) : Prop :=
  kind ∈ owners r.state ∧ ∃ p, r.pending = some p ∧ p.draft.IsOf kind

/-- **What holds between lines**: if the state is for some kinds, a report of one of them is held. -/
def Confined (r : Reader) : Prop :=
  owners r.state = [] ∨ ∃ kind, r.Holds kind

/-- A report suits the state that is led to. -/
theorem confined_of_suits {kind : Kind} {p : Pending} (hpending : r.pending = some p)
    (hkind : p.draft.IsOf kind) (hstate : Suits kind r.state) : r.Confined :=
  hstate.imp id fun howner => ⟨kind, howner, p, hpending, hkind⟩

theorem isOf_begun {kind : Kind} (h : r.role line = .opening kind) : (r.begun line).IsOf kind :=
  get?_begun_kind h

/-- A report that is extended stays one of its kind. -/
theorem isOf_grown (hg : r.grammar.Spares "kind") (h : r.role line = .extending) {d : Draft} {kind : Kind}
    (hd : d.IsOf kind) : (r.grown line d).IsOf kind :=
  (get?_grown_kind hg h d).trans hd

/-- **In a state that a rule extends reports in, a report is held.** -/
theorem Confined.holds (h : r.Confined) (hg : r.grammar.Confined) {s : Selection}
    (hs : r.grammar.select r.state line.said = some s) {collected : List String}
    (he : s.rule.effect = .extends collected) :
    ∃ kind, r.Holds kind ∧ r.state ∈ s.rule.states ∧ ∀ state ∈ s.rule.states, kind ∈ owners state := by
  obtain ⟨hstate, howners, hkinds⟩ := hg.extends hs he
  obtain ⟨kind, howner, hpending⟩ := h.resolve_left howners
  exact ⟨kind, ⟨howner, hpending⟩, hstate, (hkinds kind howner).2⟩

/-- A whole line leads to the state that its rule leads to. -/
theorem stateAfter_of_select (hfinal : line.final = true) {s : Selection}
    (hs : r.grammar.select r.state line.said = some s) : r.stateAfter line = s.rule.stateAfter r.state := by
  rw [stateAfter, hs]
  exact if_pos hfinal

/-- **A line extends a report of its own kind**: one that is held, and that the state is for. -/
theorem Confined.extended (h : r.Confined) (hg : r.grammar.Confined) (hrole : r.role line = .extending) :
    ∃ s collected kind p, r.grammar.select r.state line.said = some s ∧ s.rule.effect = .extends collected ∧
      r.pending = some p ∧ p.draft.IsOf kind ∧ kind ∈ owners r.state ∧
      (r.feed line).2 =
        { r with pending := some { p with draft := r.grown line p.draft }, state := r.stateAfter line } := by
  obtain ⟨s, collected, -, hs, he, -⟩ := role_eq_extending_iff.1 hrole
  obtain ⟨kind, ⟨howner, p, hpending, hkind⟩, -⟩ := h.holds hg hs he
  obtain ⟨q, hq, hfeed⟩ := feed_of_extending hrole
  obtain rfl : p = q := Option.some.inj (hpending.symm.trans hq)
  exact ⟨s, collected, kind, p, hs, he, hpending, hkind, howner, by rw [hfeed]⟩

/-- **A whole line keeps state and report together.** -/
theorem Confined.feed (h : r.Confined) (hg : r.grammar.Confined) (hspares : r.grammar.Spares "kind")
    (hfinal : line.final = true) : (r.feed line).2.Confined := by
  cases hrole : r.role line with
  | ignored =>
    rw [feed_of_ignored hrole]
    exact h
  | rejected =>
    rw [feed_of_rejected hrole]
    exact h
  | opening kind =>
    obtain ⟨s, hs, he⟩ := role_eq_opening_iff.1 hrole
    rw [feed_of_opening hrole]
    apply confined_of_suits rfl (isOf_begun hrole)
    show Suits kind (r.stateAfter line)
    rw [stateAfter_of_select hfinal hs]
    exact hg.opens hs he
  | extending =>
    obtain ⟨s, collected, kind, p, hs, he, -, hkind, howner, hfeed⟩ := h.extended hg hrole
    rw [hfeed]
    apply confined_of_suits rfl (isOf_grown hspares hrole hkind)
    show Suits kind (r.stateAfter line)
    rw [stateAfter_of_select hfinal hs]
    exact ((hg.extends hs he).2.2 kind howner).1

/-- **So do whole lines.** -/
theorem Confined.feedAll (h : r.Confined) (hg : r.grammar.Confined) (hspares : r.grammar.Spares "kind")
    (hlines : ∀ l ∈ lines, l.final = true) : (r.feedAll lines).2.Confined := by
  induction lines generalizing r with
  | nil => exact h
  | cons line lines ih =>
    obtain ⟨hline, hlines⟩ := List.forall_mem_cons.1 hlines
    rw [feedAll_cons]
    apply ih (h.feed hg hspares hline) _ _ hlines
    · rwa [grammar_feed]
    · rwa [grammar_feed]

theorem grammar_feedAll (r : Reader) (lines : List Line) :
    (r.feedAll lines).2.grammar = r.grammar := by
  induction lines generalizing r with
  | nil => rfl
  | cons line lines ih =>
    rw [feedAll_cons]
    exact (ih _).trans (grammar_feed r line)

/-- **A line extends a report of its own kind only.** After whole lines, a rule that extends a report finds
one that is held, of a kind that every state of the rule is for; a line is rejected only if no rule reads it;
and a report that a line extends is still of its kind. -/
theorem pending_of_select_extends (hg : g ∈ shipped) (hlines : ∀ l ∈ lines, l.final = true) (line : Line) :
    let r := (feedAll { grammar := g } lines).2
    (∀ s collected, g.select r.state line.said = some s → s.rule.effect = .extends collected →
      ∃ kind p, r.pending = some p ∧ p.draft.IsOf kind ∧ r.state ∈ s.rule.states ∧
        ∀ state ∈ s.rule.states, kind ∈ owners state) ∧
    (r.role line = .rejected → g.select r.state line.said = none) ∧
    (r.role line = .extending → ∃ kind p, r.pending = some p ∧ p.draft.IsOf kind ∧
      kind ∈ owners r.state ∧ (r.grown line p.draft).IsOf kind ∧
        (r.feed line).2.pending = some { p with draft := r.grown line p.draft }) := by
  intro r
  have hgrammar : r.grammar = g := grammar_feedAll _ lines
  have hconfined : r.grammar.Confined := hgrammar ▸ confined_of_mem_shipped g hg
  have hspares : r.grammar.Spares "kind" := hgrammar ▸ (sparesHead_of_mem_shipped g hg).spares_kind
  have hkept : r.Confined := by
    have hstart : Confined { grammar := g } := .inl rfl
    exact hstart.feedAll (confined_of_mem_shipped g hg) (sparesHead_of_mem_shipped g hg).spares_kind hlines
  rw [← hgrammar]
  refine ⟨fun s collected hs he => ?_, fun hrole => ?_, fun hrole => ?_⟩
  · obtain ⟨kind, ⟨-, p, hpending, hkind⟩, hstate, hstates⟩ := hkept.holds hconfined hs he
    exact ⟨kind, p, hpending, hkind, hstate, hstates⟩
  · rcases role_eq_rejected_iff.1 hrole with hnone | ⟨s, collected, hs, he, hpending⟩
    · exact hnone
    · obtain ⟨kind, ⟨-, p, hheld, -⟩, -⟩ := hkept.holds hconfined hs he
      rw [hpending] at hheld
      cases hheld
  · obtain ⟨s, collected, kind, p, -, -, hpending, hkind, howner, hfeed⟩ := hkept.extended hconfined hrole
    refine ⟨kind, p, hpending, hkind, howner, isOf_grown hspares hrole hkind, ?_⟩
    rw [hfeed]

/-- An error under the heading for errors, which the state for failures is for too. -/
theorem pending_of_select_extends_uncaught :
    let lines : List Line := [⟨.stdout, " ERRORS ".toList, true⟩,
      ⟨.stderr, "Checking".toList, true⟩, ⟨.stdout, "./a.ts (uncaught error)".toList, true⟩]
    let line : Line := ⟨.stdout, "error: Error: b".toList, true⟩
    let r := (feedAll { grammar := test } lines).2
    test ∈ shipped ∧ (∀ l ∈ lines, l.final = true) ∧ r.state = "failure" ∧
      ∃ s collected kind p, test.select r.state line.said = some s ∧ s.rule.effect = .extends collected ∧
        r.pending = some p ∧ p.draft.IsOf kind ∧ ∀ state ∈ s.rule.states, kind ∈ owners state := by
  intro lines line r
  have hg : test ∈ shipped := by simp [shipped]
  have hlines : ∀ l ∈ lines, l.final = true := by decide
  have hrole : r.role line = .extending := by decide +kernel
  have hgrammar : r.grammar = test := grammar_feedAll _ lines
  obtain ⟨s, collected, -, hs, he, -⟩ := role_eq_extending_iff.1 hrole
  rw [hgrammar] at hs
  obtain ⟨kind, p, hpending, hkind, -, hstates⟩ :=
    (pending_of_select_extends hg hlines line).1 s collected hs he
  exact ⟨hg, hlines, by decide +kernel, s, collected, kind, p, hs, he, hpending, hkind, hstates⟩

end Reader

end Fenceline
