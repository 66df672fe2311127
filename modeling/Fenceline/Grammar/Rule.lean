import Fenceline.Pattern.Match
import Fenceline.Report.Kind

/-!
# Grammars of output

A grammar is a list of rules, tried from the first to the last. A rule may be confined to some states
of the reader; what it does with a line that it matches is its effect: ignore the line, open a report
with it, or extend the report that is open.

**The law.** `select_eq_some_iff`: the selected rule applies and matches, and no rule before it does.
-/

namespace Fenceline

/-- What a rule does with a line. -/
inductive Effect where
  /-- Nothing. -/
  | ignored
  /-- It begins a report. -/
  | opens (kind : Kind)
  /-- It belongs to the report that is open; the named parts are collected over the report's lines,
  the others replace what was there. -/
  | extends (collected : List String)
  deriving DecidableEq, Repr

/-- One rule of a grammar. -/
structure Rule where
  /-- Tried from the first to the last. -/
  patterns : List Pattern
  /-- The states in which the rule applies; none stands for all. -/
  states : List String := []
  effect : Effect
  /-- The state after a finished line. -/
  next : Option String := none

/-- The rules for the output of one command. -/
abbrev Grammar := List Rule

/-- A pattern of a rule and what it matched. -/
structure Reading where
  pattern : Pattern
  found : Match

namespace Reading

/-- The text of every part that the pattern names, if it was read. -/
def groups (r : Reading) : List (String × Option Text) :=
  r.pattern.names.map fun name => (name, r.found.get? name)

/-- The text of every part that was read. -/
def captured (r : Reading) : List (String × Text) :=
  r.groups.filterMap fun (name, text) => text.map (name, ·)

end Reading

namespace Rule

/-- Whether the rule applies in a state. -/
def applies (r : Rule) (state : String) : Bool :=
  r.states.isEmpty || r.states.contains state

/-- What the first pattern that matches somewhere in the line reads. -/
def read? (r : Rule) (line : Text) : Option Reading :=
  r.patterns.findSome? fun p => (p.find? line).map fun m => ⟨p, m⟩

/-- What the rule reads in a state. -/
def readIn? (r : Rule) (state : String) (line : Text) : Option Reading :=
  if r.applies state then r.read? line else none

/-- The kind of the report that the rule opens. -/
def report? (r : Rule) : Option Kind :=
  match r.effect with
  | .opens kind => some kind
  | _ => none

/-- The state after a finished line, which was `state` before. -/
def stateAfter (r : Rule) (state : String) : String :=
  match r.next, r.report? with
  | some next, _ => next
  | none, some kind => kind.name
  | none, none => state

end Rule

/-- The rule that a line was read with: its place in the grammar, the rule, and what it read. -/
structure Selection where
  index : Nat
  rule : Rule
  reading : Reading

namespace Grammar

/-- The first rule from the one with number `index` on that reads the line in `state`. -/
def selectFrom (state : String) (line : Text) : Nat → Grammar → Option Selection
  | _, [] => none
  | index, rule :: rest =>
    match rule.readIn? state line with
    | some reading => some ⟨index, rule, reading⟩
    | none => selectFrom state line (index + 1) rest

/-- The first rule that reads the line in `state`. -/
def select (g : Grammar) (state : String) (line : Text) : Option Selection :=
  selectFrom state line 0 g

theorem selectFrom_eq_some_iff {state : String} {line : Text} {s : Selection} (g : Grammar) (n : Nat) :
    selectFrom state line n g = some s ↔
      ∃ before after, g = before ++ s.rule :: after ∧ s.index = n + before.length ∧
        s.rule.readIn? state line = some s.reading ∧
        ∀ r ∈ before, r.readIn? state line = none := by
  induction g generalizing n with
  | nil => simp [selectFrom]
  | cons rule g ih =>
    rw [selectFrom]
    split
    · rename_i reading hr
      constructor
      · rintro h
        rw [Option.some.injEq] at h
        subst h
        exact ⟨[], g, rfl, rfl, hr, by simp⟩
      · rintro ⟨before, after, hg, hi, hs, hn⟩
        cases before with
        | nil =>
          simp only [List.nil_append, List.cons.injEq] at hg
          rw [hg.1, hs, Option.some.injEq] at hr
          cases s
          simp_all
        | cons b before =>
          simp only [List.cons_append, List.cons.injEq] at hg
          have := hn rule (by simp [hg.1])
          simp [this] at hr
    · rename_i hr
      rw [ih]
      constructor
      · rintro ⟨before, after, rfl, hi, hs, hn⟩
        exact ⟨rule :: before, after, rfl, by simp [hi]; omega, hs, by simpa [hr] using hn⟩
      · rintro ⟨before, after, hg, hi, hs, hn⟩
        cases before with
        | nil =>
          simp only [List.nil_append, List.cons.injEq] at hg
          rw [hg.1, hs] at hr
          simp at hr
        | cons b before =>
          simp only [List.cons_append, List.cons.injEq] at hg
          exact ⟨before, after, hg.2, by simp at hi; omega, hs, fun r h => hn r (by simp [h])⟩

/-- **The selected rule is the first one that reads the line.** -/
theorem select_eq_some_iff {g : Grammar} {state : String} {line : Text} {s : Selection} :
    g.select state line = some s ↔
      ∃ before after, g = before ++ s.rule :: after ∧ s.index = before.length ∧
        s.rule.readIn? state line = some s.reading ∧
        ∀ r ∈ before, r.readIn? state line = none := by
  rw [select]
  simpa using selectFrom_eq_some_iff g 0

end Grammar

end Fenceline
