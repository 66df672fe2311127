import Fenceline.Proofs.Grammar.Block
import Fenceline.Proofs.Line.Printed
import Fenceline.Proofs.Text.Escape

/-!
# Reports told in bursts

While a stream is read, parts of a line come before the line. In a state in which no rule extends a report
(`Idle`), a part changes nothing or opens a report of its own, which is not finished and is only shown; so a
line that opens a report tells it, whatever parts of it came before (`tellsFrom_burst`). In any other state a
part that extends the report does not count if it leaves the draft as it is (`TellsFrom.pass`).

**The law** (`recounts_bursts`): printed lines each of which opens a report and leads back to a idle state
recount these reports, wherever the chunks of the stream end.
-/

namespace Fenceline

/-- A line without escape sequences says what it is. -/
theorem Line.said_of_not_mem {stream : Stream} {t : Text} {final : Bool} (h : Text.esc ∉ t) :
    (⟨stream, t, final⟩ : Line).said = t :=
  Text.stripEscapes_of_not_mem h

/-- Lines without escape sequences say what they are. -/
theorem Line.map_said_of_not_mem {texts : List Text} (stream : Stream) (h : ∀ t ∈ texts, Text.esc ∉ t) :
    (texts.map fun t => ({ stream, text := t } : Line)).map Line.said = texts := by
  rw [List.map_map]
  exact (List.map_congr_left fun t ht => Line.said_of_not_mem (h t ht)).trans (List.map_id _)

namespace Grammar

/-- No rule extends a report in the state. -/
def Idle (g : Grammar) (state : String) : Prop :=
  ∀ rule ∈ g, rule.applies state = true → ∀ collected, rule.effect ≠ .extends collected

/-- In an idle state a rule that applies ignores a line or opens a report. -/
theorem idle_iff {g : Grammar} {state : String} : g.Idle state ↔
    ∀ rule ∈ g, rule.applies state = true → rule.effect = .ignored ∨ rule.report?.isSome = true := by
  refine forall₃_congr fun rule _ _ => ?_
  cases h : rule.effect <;> simp [Rule.report?, h]

instance (g : Grammar) (state : String) : Decidable (g.Idle state) :=
  decidable_of_iff _ idle_iff.symm

variable {g : Grammar} {P : Draft → Prop} {r : Reader} {lines parts : List Line} {line : Line} {d : Draft}
  {kind : Kind} {captured : List (String × Text)} {start state next : String}

/-- In a idle state no line extends a report. -/
theorem Idle.role_ne (h : g.Idle state) (hr : r.grammar = g) (hstate : r.state = state) (line : Line) :
    r.role line ≠ .extending := by
  intro hrole
  obtain ⟨s, collected, -, hs, he, -⟩ := Reader.role_eq_extending_iff.1 hrole
  obtain ⟨hrule, happlies⟩ := rule_of_select hs
  exact h s.rule (hr ▸ hrule) (hstate ▸ happlies) collected he

/-- **A part in a idle state** gives out nothing and changes nothing, or it opens a report that is shown. -/
theorem Idle.feed_part (h : g.Idle state) (hr : r.grammar = g) (hstate : r.state = state)
    (hpart : line.final = false) :
    r.feed line = ([], r) ∨ ∃ kind, r.role line = .opening kind ∧
      r.feed line = (r.deliver ++ [.flush (r.begun line) false],
        { r with pending := some ⟨r.begun line, false⟩ }) := by
  cases hrole : r.role line with
  | ignored => exact .inl (Reader.feed_of_ignored hrole)
  | rejected =>
    left
    rw [Reader.feed_of_rejected hrole, Reader.reject, hpart]
    rfl
  | opening kind =>
    refine .inr ⟨kind, rfl, ?_⟩
    have hkept := Reader.state_feed_fragment r hpart
    rw [Reader.feed_of_opening hrole] at hkept ⊢
    dsimp only at hkept ⊢
    rw [hkept, hpart]
  | extending => exact absurd hrole (h.role_ne hr hstate line)

/-- What parts that are read in a idle state give out, and what is then held: what was held before, or a
report that is not finished. -/
theorem Idle.feedAll_parts (h : g.Idle state) (hr : r.grammar = g) (hstate : r.state = state)
    (hparts : ∀ l ∈ parts, l.final = false)
    (hP : ∀ l ∈ parts, ∀ kind captured after, g.Reads state l.said (.opens kind) captured after →
      P (.opened captured kind l.said)) :
    ∃ (shown : List Draft) (pending : Option Pending), (∀ e ∈ shown, P e) ∧
      (r.feedAll parts).1 ++ ({ r with pending } : Reader).deliver = r.deliver ++ shown.map (.flush · false) ∧
      (r.feedAll parts).2 = { r with pending } := by
  induction parts generalizing r with
  | nil => exact ⟨[], r.pending, List.forall_mem_nil _, (List.append_nil _).symm, rfl⟩
  | cons part parts ih =>
    obtain ⟨hpart, hrest⟩ := List.forall_mem_cons.1 hparts
    obtain ⟨hPpart, hPrest⟩ := List.forall_mem_cons.1 hP
    rw [Reader.feedAll_cons]
    rcases h.feed_part hr hstate hpart with hnone | ⟨kind, hrole, hopens⟩
    · rw [hnone]
      exact ih hr hstate hrest hPrest
    · obtain ⟨s, hs, he⟩ := Reader.role_eq_opening_iff.1 hrole
      have hbegun : r.begun part = .opened s.reading.captured kind part.said := by
        simp only [Reader.begun, hs, he]
      have hPbegun : P (r.begun part) := by
        rw [hbegun]
        exact hPpart kind _ _ ⟨s, hr ▸ hstate ▸ hs, he, rfl, rfl⟩
      rw [hopens]
      obtain ⟨shown, pending, hshown, hout, hlast⟩ :=
        ih (r := { r with pending := some ⟨r.begun part, false⟩ }) hr hstate hrest hPrest
      refine ⟨r.begun part :: r.begun part :: shown, pending,
        List.forall_mem_cons.2 ⟨hPbegun, List.forall_mem_cons.2 ⟨hPbegun, hshown⟩⟩, ?_, hlast⟩
      rw [List.append_assoc, hout]
      simp [Reader.deliver]

/-- **A line that opens a report in a idle state tells it**, whatever parts of it came before. -/
theorem tellsFrom_burst (h : g.Idle start) {b : Burst} (hparts : ∀ l ∈ b.parts, l.final = false)
    (hPparts : ∀ l ∈ b.parts, ∀ kind captured after, g.Reads start l.said (.opens kind) captured after →
      P (.opened captured kind l.said))
    (hfinal : b.line.final = true) (hreads : g.Reads start b.line.said (.opens kind) captured next)
    (hP : P (.opened captured kind b.line.said)) :
    g.TellsFrom P start b.lines (.opened captured kind b.line.said) next := by
  intro r hr hstate
  obtain ⟨before, pending, hbefore, hout, hlast⟩ := h.feedAll_parts hr hstate hparts hPparts
  obtain ⟨shown, hshown, hfeed⟩ :=
    tellsFrom_of_opens hfinal hreads hP { r with pending } hr hstate
  refine ⟨before ++ shown, List.forall_mem_append.2 ⟨hbefore, hshown⟩, ?_⟩
  rw [Burst.lines, Reader.feedAll_append, hlast, hfeed, ← List.append_assoc, hout]
  simp

/-- Parts that leave the draft as it is do not count. -/
theorem TellsFrom.pass (h : g.TellsFrom P start lines d state) (hP : P d)
    (hparts : ∀ l ∈ parts, l.final = false ∧ ∃ collected captured after,
      g.Reads state l.said (.extends collected) captured after ∧ d.absorb collected captured = d) :
    g.TellsFrom P start (lines ++ parts) d state := by
  induction parts generalizing lines with
  | nil => rwa [List.append_nil]
  | cons part parts ih =>
    obtain ⟨⟨hpart, collected, captured, after, hreads, hkept⟩, hrest⟩ := List.forall_mem_cons.1 hparts
    have hone : g.TellsFrom P start (lines ++ [part]) d state := by
      intro r hr hstate
      obtain ⟨s, hs, he, rfl, -⟩ := hreads
      obtain ⟨shown, hshown, hfeed⟩ := h r hr hstate
      let held : Reader := { r with state, pending := some ⟨d, true⟩ }
      have hs : held.grammar.select held.state part.said = some s := hr ▸ hs
      have hrole : held.role part = .extending :=
        Reader.role_eq_extending_iff.2 ⟨s, collected, _, hs, he, rfl⟩
      have hgrown : held.grown part d = d := by
        simp only [Reader.grown, hs, he, hpart, Bool.false_eq_true, if_false, hkept]
      obtain ⟨p, hp, hline⟩ := Reader.feed_of_extending hrole
      obtain rfl := Option.some.inj hp
      have hafter := Reader.state_feed_fragment held hpart
      rw [hline] at hafter
      dsimp only at hafter
      refine ⟨shown ++ [d], List.forall_mem_append.2 ⟨hshown, List.forall_mem_singleton.2 hP⟩, ?_⟩
      rw [Reader.feedAll_append, hfeed, Reader.feedAll_cons]
      show (_, (held.feed part).2) = _
      rw [hline, hgrown, hafter]
      simp [Reader.feedAll, held]
    have hall := ih hone hrest
    rwa [List.append_assoc, List.singleton_append] at hall

/-- **Printed lines recount the reports that they open**, wherever the chunks of the stream end. -/
theorem recounts_bursts {stream : Stream} {texts : List Text} {bursts : List Burst} {ds : List Draft}
    (h : g.Idle state) (hbursts : List.Forall₂ (Burst.IsOf stream) texts bursts)
    (hopens : List.Forall₂ (fun t d => ∃ kind captured,
      g.Reads state (Text.stripEscapes t) (.opens kind) captured state ∧
        d = .opened captured kind (Text.stripEscapes t)) texts ds) :
    g.Recounts (fun _ => True) state (bursts.flatMap Burst.lines) ds state := by
  induction hbursts generalizing ds with
  | nil =>
    cases hopens
    exact .nil state
  | @cons t b texts bursts hburst _ ih =>
    obtain ⟨d, rest, ⟨kind, captured, hreads, rfl⟩, hrest, rfl⟩ := List.forall₂_cons_left_iff.1 hopens
    have hsaid : b.line.said = Text.stripEscapes t := by
      rw [hburst.line]
      rfl
    have htells : g.TellsFrom (fun _ => True) state b.lines (.opened captured kind b.line.said) state := by
      refine tellsFrom_burst h (fun l hl => ?_) (fun _ _ _ _ _ _ => trivial) ?_ (hsaid ▸ hreads) trivial
      · obtain ⟨begun, rfl, -⟩ := hburst.parts l hl
        rfl
      · rw [hburst.line]
    rw [hsaid] at htells
    exact .cons htells (ih hrest)

end Grammar

end Fenceline
