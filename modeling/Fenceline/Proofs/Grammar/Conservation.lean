import Fenceline.Proofs.Grammar.Role
import Fenceline.Proofs.Text.Cut

/-!
# No line is lost

What finished lines say goes somewhere, and to one place only. Which place is read off the roles of the
lines alone, without a reader: `reportTexts` gives one text to each line that opens a report, made of what
that line says and of what the lines say that extend a report before the next one is opened.

**The law** (`readAll_conserves`): a reader that spares the head of its reports delivers exactly these
texts, in this order, and gives out as unrecognized exactly what the rejected lines of the standard error
say. It rests on one invariant of the draft that is held: its message is what the lines since its opening
have said so far (`messages_readAll`).
-/

namespace Fenceline

namespace Reader

/-- What the lines say that extend a report before the next one is opened. -/
def following (marked : List (Role × Line)) : List Text :=
  ((marked.takeWhile (·.1.kind?.isNone)).filter (·.1 == .extending)).map (·.2.said)

/-- What the reports say that lines open, one report for each line that opens one. -/
def reportTexts : List (Role × Line) → List Text
  | [] => []
  | (role, line) :: rest =>
    match role with
    | .opening _ => Text.joinWith ['\n'] (line.said :: following rest) :: reportTexts rest
    | _ => reportTexts rest

/-- What the lines of the standard error say that no rule accounts for. -/
def rejectedTexts (marked : List (Role × Line)) : List Text :=
  (marked.filter fun m => m.1 == .rejected && m.2.stream == .stderr).map (·.2.said)

/-- What the delivered reports say. -/
def messages (outcomes : List Outcome) : List (Option Text) :=
  (outcomes.filterMap Outcome.settled?).map (·.get? "message")

theorem messages_append (a b : List Outcome) : messages (a ++ b) = messages a ++ messages b := by
  simp only [messages, List.filterMap_append, List.map_append]

/-- **The report that is held has said what its lines said.** A run delivers first the report that is held,
with the lines that extend it, and then the reports that its own lines open. -/
theorem messages_readAll (lines : List Line) (hfinal : ∀ line ∈ lines, line.final = true) (r : Reader)
    (hg : r.grammar.SparesHead)
    (hheld : ∀ p, r.pending = some p → p.done = true ∧ ∃ text, p.draft.get? "message" = some text) :
    messages (r.readAll lines).1 =
      (r.pending.toList.map fun p => (p.draft.get? "message").map fun text =>
        Text.joinWith ['\n'] (text :: following (r.marked lines))) ++
      (reportTexts (r.marked lines)).map some := by
  induction lines generalizing r with
  | nil =>
    rw [readAll_nil]
    cases hp : r.pending with
    | none => simp [deliver, hp, messages, marked, reportTexts]
    | some p =>
      obtain ⟨hdone, text, htext⟩ := hheld p hp
      simp [deliver, hp, hdone, messages, Outcome.settled?, marked, reportTexts, following, htext,
        Text.joinWith]
  | cons line rest ih =>
    have hline := hfinal line List.mem_cons_self
    have hrest : ∀ l ∈ rest, l.final = true := fun l hl => hfinal l (List.mem_cons_of_mem _ hl)
    rw [readAll_cons, messages_append]
    cases hrole : r.role line with
    | ignored =>
      rw [marked, hrole, feed_of_ignored hrole, ih hrest r hg hheld]
      rfl
    | rejected =>
      have hnone : messages (reject line line.said) = [] := by
        unfold reject
        split <;> rfl
      rw [marked, hrole, feed_of_rejected hrole, hnone, ih hrest r hg hheld]
      rfl
    | opening kind =>
      rw [marked, hrole, feed_of_opening hrole]
      dsimp only
      rw [messages_append, ih hrest]
      · have hbegun := get?_begun_message hrole
        cases hp : r.pending with
        | none => simp [deliver, hp, messages, Outcome.settled?, reportTexts, hbegun]
        | some p =>
          obtain ⟨hdone, text, htext⟩ := hheld p hp
          simp [deliver, hp, hdone, messages, Outcome.settled?, reportTexts, hbegun, htext, following,
            Role.kind?, Text.joinWith]
      · exact hg
      · rintro p hp
        cases hp
        exact ⟨hline, line.said, get?_begun_message hrole⟩
    | extending =>
      obtain ⟨p, hp, hfeed⟩ := feed_of_extending hrole
      obtain ⟨hdone, text, htext⟩ := hheld p hp
      have hgrown := get?_grown_message hg hrole htext
      rw [hline, if_pos rfl] at hgrown
      rw [marked, hrole, hfeed]
      dsimp only
      rw [ih hrest]
      · have hjoin := Text.joinWith_append_cons ['\n'] text line.said
        simp only [List.append_assoc, List.singleton_append] at hjoin
        simp [hp, htext, hgrown, messages, Outcome.settled?, reportTexts, following, Role.kind?, hjoin]
      · exact hg
      · rintro q hq
        cases hq
        exact ⟨hdone, _, hgrown⟩

/-- What a run gives out as unrecognized is what the rejected finished lines of the standard error say. -/
theorem unrecognized_readAll (lines : List Line) (r : Reader) :
    (r.readAll lines).1.filterMap Outcome.unrecognized? =
      rejectedTexts ((r.marked lines).filter (·.2.final)) := by
  have hdeliver : ∀ r : Reader, r.deliver.filterMap Outcome.unrecognized? = [] := by
    intro r
    unfold deliver
    split <;> rfl
  induction lines generalizing r with
  | nil => exact hdeliver r
  | cons line rest ih =>
    rw [readAll_cons, List.filterMap_append, marked, ih, List.filter_cons]
    cases hrole : r.role line with
    | ignored =>
      rw [feed_of_ignored hrole]
      split <;> rfl
    | opening kind =>
      rw [feed_of_opening hrole, List.filterMap_append, hdeliver]
      split <;> rfl
    | extending =>
      obtain ⟨p, _, hfeed⟩ := feed_of_extending hrole
      rw [hfeed]
      split <;> rfl
    | rejected =>
      rw [feed_of_rejected hrole]
      cases hfinal : line.final with
      | false => simp only [reject, hfinal, Bool.false_and, Bool.false_eq_true, if_false]; rfl
      | true =>
        simp only [reject, hfinal, Bool.true_and, rejectedTexts, List.filter_cons, beq_self_eq_true, if_true]
        split <;> rfl

/-- **No line is lost and none is told twice.** Every line of a run has one role; the delivered reports
say, one for each line that opens a report and in the order of these lines, what that line says and what
the lines say that extend a report before the next one is opened; and what is given out as unrecognized is
what the rejected lines of the standard error say. -/
theorem readAll_conserves {g : Grammar} (hg : g.SparesHead) {lines : List Line}
    (hfinal : ∀ line ∈ lines, line.final = true) :
    let r : Reader := { grammar := g }
    (r.marked lines).map (·.2) = lines ∧
      messages (r.readAll lines).1 = (reportTexts (r.marked lines)).map some ∧
      (r.readAll lines).1.filterMap Outcome.unrecognized? = rejectedTexts (r.marked lines) := by
  intro r
  have hall : (r.marked lines).filter (·.2.final) = r.marked lines := by
    refine List.filter_eq_self.2 fun m hm => hfinal _ ?_
    rw [← marked_lines r lines]
    exact List.mem_map_of_mem hm
  refine ⟨marked_lines _ _, ?_, by rw [unrecognized_readAll, hall]⟩
  exact messages_readAll lines hfinal r hg (fun p hp => by cases hp)

/-- A check with a line that nothing accounts for before its two reports. -/
theorem readAll_conserves_check :
    let r : Reader := { grammar := Grammar.check }
    let lines : List Line := [⟨.stderr, "stray".toList, true⟩,
      ⟨.stderr, "TS2322 [ERROR]: bad".toList, true⟩, ⟨.stdout, "  at file:///m.ts:1:2".toList, true⟩,
      ⟨.stderr, "Found 1 error.".toList, true⟩, ⟨.stdout, "noise".toList, true⟩]
    messages (r.readAll lines).1 =
        [some "TS2322 [ERROR]: bad\n  at file:///m.ts:1:2".toList, some "Found 1 error.".toList] ∧
      (r.readAll lines).1.filterMap Outcome.unrecognized? = ["stray".toList] := by
  intro r lines
  have hfinal : ∀ line ∈ lines, line.final = true := by decide
  obtain ⟨_, hmessages, hrejected⟩ := readAll_conserves (g := Grammar.check) (by decide) hfinal
  exact ⟨hmessages.trans (by decide +kernel), hrejected.trans (by decide +kernel)⟩

end Reader

end Fenceline
