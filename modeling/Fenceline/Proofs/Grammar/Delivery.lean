import Fenceline.Proofs.Grammar.Role
import Mathlib.Data.List.Forall2

/-!
# Every report is delivered once

Parts of lines come in between, from either stream and in any number: they may open drafts of their own,
push the report that is held out early, and change its fields. What they cannot do is make a report
appear, disappear or appear twice.

**The law** (`readAll_delivers_once`): the delivered reports are, one by one and in order, those that
finished lines open; each has the kind that its rule says and begins with what its line says; whatever is
delivered was opened by a finished line; and it is delivered as it was last shown. The draft that is held
carries two facts through the run: it is marked as finished if and only if the line that opened it was
(`done_feedAll`), and it is what was shown last (`repeats_readAll`).
-/

namespace Fenceline

namespace Reader

/-- The finished lines that open a report, each with the kind of its report. -/
def openings (marked : List (Role × Line)) : List (Kind × Line) :=
  marked.filterMap fun m => if m.2.final then m.1.kind?.map (·, m.2) else none

/-- The last line that opens a report, finished or not. -/
def opener? : List (Role × Line) → Option Line
  | [] => none
  | (role, line) :: rest => (opener? rest).or (role.kind?.map fun _ => line)

/-- **A report begun by a line**: of the kind that is opened, and beginning with what the line says. -/
structure Begins (opening : Kind × Line) (d : Draft) : Prop where
  kind : d.get? "kind" = some opening.1.name.toList
  message : ∃ more, d.get? "message" = some (opening.2.said ++ more)

/-- Every draft that is delivered is the one that was shown last, `last` being the one shown before. -/
def Repeats : Option Draft → List Outcome → Prop
  | _, [] => True
  | last, .flush d true :: rest => last = some d ∧ Repeats last rest
  | _, .flush d false :: rest => Repeats (some d) rest
  | last, .unrecognized _ :: rest => Repeats last rest

variable {r : Reader} {line : Line}

/-! ## The report that is held -/

/-- **What a report has from its opening on**: every line that opens one gives it, and every line that
extends one leaves it. -/
structure Persists (g : Grammar) (R : Kind × Line → Draft → Prop) : Prop where
  begun : ∀ {r : Reader} {line : Line} {kind : Kind}, r.role line = .opening kind →
    R (kind, line) (r.begun line)
  grown : ∀ {r : Reader} {line : Line}, r.grammar = g → r.role line = .extending →
    ∀ {o : Kind × Line} {d : Draft}, R o d → R o (r.grown line d)

/-- A report keeps its kind under a grammar that spares it. -/
theorem persists_kind {g : Grammar} (hg : g.Spares "kind") :
    Persists g fun o d => d.get? "kind" = some o.1.name.toList where
  begun h := get?_begun_kind h
  grown hr h _ d hd := (get?_grown_kind (by rwa [hr]) h d).trans hd

/-- A report begins as it began under a grammar that spares its head. -/
theorem persists_begins {g : Grammar} (hg : g.SparesHead) : Persists g Begins where
  begun h := ⟨get?_begun_kind h, [], by rw [get?_begun_message h, List.append_nil]⟩
  grown {r line} hr h o d hd := by
    refine ⟨(persists_kind hg.spares_kind).grown hr h hd.kind, ?_⟩
    obtain ⟨more, hmore⟩ := hd.message
    rw [get?_grown_message (by rwa [hr]) h hmore]
    split
    · exact ⟨more ++ '\n' :: line.said, by rw [List.append_assoc]⟩
    · exact ⟨more, rfl⟩

/-- The draft that is held, if it is to be delivered as finished. -/
def held (r : Reader) : List Draft :=
  r.deliver.filterMap Outcome.settled?

theorem held_eq (r : Reader) :
    r.held = (r.pending.toList.filter (·.done)).map (·.draft) := by
  unfold held deliver
  cases r.pending with
  | none => rfl
  | some p =>
    obtain ⟨draft, done⟩ := p
    cases done <;> rfl

/-- **A line delivers what is held, or nothing**, and what it leaves held has what it had before. -/
theorem held_feed {R : Kind × Line → Draft → Prop} (hR : Persists r.grammar R) (line : Line)
    {heads : List (Kind × Line)} (hheads : List.Forall₂ R heads r.held) :
    ∃ told next, heads ++ openings [(r.role line, line)] = told ++ next ∧
      List.Forall₂ R told ((r.feed line).1.filterMap Outcome.settled?) ∧
      List.Forall₂ R next (r.feed line).2.held := by
  cases hrole : r.role line with
  | ignored =>
    refine ⟨[], heads, by simp [openings, Role.kind?], ?_, ?_⟩
    · rw [feed_of_ignored hrole]
      exact .nil
    · rw [feed_of_ignored hrole]
      exact hheads
  | rejected =>
    refine ⟨[], heads, by simp [openings, Role.kind?], ?_, ?_⟩
    · rw [feed_of_rejected hrole]
      unfold reject
      split <;> exact .nil
    · rw [feed_of_rejected hrole]
      exact hheads
  | opening kind =>
    refine ⟨heads, openings [(.opening kind, line)], rfl, ?_, ?_⟩
    · rw [feed_of_opening hrole]
      have hshown : [Outcome.flush (r.begun line) false].filterMap Outcome.settled? = [] := rfl
      rw [List.filterMap_append, hshown, List.append_nil]
      exact hheads
    · rw [feed_of_opening hrole, held_eq]
      cases hfinal : line.final with
      | false => simp [openings, hfinal]
      | true => simpa [openings, hfinal, Role.kind?] using hR.begun hrole
  | extending =>
    obtain ⟨p, hp, hfeed⟩ := feed_of_extending hrole
    refine ⟨[], heads, by simp [openings, Role.kind?], ?_, ?_⟩
    · rw [hfeed]
      exact .nil
    · rw [held_eq, hp] at hheads
      rw [hfeed, held_eq]
      cases hdone : p.done with
      | false => simpa [hdone] using hheads
      | true =>
        simp only [Option.toList_some, List.filter_cons, hdone, if_true, List.filter_nil,
          List.map_cons, List.map_nil, List.forall₂_cons_right_iff, List.forall₂_nil_right_iff]
          at hheads ⊢
        obtain ⟨o, rest, ho, hrest, rfl⟩ := hheads
        exact ⟨o, rest, hR.grown rfl hrole ho, hrest, rfl⟩

/-- **A run delivers the report that is held and then those that its finished lines open.** -/
theorem forall₂_readAll {R : Kind × Line → Draft → Prop} (lines : List Line) (r : Reader)
    (hR : Persists r.grammar R) {heads : List (Kind × Line)} (hheads : List.Forall₂ R heads r.held) :
    List.Forall₂ R (heads ++ openings (r.marked lines))
      ((r.readAll lines).1.filterMap Outcome.settled?) := by
  induction lines generalizing r heads with
  | nil =>
    have hnone : openings (r.marked []) = [] := rfl
    rw [hnone, List.append_nil]
    exact hheads
  | cons line rest ih =>
    obtain ⟨told, next, hsplit, htold, hnext⟩ := held_feed hR line hheads
    have hcut : openings (r.marked (line :: rest)) =
        openings [(r.role line, line)] ++ openings ((r.feed line).2.marked rest) :=
      List.filterMap_append (l := [_])
    rw [hcut, ← List.append_assoc, hsplit, List.append_assoc, readAll_cons, List.filterMap_append]
    exact List.rel_append htold (ih _ (by rwa [grammar_feed]) hnext)

/-! ## Who opened it -/

/-- **A held report is marked as finished if and only if the line that opened it was.** -/
theorem done_feedAll (lines : List Line) (r : Reader) :
    (r.feedAll lines).2.pending.map (·.done) =
      ((opener? (r.marked lines)).map (·.final)).or (r.pending.map (·.done)) := by
  induction lines generalizing r with
  | nil => simp [feedAll, marked, opener?]
  | cons line rest ih =>
    rw [feedAll, ih, marked, opener?]
    cases hrole : r.role line with
    | ignored => rw [feed_of_ignored hrole]; simp [Role.kind?]
    | rejected => rw [feed_of_rejected hrole]; simp [Role.kind?]
    | opening kind =>
      rw [feed_of_opening hrole]
      cases opener? _ <;> simp [Role.kind?]
    | extending =>
      obtain ⟨p, hp, hfeed⟩ := feed_of_extending hrole
      rw [hfeed, hp]
      simp [Role.kind?]

/-- Only what is held and marked as finished is delivered as finished. -/
theorem done_of_settled_mem_deliver {d : Draft} (h : .flush d true ∈ r.deliver) :
    r.pending.map (·.done) = some true := by
  unfold deliver at h
  cases hp : r.pending with
  | none => simp [hp] at h
  | some p =>
    rw [hp] at h
    obtain ⟨_, hdone⟩ : d = p.draft ∧ true = p.done := by simpa using h
    rw [Option.map_some, ← hdone]

theorem done_of_settled_mem_feed {d : Draft} (h : .flush d true ∈ (r.feed line).1) :
    r.pending.map (·.done) = some true := by
  cases hrole : r.role line with
  | ignored => simp [feed_of_ignored hrole] at h
  | rejected =>
    rw [feed_of_rejected hrole] at h
    unfold reject at h
    split at h <;> simp at h
  | opening kind =>
    rw [feed_of_opening hrole] at h
    exact done_of_settled_mem_deliver (by simpa using h)
  | extending =>
    obtain ⟨p, _, hfeed⟩ := feed_of_extending hrole
    simp [hfeed] at h

/-! ## What was shown last -/

/-- **What is delivered is what was shown last.** -/
theorem repeats_readAll (lines : List Line) (r : Reader) (last : Option Draft)
    (hlast : ∀ p, r.pending = some p → last = some p.draft) : Repeats last (r.readAll lines).1 := by
  induction lines generalizing r last with
  | nil =>
    rw [readAll_nil, deliver]
    cases hp : r.pending with
    | none => trivial
    | some p =>
      obtain ⟨draft, done⟩ := p
      cases done with
      | false => trivial
      | true => exact ⟨hlast _ hp, trivial⟩
  | cons line rest ih =>
    rw [readAll_cons]
    cases hrole : r.role line with
    | ignored =>
      rw [feed_of_ignored hrole]
      exact ih r last hlast
    | rejected =>
      rw [feed_of_rejected hrole, reject]
      split <;> exact ih r last hlast
    | opening kind =>
      rw [feed_of_opening hrole, deliver]
      have hrest := ih { r with state := r.stateAfter line, pending := some ⟨r.begun line, line.final⟩ }
        (some (r.begun line)) (fun p hp => by cases hp; rfl)
      cases hp : r.pending with
      | none => exact hrest
      | some p =>
        obtain ⟨draft, done⟩ := p
        cases done with
        | false => exact hrest
        | true => exact ⟨hlast _ hp, hrest⟩
    | extending =>
      obtain ⟨p, _, hfeed⟩ := feed_of_extending hrole
      rw [hfeed]
      exact ih _ (some (r.grown line p.draft)) (fun q hq => by cases hq; rfl)

/-- The last draft shown before one that is delivered. -/
theorem Repeats.getLast?_shown {last : Option Draft} {outcomes before after : List Outcome} {d : Draft}
    (h : Repeats last outcomes) (hcut : outcomes = before ++ .flush d true :: after) :
    ((before.filterMap Outcome.shown?).getLast?).or last = some d := by
  subst hcut
  induction before generalizing last with
  | nil => exact h.1
  | cons o before ih =>
    rcases o with ⟨draft, _ | _⟩ | text
    · have hrest : ((before.filterMap Outcome.shown?).getLast?).or (some draft) = some d := ih h
      simp only [List.filterMap_cons, Outcome.shown?, List.getLast?_cons, Option.some_or,
        ← hrest]
      cases (before.filterMap Outcome.shown?).getLast? <;> rfl
    · exact ih h.2
    · exact ih h

/-- **Every report that a finished line opens is delivered once, and no other.** Whatever parts of lines
come in between: the delivered reports stand in order, one for each finished line that opens a report, each
of the kind of that line's rule and beginning with what the line says; the line that opened what is
delivered, in the course of the run or at its end, was finished; and every report is delivered as it was
last shown. -/
theorem readAll_delivers_once {g : Grammar} (hg : g.SparesHead) (lines : List Line) :
    let r : Reader := { grammar := g }
    List.Forall₂ Begins (openings (r.marked lines))
        ((r.readAll lines).1.filterMap Outcome.settled?) ∧
      (∀ before line after, lines = before ++ line :: after →
        ∀ d, .flush d true ∈ ((r.feedAll before).2.feed line).1 →
          ∃ opener, opener? (r.marked before) = some opener ∧ opener.final = true) ∧
      (∀ d, .flush d true ∈ (r.feedAll lines).2.close.1 →
        ∃ opener, opener? (r.marked lines) = some opener ∧ opener.final = true) ∧
      ∀ before d after, (r.readAll lines).1 = before ++ .flush d true :: after →
        (before.filterMap Outcome.shown?).getLast? = some d := by
  intro r
  have opened : ∀ lines, (r.feedAll lines).2.pending.map (·.done) = some true →
      ∃ opener, opener? (r.marked lines) = some opener ∧ opener.final = true := by
    intro lines h
    rw [done_feedAll] at h
    simpa [r] using h
  refine ⟨forall₂_readAll lines r (persists_begins hg) .nil, ?_, ?_, ?_⟩
  · intro before line after _ d hd
    exact opened before (done_of_settled_mem_feed hd)
  · intro d hd
    exact opened lines (done_of_settled_mem_deliver hd)
  · intro before d after hcut
    have h := (repeats_readAll lines r none (fun p hp => by cases hp)).getLast?_shown hcut
    simpa using h

/-- A check that shows a summary before it knows that the line goes on. -/
theorem readAll_delivers_once_check :
    let r : Reader := { grammar := Grammar.check }
    let lines : List Line := [⟨.stderr, "TS1 [ERROR]: a".toList, true⟩,
      ⟨.stderr, "Found 1 error.".toList, false⟩, ⟨.stderr, "Found 1 error. Retry".toList, true⟩,
      ⟨.stderr, "TS2 [ERROR]: b".toList, true⟩]
    ∃ a b, (r.readAll lines).1.filterMap Outcome.settled? = [a, b] ∧
      Begins (.check, ⟨.stderr, "TS1 [ERROR]: a".toList, true⟩) a ∧
      Begins (.check, ⟨.stderr, "TS2 [ERROR]: b".toList, true⟩) b := by
  intro r lines
  have hopenings : openings (r.marked lines) =
      [(.check, ⟨.stderr, "TS1 [ERROR]: a".toList, true⟩),
        (.check, ⟨.stderr, "TS2 [ERROR]: b".toList, true⟩)] := by
    decide +kernel
  have h := (readAll_delivers_once (g := Grammar.check) (by decide) lines).1
  rw [hopenings] at h
  obtain ⟨a, rest, ha, hrest, hsettled⟩ := List.forall₂_cons_left_iff.1 h
  obtain ⟨b, none, hb, hnone, rfl⟩ := List.forall₂_cons_left_iff.1 hrest
  cases hnone
  exact ⟨a, b, hsettled, ha, hb⟩

end Reader

end Fenceline
