import Fenceline.Proofs.Grammar.Role
import Fenceline.Proofs.Line.Stream

/-!
# What parts of lines leave behind

Parts of a line are there to be seen while the line is still coming; what lasts of a run are its finished
reports and the lines that no rule accounts for. Parts do leave traces, though: a part that opens a report
pushes out the one that is held, and a part that extends a report writes its fields into it, whatever the
whole line turns out to be.

A burst is **harmless** to a reader when no part of it opens a report unless its line does, and when the
fields that its parts leave behind in the held draft are those that the line would leave anyway. A run is
**quiet** when each of its bursts is harmless to the reader of the finished lines before it.

**The law** (`quiet_iff`): a run is quiet if and only if, up to every finished line, it gives out what the
finished lines alone give out and leaves the reader where they leave it. Parts are steps that repeat the
state of the reader of the finished lines (`feedAll_parts`), up to the drafts that they have changed
(`mapHeld`).
-/

namespace Fenceline

namespace Reader

/-- What lasts of what is given out: finished reports and lines that no rule accounts for. -/
def lasting (outcomes : List Outcome) : List Outcome :=
  outcomes.filter (·.shown?.isNone)

/-- Whether a line opens a report. -/
def opens (r : Reader) (line : Line) : Bool :=
  (r.role line).kind?.isSome

/-- A draft after parts of a line, up to the first part that opens a report of its own. -/
def tinted (r : Reader) (parts : List Line) (d : Draft) : Draft :=
  (parts.takeWhile (!r.opens ·)).foldl (fun d part => r.grown part d) d

/-- **A burst that leaves no trace of its parts.** -/
structure Harmless (r : Reader) (b : Burst) : Prop where
  /-- No part opens a report unless the line does. -/
  opened : b.parts.any r.opens = true → r.opens b.line = true
  /-- The line makes of a held draft what it makes of it without the parts. -/
  kept : ∀ p ∈ r.pending, r.grown b.line (r.tinted b.parts p.draft) = r.grown b.line p.draft

instance (r : Reader) (b : Burst) : Decidable (r.Harmless b) :=
  decidable_of_iff
    ((b.parts.any r.opens = true → r.opens b.line = true) ∧
      ∀ p ∈ r.pending, r.grown b.line (r.tinted b.parts p.draft) = r.grown b.line p.draft)
    ⟨fun h => ⟨h.1, h.2⟩, fun h => ⟨h.opened, h.kept⟩⟩

/-- Every burst of a run is harmless to the reader of the finished lines before it. -/
def Quiet (r : Reader) : List Burst → Prop
  | [] => True
  | b :: bs => r.Harmless b ∧ (r.feed b.line).2.Quiet bs

instance decidableQuiet (r : Reader) : (bs : List Burst) → Decidable (r.Quiet bs)
  | [] => isTrue trivial
  | b :: bs =>
    have := decidableQuiet (r.feed b.line).2 bs
    inferInstanceAs (Decidable (r.Harmless b ∧ (r.feed b.line).2.Quiet bs))

/-- The bursts of a run last as their finished lines alone do. -/
def Agrees (r : Reader) (bs : List Burst) : Prop :=
  lasting (r.feedAll (bs.flatMap Burst.lines)).1 = lasting (r.feedAll (bs.map (·.line))).1 ∧
    (r.feedAll (bs.flatMap Burst.lines)).2 = (r.feedAll (bs.map (·.line))).2

/-- The reader with another draft in the place of the one that is held. -/
def mapHeld (r : Reader) (f : Draft → Draft) : Reader :=
  { r with pending := r.pending.map fun p => { p with draft := f p.draft } }

variable {r : Reader} {line : Line} {f : Draft → Draft}

/-! ## What lasts -/

theorem lasting_append (a b : List Outcome) : lasting (a ++ b) = lasting a ++ lasting b :=
  List.filter_append ..

theorem lasting_shown (d : Draft) : lasting [.flush d false] = [] := rfl

/-- A part of a line is never given out as unrecognized. -/
theorem reject_part (h : line.final = false) (text : Text) : reject line text = [] := by
  simp [reject, h]

/-- A report that a part of a line opened does not last. -/
theorem lasting_deliver_of_not_done {d : Draft} (h : r.pending = some ⟨d, false⟩) :
    lasting r.deliver = [] := by
  simp only [deliver, h, lasting_shown]

/-- Two finished reports that last are the same only if they say the same. -/
theorem lasting_deliver_mapHeld_iff (hdone : ∀ p ∈ r.pending, p.done = true) :
    lasting (r.mapHeld f).deliver = lasting r.deliver ↔ ∀ p ∈ r.pending, f p.draft = p.draft := by
  cases hp : r.pending with
  | none => simp [deliver, mapHeld, hp]
  | some p =>
    have hdone := hdone p hp
    simp [deliver, mapHeld, hp, hdone, lasting, Outcome.shown?]

/-! ## Another draft in the place of the held one -/

@[simp] theorem role_mapHeld (r : Reader) (f : Draft → Draft) (line : Line) :
    (r.mapHeld f).role line = r.role line := by
  simp only [role, mapHeld, Option.isSome_map]

theorem opens_iff : r.opens line = true ↔ ∃ kind, r.role line = .opening kind := by
  unfold opens
  cases r.role line <;> simp [Role.kind?]

theorem not_opens_iff : r.opens line = false ↔ ∀ kind, r.role line ≠ .opening kind := by
  rw [Bool.eq_false_iff, ne_eq, opens_iff, not_exists]

/-- Whether a line opens a report does not depend on what is held. -/
@[simp] theorem opens_withPending (r : Reader) (pending : Option Pending) :
    ({ r with pending } : Reader).opens = r.opens := by
  funext line
  rw [Bool.eq_iff_iff]
  simp only [opens_iff, role_eq_opening_iff]

@[simp] theorem opens_mapHeld (r : Reader) (f : Draft → Draft) : (r.mapHeld f).opens = r.opens :=
  opens_withPending r _

@[simp] theorem grown_mapHeld (r : Reader) (f : Draft → Draft) :
    (r.mapHeld f).grown = r.grown := rfl

theorem mapHeld_mapHeld (r : Reader) (f g : Draft → Draft) :
    (r.mapHeld f).mapHeld g = r.mapHeld (g ∘ f) := by
  simp only [mapHeld, Option.map_map]
  rfl

theorem mapHeld_eq_self (h : ∀ d, f d = d) (r : Reader) : r.mapHeld f = r := by
  obtain rfl : f = id := funext h
  simp [mapHeld]

theorem mapHeld_eq_iff {g : Draft → Draft} :
    r.mapHeld f = r.mapHeld g ↔ ∀ p ∈ r.pending, f p.draft = g p.draft := by
  cases hp : r.pending with
  | none => simp [mapHeld, hp]
  | some p => simp [mapHeld, hp]

/-! ## Lines that open nothing -/

/-- What a line does not extend it leaves alone. -/
theorem grown_of_ignored (h : r.role line = .ignored) (d : Draft) : r.grown line d = d := by
  obtain ⟨s, hs, he⟩ := role_eq_ignored_iff.1 h
  simp only [grown, hs, he]

theorem grown_of_opening {kind : Kind} (h : r.role line = .opening kind) (d : Draft) :
    r.grown line d = d := by
  obtain ⟨s, hs, he⟩ := role_eq_opening_iff.1 h
  simp only [grown, hs, he]

theorem grown_of_rejected (h : r.role line = .rejected) (d : Draft) :
    r.pending = none ∨ r.grown line d = d := by
  rcases role_eq_rejected_iff.1 h with hs | ⟨_, _, _, _, hp⟩
  · exact .inr (by simp only [grown, hs])
  · exact .inl hp

/-- **A line that opens nothing makes of the held draft what it makes of any draft.** What lasts of it and
the state after it do not depend on the draft. -/
theorem feed_mapHeld (h : r.opens line = false) (f : Draft → Draft) :
    lasting ((r.mapHeld f).feed line).1 = lasting (r.feed line).1 ∧
      ((r.mapHeld f).feed line).2 =
        { r.mapHeld (r.grown line ∘ f) with state := (r.feed line).2.state } := by
  cases hrole : r.role line with
  | opening kind => exact absurd hrole (not_opens_iff.1 h kind)
  | ignored =>
    have hgrown : r.grown line ∘ f = f := funext fun d => grown_of_ignored hrole _
    rw [feed_of_ignored hrole, feed_of_ignored ((role_mapHeld r f line).trans hrole), hgrown]
    exact ⟨rfl, rfl⟩
  | rejected =>
    rw [feed_of_rejected hrole, feed_of_rejected ((role_mapHeld r f line).trans hrole)]
    refine ⟨rfl, ?_⟩
    cases hp : r.pending with
    | none => simp [mapHeld, hp]
    | some p =>
      have hgrown : r.grown line ∘ f = f := by
        funext d
        rcases grown_of_rejected hrole (f d) with hnone | hsame
        · rw [hnone] at hp
          cases hp
        · exact hsame
      rw [hgrown]
      rfl
  | extending =>
    obtain ⟨p, hp, hfeed⟩ := feed_of_extending hrole
    obtain ⟨q, hq, hfeed'⟩ := feed_of_extending ((role_mapHeld r f line).trans hrole)
    obtain rfl : { p with draft := f p.draft } = q := by simpa [mapHeld, hp] using hq
    rw [hfeed, hfeed']
    refine ⟨rfl, ?_⟩
    simp only [mapHeld, hp, Option.map_some, Function.comp_apply]
    rfl

/-- A line that opens nothing leaves the held draft as it makes it. -/
theorem feed_of_not_opens (h : r.opens line = false) :
    (r.feed line).2 = { r.mapHeld (r.grown line) with state := (r.feed line).2.state } := by
  have hsame := (feed_mapHeld h id).2
  rwa [mapHeld_eq_self (f := id) fun _ => rfl] at hsame

/-- Another draft makes no difference once the line has made the same of both. -/
theorem feed_mapHeld_eq_iff (h : r.opens line = false) :
    ((r.mapHeld f).feed line).2 = (r.feed line).2 ↔
      ∀ p ∈ r.pending, r.grown line (f p.draft) = r.grown line p.draft := by
  rw [(feed_mapHeld h f).2]
  constructor
  · intro hsame
    rw [feed_of_not_opens h] at hsame
    have hheld : r.mapHeld (r.grown line ∘ f) = r.mapHeld (r.grown line) :=
      congrArg (fun q : Reader => { q with state := r.state }) hsame
    exact mapHeld_eq_iff.1 hheld
  · intro hsame
    rw [mapHeld_eq_iff.2 hsame]
    exact (feed_of_not_opens h).symm

/-! ## Parts of a line -/

/-- A part that opens nothing only changes the held draft. -/
theorem feed_part (hpart : line.final = false) (h : r.opens line = false) :
    lasting (r.feed line).1 = [] ∧ (r.feed line).2 = r.mapHeld (r.grown line) := by
  refine ⟨?_, ?_⟩
  · cases hrole : r.role line with
    | opening kind => exact absurd hrole (not_opens_iff.1 h kind)
    | ignored => rw [feed_of_ignored hrole]; rfl
    | rejected => rw [feed_of_rejected hrole, reject_part hpart]; rfl
    | extending =>
      obtain ⟨p, _, hfeed⟩ := feed_of_extending hrole
      rw [hfeed]
      rfl
  · rw [feed_of_not_opens h, state_feed_fragment r hpart]
    rfl

/-- A part that opens a report pushes out the one that is held. -/
theorem feed_part_of_opens (hpart : line.final = false) (h : r.opens line = true) :
    lasting (r.feed line).1 = lasting r.deliver ∧
      (r.feed line).2 = { r with pending := some ⟨r.begun line, false⟩ } := by
  obtain ⟨kind, hrole⟩ := opens_iff.1 h
  have hstate := state_feed_fragment r hpart
  rw [feed_of_opening hrole] at hstate ⊢
  dsimp only at hstate ⊢
  rw [lasting_append, lasting_shown, List.append_nil, hstate, hpart]
  exact ⟨rfl, rfl⟩

@[simp] theorem tinted_mapHeld (r : Reader) (f : Draft → Draft) :
    (r.mapHeld f).tinted = r.tinted := by
  funext parts d
  simp only [tinted, opens_mapHeld, grown_mapHeld]

theorem tinted_cons_of_opens {part : Line} (h : r.opens part = true) (parts : List Line) (d : Draft) :
    r.tinted (part :: parts) d = d := by
  simp [tinted, h]

theorem tinted_cons_of_not_opens {part : Line} (h : r.opens part = false) (parts : List Line) :
    r.tinted (part :: parts) = r.tinted parts ∘ r.grown part := by
  funext d
  simp [tinted, h]

/-- **Parts that open nothing only change the held draft.** -/
theorem feedAll_parts {parts : List Line} (hparts : ∀ l ∈ parts, l.final = false)
    (h : parts.any r.opens = false) :
    lasting (r.feedAll parts).1 = [] ∧ (r.feedAll parts).2 = r.mapHeld (r.tinted parts) := by
  induction parts generalizing r with
  | nil => exact ⟨rfl, (mapHeld_eq_self (fun _ => rfl) r).symm⟩
  | cons part parts ih =>
    obtain ⟨hpart, hrest⟩ := List.forall_mem_cons.1 hparts
    rw [List.any_cons, Bool.or_eq_false_iff] at h
    obtain ⟨hnone, hreader⟩ := feed_part hpart h.1
    obtain ⟨hlater, hlast⟩ := ih hrest (r := r.mapHeld (r.grown part)) (by simpa only [opens_mapHeld] using h.2)
    rw [feedAll_cons, hreader, lasting_append, hnone, hlater, hlast, mapHeld_mapHeld, tinted_mapHeld,
      tinted_cons_of_not_opens h.1]
    exact ⟨rfl, rfl⟩

/-- What a part opened does not last, whatever parts follow. -/
theorem feedAll_parts_of_not_done {parts : List Line} (hparts : ∀ l ∈ parts, l.final = false)
    {d : Draft} (hp : r.pending = some ⟨d, false⟩) :
    lasting (r.feedAll parts).1 = [] ∧
      ∃ e, (r.feedAll parts).2 = { r with pending := some ⟨e, false⟩ } := by
  induction parts generalizing r d with
  | nil => exact ⟨rfl, d, by rw [← hp]; rfl⟩
  | cons part parts ih =>
    obtain ⟨hpart, hrest⟩ := List.forall_mem_cons.1 hparts
    have hstep : lasting (r.feed part).1 = [] ∧
        ∃ e, (r.feed part).2 = { r with pending := some ⟨e, false⟩ } := by
      cases hopens : r.opens part with
      | false =>
        obtain ⟨hnone, hreader⟩ := feed_part hpart hopens
        exact ⟨hnone, r.grown part d, by rw [hreader, mapHeld, hp]; rfl⟩
      | true =>
        obtain ⟨hout, hreader⟩ := feed_part_of_opens hpart hopens
        exact ⟨hout.trans (lasting_deliver_of_not_done hp), r.begun part, hreader⟩
    obtain ⟨hnone, e, hreader⟩ := hstep
    obtain ⟨hlater, e', hlast⟩ := ih hrest (r := { r with pending := some ⟨e, false⟩ }) rfl
    rw [feedAll_cons, hreader, lasting_append, hnone, hlater, hlast]
    exact ⟨rfl, e', rfl⟩

/-- **Parts one of which opens a report push out the held draft**, with what the parts before that one
wrote into it. -/
theorem feedAll_parts_of_opens {parts : List Line} (hparts : ∀ l ∈ parts, l.final = false)
    (h : parts.any r.opens = true) :
    lasting (r.feedAll parts).1 = lasting (r.mapHeld (r.tinted parts)).deliver ∧
      ∃ e, (r.feedAll parts).2 = { r with pending := some ⟨e, false⟩ } := by
  induction parts generalizing r with
  | nil => cases h
  | cons part parts ih =>
    obtain ⟨hpart, hrest⟩ := List.forall_mem_cons.1 hparts
    cases hopens : r.opens part with
    | true =>
      obtain ⟨hout, hreader⟩ := feed_part_of_opens hpart hopens
      obtain ⟨hnone, e, hlast⟩ := feedAll_parts_of_not_done hrest
        (r := { r with pending := some ⟨r.begun part, false⟩ }) rfl
      rw [feedAll_cons, hreader, lasting_append, hout, hnone, hlast, List.append_nil,
        mapHeld_eq_self (tinted_cons_of_opens hopens parts)]
      exact ⟨rfl, e, rfl⟩
    | false =>
      obtain ⟨hnone, hreader⟩ := feed_part hpart hopens
      rw [List.any_cons, hopens, Bool.false_or] at h
      obtain ⟨hout, e, hlast⟩ := ih hrest (r := r.mapHeld (r.grown part))
        (by simpa only [opens_mapHeld] using h)
      rw [feedAll_cons, hreader, lasting_append, hnone, hout, hlast, mapHeld_mapHeld, tinted_mapHeld,
        tinted_cons_of_not_opens hopens]
      exact ⟨rfl, e, rfl⟩

/-! ## A burst -/

/-- A finished line that opens a report leaves nothing of what was held but the report itself. -/
theorem feed_of_opens (h : r.opens line = true) (pending : Option Pending) :
    lasting (({ r with pending } : Reader).feed line).1 = lasting ({ r with pending } : Reader).deliver ∧
      (({ r with pending } : Reader).feed line).2 = (r.feed line).2 := by
  obtain ⟨kind, hrole⟩ := opens_iff.1 h
  have hrole' : ({ r with pending } : Reader).role line = .opening kind := by
    rw [role_eq_opening_iff] at hrole ⊢
    exact hrole
  rw [feed_of_opening hrole, feed_of_opening hrole', lasting_append, lasting_shown, List.append_nil]
  exact ⟨rfl, rfl⟩

theorem harmless_iff_of_opens {b : Burst} (h : r.opens b.line = true) :
    r.Harmless b ↔ ∀ p ∈ r.pending, r.tinted b.parts p.draft = p.draft := by
  obtain ⟨kind, hrole⟩ := opens_iff.1 h
  have hgrown : ∀ d, r.grown b.line d = d := grown_of_opening hrole
  refine ⟨fun hb p hp => ?_, fun hkept => ⟨fun _ => h, fun p hp => ?_⟩⟩
  · have hsame := hb.kept p hp
    rwa [hgrown, hgrown] at hsame
  · rw [hgrown, hgrown, hkept p hp]

/-- The bursts of one line are compared by what its parts give and leave. -/
theorem agrees_singleton (r : Reader) (b : Burst) :
    r.Agrees [b] ↔
      lasting (r.feedAll b.parts).1 ++ lasting ((r.feedAll b.parts).2.feed b.line).1 =
          lasting (r.feed b.line).1 ∧
        ((r.feedAll b.parts).2.feed b.line).2 = (r.feed b.line).2 := by
  have hlines : r.feedAll ([b].flatMap Burst.lines) =
      ((r.feedAll b.parts).1 ++ ((r.feedAll b.parts).2.feed b.line).1,
        ((r.feedAll b.parts).2.feed b.line).2) := by
    rw [List.flatMap_cons, List.flatMap_nil, List.append_nil, Burst.lines, feedAll_append]
    simp only [feedAll, List.append_nil]
  have hline : r.feedAll ([b].map (·.line)) = r.feed b.line := by
    simp only [List.map_cons, List.map_nil, feedAll, List.append_nil]
  rw [Agrees, hlines, hline, lasting_append]

/-- A line that opens a report behind parts of it: all that may be told of the parts is what they wrote
into the held draft. -/
theorem agrees_singleton_iff_of_opens (hdone : ∀ p ∈ r.pending, p.done = true) {b : Burst}
    (hparts : ∀ l ∈ b.parts, l.final = false) (h : r.opens b.line = true) :
    r.Agrees [b] ↔ r.Harmless b := by
  have hout : lasting (r.feedAll b.parts).1 ++ lasting ((r.feedAll b.parts).2.feed b.line).1 =
      lasting (r.mapHeld (r.tinted b.parts)).deliver ∧
      ((r.feedAll b.parts).2.feed b.line).2 = (r.feed b.line).2 := by
    cases hany : b.parts.any r.opens with
    | true =>
      obtain ⟨hpushed, e, hreader⟩ := feedAll_parts_of_opens hparts hany
      obtain ⟨hline, hlast⟩ := feed_of_opens h (some ⟨e, false⟩)
      rw [hpushed, hreader, hline, hlast,
        lasting_deliver_of_not_done (r := { r with pending := some ⟨e, false⟩ }) rfl, List.append_nil]
      exact ⟨rfl, rfl⟩
    | false =>
      obtain ⟨hnone, hreader⟩ := feedAll_parts hparts hany
      rw [hnone, hreader]
      exact feed_of_opens h _
  rw [agrees_singleton, hout.1, (feed_of_opens h r.pending).1, harmless_iff_of_opens h]
  exact (and_iff_left hout.2).trans (lasting_deliver_mapHeld_iff hdone)

/-- **A burst leaves no trace of its parts if and only if it is harmless.** -/
theorem agrees_singleton_iff (hdone : ∀ p ∈ r.pending, p.done = true) {b : Burst}
    (hparts : ∀ l ∈ b.parts, l.final = false) : r.Agrees [b] ↔ r.Harmless b := by
  cases hopens : r.opens b.line with
  | true => exact agrees_singleton_iff_of_opens hdone hparts hopens
  | false =>
    rw [agrees_singleton]
    cases hany : b.parts.any r.opens with
    | true =>
      -- what a part opened is still held, and not as a finished report
      refine iff_of_false (fun hagrees => ?_) (fun hb => ?_)
      · obtain ⟨_, e, hreader⟩ := feedAll_parts_of_opens hparts hany
        have hsame := congrArg Reader.pending hagrees.2
        have hopens' : ({ r with pending := some ⟨e, false⟩ } : Reader).opens b.line = false := by
          rw [opens_withPending, hopens]
        rw [hreader, feed_of_not_opens hopens, feed_of_not_opens hopens'] at hsame
        cases hp : r.pending with
        | none => simp [mapHeld, hp] at hsame
        | some p =>
          have hfinished := hdone p hp
          simp [mapHeld, hp, hfinished] at hsame
      · rw [hb.opened hany] at hopens
        cases hopens
    | false =>
      obtain ⟨hnone, hreader⟩ := feedAll_parts hparts hany
      rw [hnone, hreader, List.nil_append, (feed_mapHeld hopens _).1, feed_mapHeld_eq_iff hopens]
      refine ⟨fun hagrees => ⟨fun hopened => ?_, hagrees.2⟩, fun hb => ⟨rfl, hb.kept⟩⟩
      rw [hany] at hopened
      cases hopened

/-! ## A run -/

/-- Finished lines leave finished reports only. -/
theorem done_feed (hdone : ∀ p ∈ r.pending, p.done = true) (hline : line.final = true) :
    ∀ p ∈ (r.feed line).2.pending, p.done = true := by
  intro q hq
  cases hrole : r.role line with
  | ignored =>
    rw [feed_of_ignored hrole] at hq
    exact hdone q hq
  | rejected =>
    rw [feed_of_rejected hrole] at hq
    exact hdone q hq
  | opening kind =>
    rw [feed_of_opening hrole] at hq
    obtain rfl := Option.some.inj hq
    exact hline
  | extending =>
    obtain ⟨p, hp, hfeed⟩ := feed_of_extending hrole
    rw [hfeed] at hq
    obtain rfl := Option.some.inj hq
    exact hdone p hp

theorem agrees_cons_iff {b : Burst} (hb : r.Agrees [b]) (bs : List Burst) :
    r.Agrees (b :: bs) ↔ (r.feed b.line).2.Agrees bs := by
  rw [agrees_singleton] at hb
  obtain ⟨hout, hreader⟩ := hb
  have hlines : r.feedAll ((b :: bs).flatMap Burst.lines) =
      ((r.feedAll b.parts).1 ++ ((r.feedAll b.parts).2.feed b.line).1 ++
          ((r.feed b.line).2.feedAll (bs.flatMap Burst.lines)).1,
        ((r.feed b.line).2.feedAll (bs.flatMap Burst.lines)).2) := by
    rw [List.flatMap_cons, Burst.lines, List.append_assoc, feedAll_append, List.singleton_append,
      feedAll_cons, hreader, List.append_assoc]
  rw [Agrees, Agrees, hlines, List.map_cons, feedAll_cons, lasting_append, lasting_append,
    lasting_append, hout, List.append_cancel_left_eq]

/-- **A run is quiet if and only if, up to every finished line, it lasts as its finished lines alone do.** -/
theorem quiet_iff {bs : List Burst}
    (hbs : ∀ b ∈ bs, (∀ l ∈ b.parts, l.final = false) ∧ b.line.final = true) (r : Reader)
    (hdone : ∀ p ∈ r.pending, p.done = true) : r.Quiet bs ↔ ∀ n, r.Agrees (bs.take n) := by
  induction bs generalizing r with
  | nil => simp [Quiet, Agrees]
  | cons b bs ih =>
    obtain ⟨⟨hparts, hline⟩, hrest⟩ := List.forall_mem_cons.1 hbs
    have hstep := agrees_singleton_iff hdone hparts
    rw [Quiet, ih hrest _ (done_feed hdone hline), ← hstep]
    constructor
    · rintro ⟨hb, hlater⟩ n
      cases n with
      | zero => exact ⟨rfl, rfl⟩
      | succ n => exact (agrees_cons_iff hb _).2 (hlater n)
    · intro hall
      have hb : r.Agrees [b] := by simpa using hall 1
      exact ⟨hb, fun n => (agrees_cons_iff hb _).1 (hall (n + 1))⟩

end Reader

end Fenceline
