import Fenceline.Proofs.Grammar.Role
import Fenceline.Proofs.Location.Report
import Fenceline.Proofs.Outcome
import Fenceline.Run.Intake

/-!
# What a reader gives out can be filed

A draft has a **head** when it says what its kind is and what it says. A reader that spares the kinds of
its reports gives out drafts with a head only (`headed_feedAll`), and such drafts are filed without a
failure (`Ledger.add_headed`), whoever makes reports of them.

**The law** (`feedAll_filed`): an intake does not fail over such a reader if every draft can be brought back to
its document; its ledger is what the reader has given out so far, brought back and filed in order, and its
reader is where the lines have brought it.
-/

namespace Fenceline

/-- **A draft with a head**: it has a kind and a message. -/
structure Draft.Headed (d : Draft) : Prop where
  kind : ∃ kind, d.kind = .ok kind
  message : ∃ text, d.message = .ok text

/-- What is given out has a head, if it is a draft. -/
def Outcome.Headed : Outcome → Prop
  | .flush d _ => d.Headed
  | .unrecognized _ => True

namespace Draft

theorem succeeds_message_iff {d : Draft} : Succeeds d.message ↔ d.has "message" = true := by
  simp only [Succeeds, message_eq_ok_iff, has, Option.isSome_iff_exists]

end Draft

/-! ## Readers that spare the heads of their reports -/

namespace Reader

variable {r : Reader} {line : Line}

theorem headed_begun {kind : Kind} (h : r.role line = .opening kind) : (r.begun line).Headed :=
  ⟨⟨kind, Draft.kind_of_get? (get?_begun_kind h)⟩, _, Draft.message_of_get? (get?_begun_message h)⟩

theorem headed_grown (hg : r.grammar.Spares "kind") (h : r.role line = .extending) {d : Draft}
    (hd : d.Headed) : (r.grown line d).Headed := by
  refine ⟨?_, Draft.succeeds_message_iff.2 (has_grown (Draft.succeeds_message_iff.1 hd.message))⟩
  rw [Draft.kind_congr (get?_grown_kind hg h d)]
  exact hd.kind

theorem headed_deliver (hheld : ∀ p ∈ r.pending, p.draft.Headed) : ∀ o ∈ r.deliver, o.Headed := by
  intro o ho
  unfold deliver at ho
  cases hp : r.pending with
  | none => simp [hp] at ho
  | some p =>
    rw [hp] at ho
    rw [List.mem_singleton.1 ho]
    exact hheld p hp

/-- A line gives out drafts with a head only, and holds none without. -/
theorem headed_feed (hg : r.grammar.Spares "kind") (hheld : ∀ p ∈ r.pending, p.draft.Headed)
    (line : Line) :
    (∀ o ∈ (r.feed line).1, o.Headed) ∧ ∀ p ∈ (r.feed line).2.pending, p.draft.Headed := by
  cases hrole : r.role line with
  | ignored =>
    rw [feed_of_ignored hrole]
    exact ⟨List.forall_mem_nil _, hheld⟩
  | rejected =>
    rw [feed_of_rejected hrole]
    refine ⟨fun o ho => ?_, hheld⟩
    unfold reject at ho
    split at ho
    · rw [List.mem_singleton.1 ho]
      trivial
    · cases ho
  | opening kind =>
    rw [feed_of_opening hrole]
    refine ⟨fun o ho => ?_, fun p hp => ?_⟩
    · rcases List.mem_append.1 ho with ho | ho
      · exact headed_deliver hheld o ho
      · rw [List.mem_singleton.1 ho]
        exact headed_begun hrole
    · obtain rfl := Option.some.inj hp
      exact headed_begun hrole
  | extending =>
    obtain ⟨p, hp, hfeed⟩ := feed_of_extending hrole
    have hgrown := headed_grown hg hrole (hheld p hp)
    rw [hfeed]
    refine ⟨fun o ho => ?_, fun q hq => ?_⟩
    · rw [List.mem_singleton.1 ho]
      exact hgrown
    · obtain rfl := Option.some.inj hq
      exact hgrown

/-- **A reader that spares kinds gives out drafts with a head only.** -/
theorem headed_feedAll (lines : List Line) (r : Reader) (hg : r.grammar.Spares "kind")
    (hheld : ∀ p ∈ r.pending, p.draft.Headed) :
    (∀ o ∈ (r.feedAll lines).1, o.Headed) ∧ ∀ p ∈ (r.feedAll lines).2.pending, p.draft.Headed := by
  induction lines generalizing r with
  | nil => exact ⟨List.forall_mem_nil _, hheld⟩
  | cons line rest ih =>
    obtain ⟨hout, hnext⟩ := headed_feed hg hheld line
    obtain ⟨hlater, hlast⟩ := ih (r.feed line).2 (by rwa [grammar_feed]) hnext
    rw [feedAll_cons]
    exact ⟨List.forall_mem_append.2 ⟨hout, hlater⟩, hlast⟩

end Reader

/-! ## Drafts with a head -/

/-- A diagnostic with a head makes a report, or none. -/
theorem Draft.Headed.diagnostic? {d : Draft} (h : d.Headed) : ∃ report, d.diagnostic? = .ok report := by
  obtain ⟨kind, hkind⟩ := h.kind
  obtain ⟨text, htext⟩ := h.message
  simp only [Draft.diagnostic?, hkind, htext]
  exact ⟨_, rfl⟩

/-- Whoever makes reports makes one of a draft with a head, or none. -/
theorem Draft.Headed.report {d : Draft} (h : d.Headed) (reporter : Reporter) :
    ∃ report next, reporter.report d = .ok (report, next) := by
  obtain ⟨report, hreport⟩ := h.diagnostic?
  obtain ⟨kind, hkind⟩ := h.kind
  obtain ⟨text, htext⟩ := h.message
  cases reporter with
  | diagnostic => exact ⟨report, _, by simp only [Reporter.report, hreport]; rfl⟩
  | tests run =>
    simp only [Reporter.report, TestRun.report, hkind, htext]
    cases kind <;> simp only [hreport] <;> exact ⟨_, _, rfl⟩

namespace Ledger

/-- **A draft with a head is filed.** -/
theorem add_headed {d : Draft} (h : d.Headed) (watch : Watch) (l : Ledger) :
    ∃ events next, l.add watch d = .ok (events, next) := by
  obtain ⟨kind, hkind⟩ := h.kind
  obtain ⟨text, htext⟩ := h.message
  simp only [add, hkind, htext, bind, Except.bind]
  cases kind.category with
  | fatal => exact ⟨_, _, rfl⟩
  | debug =>
    simp only [Draft.notice, htext, bind, Except.bind]
    cases watch.finished <;> exact ⟨_, _, rfl⟩
  | problem | info =>
    dsimp only
    cases l.reporter with
    | none => exact ⟨_, _, rfl⟩
    | some reporter =>
      obtain ⟨report, next, hreport⟩ := h.report reporter
      simp only [hreport]
      cases report <;> exact ⟨_, _, rfl⟩

/-- A draft with a head can be shown. -/
theorem growing_headed {d : Draft} (h : d.Headed) (watch : Watch) :
    ∃ events, growing watch d = .ok events := by
  obtain ⟨kind, hkind⟩ := h.kind
  simp only [growing, hkind, bind, Except.bind]
  cases watch.growing <;> cases kind.category <;> exact ⟨_, rfl⟩

/-- What becomes of a ledger with something that a reader gives out. -/
def filed (watch : Watch) (l : Ledger) : Outcome → Ledger
  | .flush d true =>
    match l.add watch d with
    | .ok (_, next) => next
    | .error _ => l
  | .flush _ false => l
  | .unrecognized line => l.reject line

/-- What is only shown does not change a ledger. -/
theorem filed_of_not_lasting {o : Outcome} (h : o.shown?.isNone = false) (watch : Watch) (l : Ledger) :
    l.filed watch o = l := by
  cases o with
  | flush d done => cases done with
    | true => simp [Outcome.shown?] at h
    | false => rfl
  | unrecognized line => simp [Outcome.shown?] at h

end Ledger

/-! ## Bringing back -/

/-- A draft brought back to its document; without a resolver it is where it is. -/
def Draft.placed? (resolver : Option Resolver) (d : Draft) : Except Failure Draft :=
  match resolver with
  | some r => r.resolve d
  | none => .ok d

/-- What is brought back keeps its kind. -/
theorem Draft.kind_of_placed? {resolver : Option Resolver} {d e : Draft} (he : d.placed? resolver = .ok e) :
    e.kind = d.kind := by
  cases resolver with
  | none => rw [Except.ok.inj he]
  | some r => exact Draft.kind_congr (r.resolve_get?_of_ne he (by decide))

/-- What is brought back still has a head. -/
theorem Draft.Headed.placed? {resolver : Option Resolver} {d e : Draft} (h : d.Headed)
    (he : d.placed? resolver = .ok e) : e.Headed := by
  refine ⟨by rw [Draft.kind_of_placed? he]; exact h.kind, ?_⟩
  cases resolver with
  | none => exact Except.ok.inj he ▸ h.message
  | some r => exact Resolver.succeeds_message_of_resolve he

namespace Outcome

/-- What is given out, brought back to documents if that can be done. -/
def placed (resolver : Option Resolver) : Outcome → Outcome
  | .flush d done => .flush ((d.placed? resolver).toOption.getD d) done
  | .unrecognized line => .unrecognized line

/-- **What is given out can be brought back**, if it is a draft. -/
def IsPlaced (resolver : Option Resolver) : Outcome → Prop
  | .flush d _ => Succeeds (d.placed? resolver)
  | .unrecognized _ => True

instance (resolver : Option Resolver) (o : Outcome) : Decidable (o.IsPlaced resolver) :=
  match o with
  | .flush d _ => inferInstanceAs (Decidable (Succeeds (d.placed? resolver)))
  | .unrecognized _ => .isTrue trivial

theorem isPlaced_none (o : Outcome) : o.IsPlaced none := by
  cases o with
  | flush d done => exact succeeds_ok d
  | unrecognized line => trivial

@[simp] theorem placed_none (o : Outcome) : o.placed none = o := by
  cases o <;> rfl

theorem Headed.placed {resolver : Option Resolver} {o : Outcome} (h : o.Headed)
    (ho : o.IsPlaced resolver) : (o.placed resolver).Headed := by
  cases o with
  | flush d done =>
    obtain ⟨e, he⟩ := ho
    simp only [Outcome.placed, he]
    exact Draft.Headed.placed? h he
  | unrecognized line => trivial

end Outcome

/-! ## Taking in -/

namespace Intake

variable {i : Intake}

theorem place_snd (i : Intake) (d : Draft) : (i.place d).2 = d.placed? i.resolver := by
  unfold place Draft.placed?
  cases i.resolver <;> rfl

/-- What a reader gives out is filed, and something may be told of it. -/
theorem take_filed (hfailure : i.failure = none) {o : Outcome} (ho : o.Headed)
    (hplaced : o.IsPlaced i.resolver) :
    ∃ events, i.take o =
      { i with events := events, ledger := i.ledger.filed i.watch (o.placed i.resolver) } := by
  have hfiled := ho.placed hplaced
  cases o with
  | unrecognized line =>
    simp only [take, hfailure, Option.isSome_none, Bool.false_eq_true, if_false, withResult]
    exact ⟨_, rfl⟩
  | flush d done =>
    obtain ⟨e, he⟩ := hplaced
    have hplace : i.place d = ((i.place d).1, .ok e) := Prod.ext rfl ((place_snd i d).trans he)
    have htake : i.take (.flush d done) =
        (i.withResult (i.place d).1 (.ok i.ledger)).file e done := by
      rw [take, if_neg (by simp [hfailure]), hplace]
    simp only [Outcome.placed, he, Except.toOption, Option.getD_some] at hfiled ⊢
    rw [htake]
    dsimp only [withResult]
    cases done with
    | true =>
      obtain ⟨events, next, hadd⟩ := Ledger.add_headed hfiled i.watch i.ledger
      simp only [file, if_true, hadd, Ledger.filed, withResult]
      exact ⟨_, rfl⟩
    | false =>
      obtain ⟨events, hgrowing⟩ := Ledger.growing_headed hfiled i.watch
      simp only [file, Bool.false_eq_true, if_false, hgrowing, Ledger.filed, withResult]
      exact ⟨_, rfl⟩

/-- What a reader gives out is filed in order. -/
theorem foldl_take_filed (outcomes : List Outcome) {i : Intake} (hfailure : i.failure = none)
    (houtcomes : ∀ o ∈ outcomes, o.Headed ∧ o.IsPlaced i.resolver) :
    ∃ events, outcomes.foldl take i =
      { i with
        events := events
        ledger := (outcomes.map (·.placed i.resolver)).foldl (Ledger.filed i.watch) i.ledger } := by
  induction outcomes generalizing i with
  | nil => exact ⟨_, rfl⟩
  | cons o outcomes ih =>
    obtain ⟨⟨ho, hplaced⟩, hrest⟩ := List.forall_mem_cons.1 houtcomes
    obtain ⟨events, htake⟩ := take_filed hfailure ho hplaced
    rw [List.foldl_cons, List.map_cons, List.foldl_cons, htake]
    exact ih (i := { i with events := events, ledger := i.ledger.filed i.watch (o.placed i.resolver) })
      hfailure hrest

/-- **An intake files what its reader gives out.** -/
theorem feedAll_filed (lines : List Line) {i : Intake} (hg : i.reader.grammar.Spares "kind")
    (hheld : ∀ p ∈ i.reader.pending, p.draft.Headed) (hfailure : i.failure = none)
    (hplaced : ∀ o ∈ (i.reader.feedAll lines).1, o.IsPlaced i.resolver) :
    ∃ events, i.feedAll lines =
      { i with
        events := events
        reader := (i.reader.feedAll lines).2
        ledger := ((i.reader.feedAll lines).1.map (·.placed i.resolver)).foldl (Ledger.filed i.watch)
          i.ledger } := by
  induction lines generalizing i with
  | nil => exact ⟨_, rfl⟩
  | cons line rest ih =>
    rw [Reader.feedAll_cons] at hplaced
    obtain ⟨hplaced, hlaterplaced⟩ := List.forall_mem_append.1 hplaced
    obtain ⟨hout, hnext⟩ := Reader.headed_feed hg hheld line
    obtain ⟨events, hfeed⟩ : ∃ events, i.feed line =
        { i with
          events := events
          reader := (i.reader.feed line).2
          ledger := ((i.reader.feed line).1.map (·.placed i.resolver)).foldl (Ledger.filed i.watch)
            i.ledger } := by
      have hstart : i.feed line =
          (i.reader.feed line).1.foldl take { i with reader := (i.reader.feed line).2 } := by
        rw [feed, hfailure, if_neg (by simp)]
      rw [hstart]
      exact foldl_take_filed _ hfailure fun o ho => ⟨hout o ho, hplaced o ho⟩
    have hlater := ih (i := i.feed line) (by rw [hfeed]; rwa [Reader.grammar_feed])
      (by rw [hfeed]; exact hnext) (by rw [hfeed]; exact hfailure) (by rw [hfeed]; exact hlaterplaced)
    rw [feedAll, List.foldl_cons]
    rw [feedAll] at hlater
    obtain ⟨later, hlater⟩ := hlater
    refine ⟨later, ?_⟩
    rw [hlater, hfeed, Reader.feedAll_cons, List.map_append, List.foldl_append]

/-- **A whole output is filed**, and what is held in the end with it. -/
theorem close_feedAll_filed (lines : List Line) {i : Intake} (hg : i.reader.grammar.Spares "kind")
    (hheld : ∀ p ∈ i.reader.pending, p.draft.Headed) (hfailure : i.failure = none)
    (hplaced : ∀ o ∈ (i.reader.readAll lines).1, o.IsPlaced i.resolver) :
    ∃ events, (i.feedAll lines).close =
      { i with
        events := events
        reader := (i.reader.readAll lines).2
        ledger := ((i.reader.readAll lines).1.map (·.placed i.resolver)).foldl (Ledger.filed i.watch)
          i.ledger } := by
  obtain ⟨hplaced, hlastplaced⟩ := List.forall_mem_append.1 hplaced
  obtain ⟨events, hfeed⟩ := feedAll_filed lines hg hheld hfailure hplaced
  have hend := (Reader.headed_feedAll lines i.reader hg hheld).2
  obtain ⟨later, hclose⟩ := foldl_take_filed (i.reader.feedAll lines).2.deliver
    (i := { i with
      events := events
      reader := (i.reader.feedAll lines).2.close.2
      ledger := ((i.reader.feedAll lines).1.map (·.placed i.resolver)).foldl (Ledger.filed i.watch)
        i.ledger })
    hfailure fun o ho => ⟨Reader.headed_deliver hend o ho, hlastplaced o ho⟩
  refine ⟨later, ?_⟩
  have hstart : (i.feedAll lines).close = (i.reader.feedAll lines).2.deliver.foldl take
      { i with
        events := events
        reader := (i.reader.feedAll lines).2.close.2
        ledger := ((i.reader.feedAll lines).1.map (·.placed i.resolver)).foldl (Ledger.filed i.watch)
          i.ledger } := by
    rw [hfeed, close, if_neg (by simp [hfailure])]
    rfl
  rw [hstart, hclose, Reader.readAll, List.map_append, List.foldl_append]
  rfl

end Intake

end Fenceline
