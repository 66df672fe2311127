import Fenceline.Proofs.Grammar.Conservation
import Fenceline.Proofs.Grammar.Delivery
import Fenceline.Proofs.Run.Filing

/-!
# What a run fails for

Two things make a run fail: a finished line of the standard error that no rule accounts for, and a fatal
report. Both end in one list of the ledger, in the order in which the reader gives them out; a fatal report
is given out when the next report is opened, or at the end.

**The law** (`complaints_ne_nil_iff`): the list is empty unless a finished line of the standard error was
rejected or a finished line opened a fatal report, whatever parts of lines came in between. It rests on two
facts of what the reader gives out: the unrecognized lines are the rejected ones (`unrecognized_given`), and
the reports have the kinds that they were opened with (`kinds_given`).
-/

namespace Fenceline

/-- What the run fails for, of what is given out. -/
def Outcome.complaint? : Outcome → Option Text
  | .flush d true =>
    match d.kind, d.message with
    | .ok .fatal, .ok message => some message.trimEnd
    | _, _ => none
  | .flush _ false => none
  | .unrecognized line => some line

/-- What the run fails for, in the order in which it is given out. -/
def complaints (given : List Outcome) : List Text :=
  given.filterMap Outcome.complaint?

/-- Only a fatal report is of the fatal category. -/
theorem Kind.category_eq_fatal_iff {kind : Kind} : kind.category = .fatal ↔ kind = .fatal := by
  cases kind <;> decide

namespace Outcome

theorem complaint?_fatal {d : Draft} {text : Text} (hkind : d.kind = .ok .fatal)
    (htext : d.message = .ok text) : complaint? (.flush d true) = some text.trimEnd := by
  simp only [complaint?, hkind, htext]

theorem complaint?_other {d : Draft} {kind : Kind} (hkind : d.kind = .ok kind) (hother : kind ≠ .fatal) :
    complaint? (.flush d true) = none := by
  simp only [complaint?, hkind]
  split
  · rename_i hfatal _
    exact absurd (Except.ok.inj hfatal) hother
  · rfl

end Outcome

namespace Ledger

variable {watch : Watch} {l next : Ledger} {d : Draft} {events : List Event}

theorem unrecognized_of_add_fatal {text : Text} (hkind : d.kind = .ok .fatal)
    (htext : d.message = .ok text) (h : l.add watch d = .ok (events, next)) :
    next.unrecognized = l.unrecognized ++ [text.trimEnd] := by
  simp only [add, hkind, htext, bind, Except.bind, Kind.category] at h
  cases h
  rfl

theorem unrecognized_of_add_other {kind : Kind} (hkind : d.kind = .ok kind) (hother : kind ≠ .fatal)
    (h : l.add watch d = .ok (events, next)) : next.unrecognized = l.unrecognized := by
  obtain ⟨kind', hkind', h⟩ := bind_eq_ok.1 h
  obtain rfl := Except.ok.inj (hkind.symm.trans hkind')
  dsimp only at h
  split at h
  · rename_i hfatal
    exact absurd (Kind.category_eq_fatal_iff.1 hfatal) hother
  · split at h
    · obtain ⟨notice, _, h⟩ := bind_eq_ok.1 h
      cases h
      rfl
    · cases h
      rfl
  all_goals
    split at h
    · obtain ⟨message, _, h⟩ := bind_eq_ok.1 h
      cases h
      rfl
    · obtain ⟨⟨report, reporter⟩, _, h⟩ := bind_eq_ok.1 h
      cases report <;> cases h <;> rfl

/-- **What is filed adds its complaint**, if it has one. -/
theorem unrecognized_filed {o : Outcome} (h : o.Headed) (watch : Watch) (l : Ledger) :
    (l.filed watch o).unrecognized = l.unrecognized ++ o.complaint?.toList := by
  cases o with
  | unrecognized line => rfl
  | flush d done =>
    cases done with
    | false => exact (List.append_nil _).symm
    | true =>
      obtain ⟨kind, hkind⟩ := h.kind
      obtain ⟨text, htext⟩ := h.message
      obtain ⟨events, next, hadd⟩ := add_headed h watch l
      have hfiled : l.filed watch (.flush d true) = next := by simp only [filed, hadd]
      rw [hfiled]
      by_cases hfatal : kind = .fatal
      · subst hfatal
        rw [Outcome.complaint?_fatal hkind htext]
        exact unrecognized_of_add_fatal hkind htext hadd
      · rw [Outcome.complaint?_other hkind hfatal, Option.toList_none, List.append_nil]
        exact unrecognized_of_add_other hkind hfatal hadd

/-- **The list that a run fails with** grows by the complaints of what is given out. -/
theorem unrecognized_foldl_filed (given : List Outcome) (h : ∀ o ∈ given, o.Headed) (watch : Watch)
    (l : Ledger) :
    (given.foldl (filed watch) l).unrecognized = l.unrecognized ++ complaints given := by
  induction given generalizing l with
  | nil => exact (List.append_nil _).symm
  | cons o given ih =>
    obtain ⟨ho, hrest⟩ := List.forall_mem_cons.1 h
    rw [List.foldl_cons, ih hrest, unrecognized_filed ho, List.append_assoc]
    cases hcomplaint : o.complaint? <;> simp [complaints, hcomplaint]

end Ledger

/-! ## What the complaints come from -/

namespace Reader

/-- What a whole output gives, brought back to documents where that can be done. -/
def given (r : Reader) (resolver : Option Resolver) (lines : List Line) : List Outcome :=
  (r.readAll lines).1.map (·.placed resolver)

variable {r : Reader} {resolver : Option Resolver} {lines : List Line}

/-- **What a run fails for**: a finished line of the standard error that no rule accounts for, or a finished
line that opens a fatal report. -/
def IsFault (m : Role × Line) : Prop :=
  m.2.final = true ∧ (m.1 = .rejected ∧ m.2.stream = .stderr ∨ m.1 = .opening .fatal)

instance (m : Role × Line) : Decidable (IsFault m) :=
  inferInstanceAs (Decidable (_ ∧ (_ ∧ _ ∨ _)))

/-- What is given out has a head if everything can be brought back. -/
theorem headed_given (hg : r.grammar.Spares "kind") (hnew : r.pending = none)
    (hplaced : ∀ o ∈ (r.readAll lines).1, o.IsPlaced resolver) : ∀ o ∈ r.given resolver lines, o.Headed := by
  obtain ⟨hout, hend⟩ := headed_feedAll lines r hg (by simp [hnew])
  intro placed hplacedmem
  obtain ⟨o, ho, rfl⟩ := List.mem_map.1 hplacedmem
  refine Outcome.Headed.placed ?_ (hplaced o ho)
  rcases List.mem_append.1 ho with ho | ho
  · exact hout o ho
  · exact headed_deliver hend o ho

/-- **The unrecognized lines are the rejected ones.** -/
theorem unrecognized_given (r : Reader) (resolver : Option Resolver) (lines : List Line) :
    (r.given resolver lines).filterMap Outcome.unrecognized? =
      rejectedTexts ((r.marked lines).filter (·.2.final)) := by
  have hsame : Outcome.unrecognized? ∘ Outcome.placed resolver = Outcome.unrecognized? := by
    funext o
    cases o <;> rfl
  rw [given, List.filterMap_map, hsame, unrecognized_readAll]

theorem settled?_placed (resolver : Option Resolver) (o : Outcome) :
    (o.placed resolver).settled? = o.settled?.map fun d => (d.placed? resolver).toOption.getD d := by
  rcases o with ⟨d, _ | _⟩ | line <;> rfl

/-- **The reports have the kinds that they were opened with.** -/
theorem kinds_given (hg : r.grammar.Spares "kind") (hnew : r.pending = none) (resolver : Option Resolver)
    (lines : List Line) :
    ((r.given resolver lines).filterMap Outcome.settled?).map Draft.kind =
      (openings (r.marked lines)).map fun o => .ok o.1 := by
  have hkind : ∀ d : Draft, ((d.placed? resolver).toOption.getD d).kind = d.kind := by
    intro d
    cases he : d.placed? resolver with
    | error failure => rfl
    | ok e => exact Draft.kind_of_placed? he
  have hplaced : ((r.given resolver lines).filterMap Outcome.settled?).map Draft.kind =
      ((r.readAll lines).1.filterMap Outcome.settled?).map Draft.kind := by
    simp only [given, List.filterMap_map, Function.comp_def, settled?_placed, List.map_filterMap,
      Option.map_map, hkind]
  have hheld : List.Forall₂ (fun (o : Kind × Line) d => d.get? "kind" = some o.1.name.toList) [] r.held := by
    rw [held_eq, hnew]
    exact .nil
  have hkinds := forall₂_readAll lines r (persists_kind hg) hheld
  rw [hplaced, ← List.forall₂_eq_eq_eq, List.forall₂_map_left_iff, List.forall₂_map_right_iff]
  exact hkinds.flip.imp fun d o hd => Draft.kind_of_get? hd

/-- There is a complaint just if there is an unrecognized line or a fatal report. -/
theorem complaints_ne_nil_of_headed {outcomes : List Outcome} (h : ∀ o ∈ outcomes, o.Headed) :
    complaints outcomes ≠ [] ↔ outcomes.filterMap Outcome.unrecognized? ≠ [] ∨
      .ok .fatal ∈ (outcomes.filterMap Outcome.settled?).map Draft.kind := by
  induction outcomes with
  | nil => simp [complaints]
  | cons o outcomes ih =>
    obtain ⟨ho, hrest⟩ := List.forall_mem_cons.1 h
    have ih := ih hrest
    simp only [complaints, List.filterMap_cons] at ih ⊢
    rcases o with ⟨d, _ | _⟩ | line
    · exact ih
    · obtain ⟨kind, hkind⟩ := ho.kind
      obtain ⟨text, htext⟩ := ho.message
      by_cases hfatal : kind = .fatal
      · subst hfatal
        rw [Outcome.complaint?_fatal hkind htext]
        simp [Outcome.settled?, hkind]
      · rw [Outcome.complaint?_other hkind hfatal]
        simp only [Outcome.settled?, Outcome.unrecognized?, List.map_cons, hkind, List.mem_cons, ih]
        simp [Ne.symm hfatal]
    · simp [Outcome.complaint?, Outcome.unrecognized?]

theorem rejectedTexts_ne_nil_iff {marked : List (Role × Line)} :
    rejectedTexts (marked.filter (·.2.final)) ≠ [] ↔
      ∃ m ∈ marked, m.2.final = true ∧ m.1 = .rejected ∧ m.2.stream = .stderr := by
  constructor
  · intro h
    obtain ⟨text, htext⟩ := List.exists_mem_of_ne_nil _ h
    obtain ⟨m, hm, rfl⟩ := List.mem_map.1 htext
    obtain ⟨hm, hrejected⟩ := List.mem_filter.1 hm
    obtain ⟨hm, hfinal⟩ := List.mem_filter.1 hm
    exact ⟨m, hm, hfinal, by simpa using hrejected⟩
  · rintro ⟨m, hm, hfinal, hrole, hstream⟩
    refine List.ne_nil_of_mem (a := m.2.said) (List.mem_map.2 ⟨m, ?_, rfl⟩)
    exact List.mem_filter.2 ⟨List.mem_filter.2 ⟨hm, hfinal⟩, by simp [hrole, hstream]⟩

theorem mem_openings_iff {marked : List (Role × Line)} {kind : Kind} :
    kind ∈ (openings marked).map (·.1) ↔ ∃ m ∈ marked, m.2.final = true ∧ m.1 = .opening kind := by
  constructor
  · intro h
    obtain ⟨o, ho, rfl⟩ := List.mem_map.1 h
    obtain ⟨⟨role, line⟩, hm, hopens⟩ := List.mem_filterMap.1 ho
    cases hfinal : line.final with
    | false => simp [hfinal] at hopens
    | true =>
      cases role <;> simp [hfinal, Role.kind?] at hopens
      subst hopens
      exact ⟨_, hm, hfinal, rfl⟩
  · rintro ⟨⟨role, line⟩, hm, hfinal, hrole⟩
    dsimp only at hfinal hrole
    subst hrole
    exact List.mem_map.2 ⟨(kind, line), List.mem_filterMap.2 ⟨_, hm, by simp [hfinal, Role.kind?]⟩, rfl⟩

/-- **A run has something to fail for just if there is a fault in what it read.** -/
theorem complaints_ne_nil_iff (hg : r.grammar.Spares "kind") (hnew : r.pending = none)
    (hplaced : ∀ o ∈ (r.readAll lines).1, o.IsPlaced resolver) :
    complaints (r.given resolver lines) ≠ [] ↔ ∃ m ∈ r.marked lines, IsFault m := by
  rw [complaints_ne_nil_of_headed (headed_given hg hnew hplaced), unrecognized_given,
    kinds_given hg hnew, rejectedTexts_ne_nil_iff]
  have hfatal : (.ok .fatal : Except Failure Kind) ∈ ((openings (r.marked lines)).map fun o => .ok o.1) ↔
      Kind.fatal ∈ (openings (r.marked lines)).map (·.1) := by
    simp only [List.mem_map, Except.ok.injEq]
  rw [hfatal, mem_openings_iff]
  simp only [IsFault, and_or_left, exists_or]

end Reader

end Fenceline
