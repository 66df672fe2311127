import Fenceline.Proofs.Line.Whole
import Fenceline.Transcript
import Mathlib.Data.List.Nodup
import Mathlib.Data.List.Perm.Subperm
import Mathlib.Logic.Function.Basic
import Mathlib.Logic.Relation

/-!
# Two streams in one queue

Every stream has a reader of its own, which decodes and splits what it reads and puts the lines into a queue that
the readers share. Behind its last line a reader puts that it is done, and if a read fails, it puts that first. Who
merges the streams takes from the queue until all readers are done or a read has failed. The readers and the merger
take their steps in any order (`Step`); all that is assumed of the queue is that it keeps its order.

**The laws.** `Sound.step`: what was taken of a stream, what of it is in the queue and what its reader has yet to tell
is what the reader had to tell when it began, so nothing is lost, doubled or moved (`sound_of_reaches`: on every run).
What has arrived in the queue stays as it is (`arrived_isPrefix_of_reaches`). `exists_step`: while the merger waits,
somebody can go on, and every step leaves less to do (`wellFounded_step`). When the merger stops it has taken all that
the readers tell (`told_of_stopped`) or a failure, last (`taken_of_failed`).
-/

namespace Fenceline

namespace Merge

/-- What is put into the queue: a line, that a read failed, or that a reader is done. -/
inductive Message where
  | line (l : Line)
  | failed (message : Text)
  | done
  deriving DecidableEq

/-- The line that a message is. -/
def Message.line? : Message → Option Line
  | line l => some l
  | failed _ => none
  | done => none

/-- Why a read failed, if that is the message. -/
def Message.failed? : Message → Option Text
  | failed message => some message
  | line _ => none
  | done => none

/-! ## The readers -/

/-- The reader of a stream: how far it has split the stream, what its reads are going to give, what it has split
already and has yet to put into the queue, and whether it will read no more. -/
structure Pump where
  splitter : Splitter
  unread : List (Except Text Bytes) := []
  ready : List Message := []
  closed : Bool := false

/-- What is told of reads: the lines of each, and those of the end, or that a read failed. -/
def tell (s : Splitter) : List (Except Text Bytes) → List Message
  | [] => s.close.1.map .line ++ [.done]
  | .ok piece :: rest => (s.feed piece).1.map .line ++ tell (s.feed piece).2 rest
  | .error message :: _ => [.failed message, .done]

namespace Pump

/-- **One read**, or the end. -/
def advance (p : Pump) : Pump :=
  match p.unread with
  | [] => { p with ready := p.splitter.close.1.map .line ++ [.done], closed := true }
  | .ok piece :: rest =>
    { p with splitter := (p.splitter.feed piece).2, unread := rest, ready := (p.splitter.feed piece).1.map .line }
  | .error message :: rest => { p with unread := rest, ready := [.failed message, .done], closed := true }

/-- What a reader has yet to tell. -/
def told (p : Pump) : List Message :=
  p.ready ++ if p.closed then [] else tell p.splitter p.unread

/-- A read changes nothing about what is to be told. -/
theorem told_advance {p : Pump} (hready : p.ready = []) (hopen : p.closed = false) : p.advance.told = p.told := by
  unfold told
  rw [hready, hopen]
  unfold advance
  rcases p.unread with _ | ⟨_ | _, _⟩ <;> simp [tell, hopen]

end Pump

/-- What is told ends with the message that the reader is done, and this is told once. -/
theorem tell_eq_concat (s : Splitter) (reads : List (Except Text Bytes)) :
    ∃ body, .done ∉ body ∧ tell s reads = body ++ [.done] := by
  induction reads generalizing s with
  | nil => exact ⟨_, by simp, rfl⟩
  | cons read rest ih =>
    cases read with
    | error message => exact ⟨[.failed message], by simp, rfl⟩
    | ok piece =>
      obtain ⟨body, hbody, htell⟩ := ih (s.feed piece).2
      refine ⟨(s.feed piece).1.map .line ++ body, by simp [hbody], ?_⟩
      rw [tell, htell, List.append_assoc]

/-- Of a stream that can be read all lines are told. -/
theorem tell_ok (s : Splitter) (pieces : List Bytes) :
    tell s (pieces.map .ok) = (s.read pieces).map .line ++ [.done] := by
  induction pieces generalizing s with
  | nil => rfl
  | cons piece rest ih => rw [List.map_cons, tell, ih, Splitter.read, List.map_append, List.append_assoc]

/-- Of a stream that cannot be read to its end the lines before the failure are told. -/
theorem tell_error (s : Splitter) (pieces : List Bytes) (message : Text) (rest : List (Except Text Bytes)) :
    tell s (pieces.map .ok ++ .error message :: rest) =
      (s.feedAll pieces).1.map .line ++ [.failed message, .done] := by
  induction pieces generalizing s with
  | nil => rfl
  | cons piece pieces ih =>
    rw [List.map_cons, List.cons_append, tell, ih, Splitter.feedAll, List.map_append, List.append_assoc]

/-- The lines that are told of a stream are lines of the stream. -/
theorem stream_of_line_mem_tell {s : Splitter} {reads : List (Except Text Bytes)} {l : Line}
    (h : .line l ∈ tell s reads) : l.stream = s.stream := by
  induction reads generalizing s with
  | nil =>
    simp only [tell, List.mem_append, List.mem_map, Message.line.injEq, exists_eq_right, List.mem_singleton,
      reduceCtorEq, or_false] at h
    exact Splitter.stream_of_mem_close h
  | cons read rest ih =>
    cases read with
    | error message => simp [tell] at h
    | ok piece =>
      simp only [tell, List.mem_append, List.mem_map, Message.line.injEq, exists_eq_right] at h
      exact h.elim Splitter.stream_of_mem_feed ih

/-! ## The queue -/

/-- The readers, the queue, and what the merger has taken from it. -/
structure State where
  pumps : Stream → Pump
  queue : List (Stream × Message) := []
  taken : List (Stream × Message) := []

/-- What has come into the queue, in the order in which it came. -/
def State.arrived (x : State) : List (Stream × Message) :=
  x.taken ++ x.queue

/-- The messages of a stream. -/
def on (s : Stream) (messages : List (Stream × Message)) : List Message :=
  (messages.filter (·.1 = s)).map (·.2)

variable {streams : List Stream} {s : Stream} {m : Message} {x y x₀ : State} {taken : List (Stream × Message)}

@[simp] theorem on_nil : on s [] = [] := rfl

@[simp] theorem on_append (a b : List (Stream × Message)) : on s (a ++ b) = on s a ++ on s b := by
  simp [on]

theorem on_cons (s t : Stream) (m : Message) (rest : List (Stream × Message)) :
    on s ((t, m) :: rest) = if t = s then m :: on s rest else on s rest := by
  by_cases h : t = s <;> simp [on, h]

@[simp] theorem on_singleton_self (m : Message) : on s [(s, m)] = [m] := by
  simp [on]

theorem on_singleton_of_ne {t : Stream} (h : t ≠ s) (m : Message) : on s [(t, m)] = [] := by
  simp [on, h]

theorem mem_on_iff {messages : List (Stream × Message)} : m ∈ on s messages ↔ (s, m) ∈ messages := by
  simp [on]

/-- **The merger waits** until a read has failed or all readers are done. -/
def Waiting (streams : List Stream) (taken : List (Stream × Message)) : Prop :=
  (∀ m ∈ taken, m.2.failed? = none) ∧ (taken.filter (·.2 = .done)).length < streams.length

/-- **One step**: a reader reads, or puts a message into the queue, or the merger takes the first message. -/
inductive Step (streams : List Stream) : State → State → Prop
  | read {x : State} (s : Stream) (hready : (x.pumps s).ready = []) (hopen : (x.pumps s).closed = false) :
      Step streams x { x with pumps := Function.update x.pumps s (x.pumps s).advance }
  | put {x : State} (s : Stream) {m : Message} {rest : List Message} (hready : (x.pumps s).ready = m :: rest) :
      Step streams x
        { x with
          pumps := Function.update x.pumps s { x.pumps s with ready := rest }
          queue := x.queue ++ [(s, m)] }
  | take {x : State} {m : Stream × Message} {rest : List (Stream × Message)} (hwaiting : Waiting streams x.taken)
      (hqueue : x.queue = m :: rest) : Step streams x { x with queue := rest, taken := x.taken ++ [m] }

/-- Any number of steps. -/
abbrev Reaches (streams : List Stream) : State → State → Prop :=
  Relation.ReflTransGen (Step streams)

/-- **What is kept of a beginning**: what is told of each stream, and that the merger takes only while it waits. -/
structure Sound (streams : List Stream) (x₀ x : State) : Prop where
  told : ∀ s, on s x.arrived ++ (x.pumps s).told = (x₀.pumps s).told
  waited : ∀ front m back, x.taken = front ++ m :: back → Waiting streams front

/-- A beginning, of which nothing is taken yet. -/
theorem sound_refl (hqueue : x.queue = []) (htaken : x.taken = []) : Sound streams x x where
  told s := by simp [State.arrived, hqueue, htaken]
  waited front m back h := by simp [htaken] at h

/-- **A step keeps what is told.** -/
theorem Sound.step (h : Sound streams x₀ x) (hstep : Step streams x y) : Sound streams x₀ y := by
  cases hstep with
  | read s hready hopen =>
    refine ⟨fun t => ?_, h.waited⟩
    rw [← h.told t]
    by_cases ht : t = s
    · subst ht
      simp only [State.arrived, Function.update_self, Pump.told_advance hready hopen]
    · simp only [State.arrived, Function.update_of_ne ht]
  | @put s m rest hready =>
    refine ⟨fun t => ?_, h.waited⟩
    rw [← h.told t]
    by_cases ht : t = s
    · subst ht
      simp [State.arrived, Function.update_self, Pump.told, hready]
    · simp [State.arrived, Function.update_of_ne ht, on_singleton_of_ne (Ne.symm ht)]
  | @take m rest hwaiting hqueue =>
    refine ⟨fun t => ?_, fun front m' back heq => ?_⟩
    · rw [← h.told t]
      simp [State.arrived, hqueue]
    · -- the last message was taken just now, while the merger waited, and any other one before
      rcases List.eq_nil_or_concat' back with rfl | ⟨back, last, rfl⟩
      · obtain ⟨rfl, -⟩ := List.append_inj' heq rfl
        exact hwaiting
      · have heq : x.taken ++ [m] = (front ++ m' :: back) ++ [last] := by simpa using heq
        exact h.waited front m' back (List.append_inj' heq rfl).1

/-- **A run keeps what is told.** -/
theorem sound_of_reaches (hsound : Sound streams x₀ x) (h : Reaches streams x y) : Sound streams x₀ y := by
  induction h with
  | refl => exact hsound
  | tail _ hstep ih => exact ih.step hstep

theorem Step.arrived_isPrefix (hstep : Step streams x y) : x.arrived <+: y.arrived := by
  cases hstep with
  | read s hready hopen => exact List.prefix_rfl
  | @put s m rest hready => exact ⟨[(s, m)], by simp [State.arrived]⟩
  | @take m rest hwaiting hqueue => exact ⟨[], by simp [State.arrived, hqueue]⟩

/-- **What has arrived stays as it is**, and more comes behind it. -/
theorem arrived_isPrefix_of_reaches (h : Reaches streams x y) : x.arrived <+: y.arrived := by
  induction h with
  | refl => exact List.prefix_rfl
  | tail _ hstep ih => exact ih.trans hstep.arrived_isPrefix

/-- **A beginning**: a reader that has read nothing for each stream that there is. -/
def start (streams : List Stream) (reads : Stream → List (Except Text Bytes)) : State where
  pumps s := { splitter := { stream := s }, unread := reads s, closed := !streams.contains s }

variable {reads : Stream → List (Except Text Bytes)}

theorem told_start (hs : s ∈ streams) : ((start streams reads).pumps s).told = tell { stream := s } (reads s) := by
  simp [start, Pump.told, hs]

theorem told_start_of_not_mem (hs : s ∉ streams) : ((start streams reads).pumps s).told = [] := by
  simp [start, Pump.told, hs]

/-- A run from the beginning. -/
theorem sound_of_reaches_start (h : Reaches streams (start streams reads) x) :
    Sound streams (start streams reads) x :=
  sound_of_reaches (sound_refl rfl rfl) h

namespace Sound

/-- What is taken of a stream is the first of what is told of it. -/
theorem on_taken_isPrefix (h : Sound streams x₀ x) (s : Stream) : on s x.taken <+: (x₀.pumps s).told := by
  rw [← h.told s, State.arrived, on_append, List.append_assoc]
  exact List.prefix_append _ _

/-- Messages come only from streams that there are. -/
theorem mem_of_mem_taken (h : Sound streams (start streams reads) x) (hm : (s, m) ∈ x.taken) : s ∈ streams := by
  by_contra hs
  have hfirst := h.on_taken_isPrefix s
  rw [told_start_of_not_mem hs, List.prefix_nil] at hfirst
  have hmem := mem_on_iff.2 hm
  rw [hfirst] at hmem
  cases hmem

/-- A reader that is done is taken to be done when all is taken that it tells. -/
theorem done_mem_iff (h : Sound streams (start streams reads) x) (hs : s ∈ streams) :
    .done ∈ on s x.taken ↔ on s x.taken = tell { stream := s } (reads s) := by
  obtain ⟨body, hbody, htell⟩ := tell_eq_concat { stream := s } (reads s)
  have hfirst := h.on_taken_isPrefix s
  rw [told_start hs, htell, List.prefix_concat_iff] at hfirst
  rw [htell]
  constructor
  · intro hdone
    exact hfirst.resolve_right fun hshort => hbody (hshort.subset hdone)
  · intro hall
    rw [hall]
    exact List.mem_append_right _ List.mem_cons_self

end Sound

/-! ## When the merger stops -/

/-- The streams whose readers are done, as far as the merger knows. -/
def ended (taken : List (Stream × Message)) : List Stream :=
  (taken.filter (·.2 = .done)).map (·.1)

theorem mem_ended_iff : s ∈ ended taken ↔ .done ∈ on s taken := by
  simp [ended, mem_on_iff]

theorem count_ended (s : Stream) (taken : List (Stream × Message)) :
    (ended taken).count s = (on s taken).count .done := by
  simp only [ended, on, List.count, List.countP_map, List.countP_filter]
  congr 1
  funext m
  simp [Bool.and_comm, beq_eq_decide]

namespace Sound

/-- A reader is done once. -/
theorem nodup_ended (h : Sound streams (start streams reads) x) : (ended x.taken).Nodup := by
  refine List.nodup_iff_count_le_one.2 fun s => ?_
  rw [count_ended]
  by_cases hs : s ∈ streams
  · obtain ⟨body, hbody, htell⟩ := tell_eq_concat { stream := s } (reads s)
    have hfirst := h.on_taken_isPrefix s
    rw [told_start hs, htell] at hfirst
    refine Nat.le_trans (hfirst.sublist.count_le _) ?_
    rw [List.count_append, List.count_eq_zero.2 hbody]
    decide
  · have hfirst := h.on_taken_isPrefix s
    rw [told_start_of_not_mem hs, List.prefix_nil] at hfirst
    rw [hfirst]
    exact Nat.zero_le _

theorem ended_subset (h : Sound streams (start streams reads) x) : ended x.taken ⊆ streams := by
  intro s hs
  exact h.mem_of_mem_taken (mem_on_iff.1 (mem_ended_iff.1 hs))

/-- **A merger that stops without a failure has taken all that the readers tell.** -/
theorem told_of_stopped (h : Sound streams (start streams reads) x) (hstopped : ¬ Waiting streams x.taken)
    (hread : ∀ m ∈ x.taken, m.2.failed? = none) (hs : s ∈ streams) :
    on s x.taken = tell { stream := s } (reads s) := by
  have hlength : streams.length ≤ (ended x.taken).length := by
    rw [ended, List.length_map]
    exact Nat.le_of_not_lt fun hlt => hstopped ⟨hread, hlt⟩
  -- every reader is done once, so as many as there are readers are all of them
  have hperm := (List.subperm_of_subset h.nodup_ended h.ended_subset).perm_of_length_le hlength
  exact (h.done_mem_iff hs).1 (mem_ended_iff.1 (hperm.mem_iff.2 hs))

/-- **A failure is the last message that is taken**, and the only one. -/
theorem taken_of_failed (h : Sound streams x₀ x) (hm : m.failed? ≠ none) (hmem : (s, m) ∈ x.taken) :
    ∃ front, x.taken = front ++ [(s, m)] ∧ ∀ m ∈ front, m.2.failed? = none := by
  obtain ⟨front, back, htaken⟩ := List.append_of_mem hmem
  have hfront := h.waited front (s, m) back htaken
  cases back with
  | nil => exact ⟨front, htaken, hfront.1⟩
  | cons next back =>
    have hwaited := h.waited (front ++ [(s, m)]) next back (by simpa using htaken)
    exact absurd (hwaited.1 (s, m) (by simp)) hm

/-! ## Progress -/

/-- A merger that has taken all that there is to tell stops. -/
theorem stopped_of_told (h : Sound streams (start streams reads) x) (hstreams : streams.Nodup)
    (hqueue : x.queue = []) (htold : ∀ s, (x.pumps s).told = []) : ¬ Waiting streams x.taken := by
  rintro ⟨-, hlt⟩
  have hended : streams ⊆ ended x.taken := by
    intro s hs
    have hall := h.told s
    rw [State.arrived, hqueue, htold s, List.append_nil, List.append_nil, told_start hs] at hall
    exact mem_ended_iff.2 ((h.done_mem_iff hs).2 hall)
  have hlength := (List.subperm_of_subset hstreams hended).length_le
  rw [ended, List.length_map] at hlength
  exact absurd hlt (Nat.not_lt.2 hlength)

/-- A merger that has not taken all that there is to tell, and no failure, waits. -/
theorem waiting_of_told (h : Sound streams (start streams reads) x) (hread : ∀ m ∈ x.taken, m.2.failed? = none)
    (hs : s ∈ streams) (hleft : on s x.queue ++ (x.pumps s).told ≠ []) : Waiting streams x.taken := by
  by_contra hstopped
  have hall := h.told s
  rw [told_start hs, ← h.told_of_stopped hstopped hread hs, State.arrived, on_append, List.append_assoc] at hall
  exact hleft (List.append_right_eq_self.1 hall)

/-- **While the merger waits, somebody can go on.** -/
theorem exists_step (h : Sound streams (start streams reads) x) (hstreams : streams.Nodup)
    (hwaiting : Waiting streams x.taken) : ∃ y, Step streams x y := by
  by_contra hnone
  have hqueue : x.queue = [] := by
    cases hqueue : x.queue with
    | nil => rfl
    | cons m rest => exact absurd ⟨_, .take hwaiting hqueue⟩ hnone
  refine h.stopped_of_told hstreams hqueue (fun s => ?_) hwaiting
  cases hready : (x.pumps s).ready with
  | cons m rest => exact absurd ⟨_, .put s hready⟩ hnone
  | nil =>
    cases hopen : (x.pumps s).closed with
    | false => exact absurd ⟨_, .read s hready hopen⟩ hnone
    | true => simp [Pump.told, hready, hopen]

end Sound

/-- What a reader has left to do: two steps for each message that it tells, one for each read, and the end. -/
def Pump.work (p : Pump) : Nat :=
  2 * p.told.length + p.unread.length + if p.closed then 0 else 1

/-- What is left to do. -/
def State.work (x : State) : Nat :=
  (x.pumps .stdout).work + (x.pumps .stderr).work + x.queue.length

theorem Pump.work_advance {p : Pump} (hready : p.ready = []) (hopen : p.closed = false) : p.advance.work < p.work := by
  unfold work
  rw [told_advance hready hopen]
  unfold advance
  cases p.unread with
  | nil => simp [hopen]
  | cons read rest =>
    cases read with
    | ok piece => simp [hopen]
    | error message =>
      simp only [hopen, List.length_cons, if_true, Bool.false_eq_true, if_false]
      omega

theorem Pump.work_put {p : Pump} {rest : List Message} (hready : p.ready = m :: rest) :
    ({ p with ready := rest } : Pump).work + 1 < p.work := by
  simp only [work, told, hready, List.cons_append, List.length_cons]
  omega

/-- **Every step leaves less to do.** -/
theorem work_lt (hstep : Step streams x y) : y.work < x.work := by
  cases hstep with
  | read s hready hopen =>
    have hless := Pump.work_advance hready hopen
    cases s <;> simp [State.work, Function.update] <;> omega
  | @put s m rest hready =>
    have hless := Pump.work_put hready
    cases s <;> simp [State.work, Function.update] <;> omega
  | @take m rest hwaiting hqueue => simp [State.work, hqueue]

/-- **Nobody goes on for ever.** -/
theorem wellFounded_step (streams : List Stream) : WellFounded fun y x => Step streams x y :=
  Subrelation.wf (fun hstep => work_lt hstep) (measure State.work).wf

end Merge

end Fenceline
