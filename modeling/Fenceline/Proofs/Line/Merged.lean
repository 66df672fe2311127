import Fenceline.Proofs.Line.Merging

/-!
# What comes out of the queue

The lines that the merger gives out belong to their streams whatever the other stream does: of each they are those of
a splitter that reads this stream alone (`Whole`), up to the failure if a read fails (`Broken`). A transcript is the
run in which every read is handed over at once (`exists_run`).

**The law** (`merged`): every run that stops has given out each stream whole, or all that came before the failure.
-/

namespace Fenceline

namespace Transcript

/-- The bytes of an item. -/
def Item.bytes : Item → Bytes
  | chunk _ bytes => bytes
  | failure _ _ => []

/-- Why a read failed, if one did. -/
def Item.failed? : Item → Option Text
  | chunk _ _ => none
  | failure _ message => some message

/-- **The pieces in which a stream is read.** -/
def pieces (size : Nat) (s : Stream) (items : List Item) : List Bytes :=
  (items.filter (·.stream = s)).flatMap fun i => reads size i.bytes

/-- The bytes of a stream. -/
def bytesOf (s : Stream) (items : List Item) : Bytes :=
  (items.filter (·.stream = s)).flatMap (·.bytes)

/-- What the reads of an item give. -/
def Item.reads (size : Nat) : Item → List (Except Text Bytes)
  | chunk _ bytes => (Transcript.reads size bytes).map .ok
  | failure _ message => [.error message]

/-- What the reads of a stream give. -/
def readsOf (size : Nat) (items : List Item) (s : Stream) : List (Except Text Bytes) :=
  (items.filter (·.stream = s)).flatMap (Item.reads size)

variable {size : Nat} {items before after : List Item} {s : Stream} {message : Text}

/-! ## Pieces -/

theorem reads_nil (size : Nat) : reads size [] = [] := by
  rw [reads, if_neg fun h => h.2 rfl]

/-- Cut into reads, bytes are still the same. -/
theorem flatten_reads (hsize : 0 < size) (bytes : Bytes) : (reads size bytes).flatten = bytes := by
  fun_induction reads size bytes with
  | case1 bytes h ih => rw [List.flatten_cons, ih, List.take_append_drop]
  | case2 bytes h =>
    have hbytes : bytes = [] := by
      by_contra hne
      exact h ⟨hsize, hne⟩
    exact hbytes.symm

/-- Bytes that fit into a read are one piece, if there are any. -/
theorem reads_of_length_le {bytes : Bytes} (h : bytes.length ≤ size) :
    reads size bytes = [bytes].filter (· ≠ []) := by
  by_cases hbytes : bytes = []
  · rw [hbytes, reads_nil]
    rfl
  · have hsize : 0 < size := Nat.lt_of_lt_of_le (List.length_pos_iff.2 hbytes) h
    rw [reads, if_pos ⟨hsize, hbytes⟩, List.take_of_length_le h, List.drop_of_length_le h, reads_nil]
    simp [hbytes]

/-- The pieces of a stream whose items fit into a read are its items that are not empty. -/
theorem pieces_of_length_le (h : ∀ i ∈ items, i.bytes.length ≤ size) :
    pieces size s items = ((items.filter (·.stream = s)).map (·.bytes)).filter (· ≠ []) := by
  unfold pieces
  induction items with
  | nil => rfl
  | cons i rest ih =>
    obtain ⟨hi, hrest⟩ := List.forall_mem_cons.1 h
    rw [List.filter_cons]
    split
    · rw [List.flatMap_cons, reads_of_length_le hi, ih hrest, List.map_cons, ← List.filter_append,
        List.singleton_append]
    · exact ih hrest

theorem flatten_pieces (hsize : 0 < size) (s : Stream) (items : List Item) :
    (pieces size s items).flatten = bytesOf s items := by
  unfold pieces bytesOf
  induction items.filter (·.stream = s) with
  | nil => rfl
  | cons i rest ih => rw [List.flatMap_cons, List.flatten_append, flatten_reads hsize, ih, List.flatMap_cons]

/-- The reads of a stream of which no read fails give its pieces. -/
theorem readsOf_of_read (h : ∀ i ∈ items, i.stream = s → i.failed? = none) :
    readsOf size items s = (pieces size s items).map .ok := by
  unfold readsOf pieces
  induction items with
  | nil => rfl
  | cons i rest ih =>
    obtain ⟨hi, hrest⟩ := List.forall_mem_cons.1 h
    rw [List.filter_cons]
    split
    · rename_i hs
      rw [List.flatMap_cons, ih hrest, List.flatMap_cons, List.map_append]
      cases i with
      | chunk t bytes => rfl
      | failure t message => cases hi (of_decide_eq_true hs)
    · exact ih hrest

theorem readsOf_of_failure (h : ∀ i ∈ before, i.stream = s → i.failed? = none) :
    readsOf size (before ++ .failure s message :: after) s =
      (pieces size s before).map .ok ++ .error message :: readsOf size after s := by
  rw [← readsOf_of_read h]
  simp [readsOf, Item.stream, Item.reads]

/-- No read of some streams fails, or one is the first that does. -/
theorem failure_cases (p : Stream → Prop) (items : List Item) :
    (∀ i ∈ items, p i.stream → i.failed? = none) ∨
      ∃ before s message after, items = before ++ .failure s message :: after ∧ p s ∧
        ∀ i ∈ before, p i.stream → i.failed? = none := by
  induction items with
  | nil => exact .inl (List.forall_mem_nil _)
  | cons i rest ih =>
    by_cases hfailed : p i.stream ∧ i.failed? ≠ none
    · cases i with
      | chunk t bytes => exact absurd rfl hfailed.2
      | failure t message => exact .inr ⟨[], t, message, rest, rfl, hfailed.1, List.forall_mem_nil _⟩
    · have hi : p i.stream → i.failed? = none := fun hs => Classical.not_not.1 fun h => hfailed ⟨hs, h⟩
      rcases ih with hrest | ⟨before, s, message, after, rfl, hs, hbefore⟩
      · exact .inl (List.forall_mem_cons.2 ⟨hi, hrest⟩)
      · exact .inr ⟨i :: before, s, message, after, rfl, hs, List.forall_mem_cons.2 ⟨hi, hbefore⟩⟩

end Transcript

namespace Splitter

/-- What is read of a beginning is the beginning of what is read. -/
theorem feedAll_isPrefix_read (s : Splitter) (a b : List Bytes) : (s.feedAll a).1 <+: s.read (a ++ b) := by
  rw [read_eq_feedAll, feedAll_append, List.append_assoc]
  exact List.prefix_append _ _

end Splitter

namespace Merge

open Transcript

variable {streams : List Stream} {size : Nat} {items : List Item} {s : Stream} {x : State}
  {reads : Stream → List (Except Text Bytes)} {messages : List (Stream × Message)} {message : Text}

/-- The lines among messages. -/
def linesOf (messages : List (Stream × Message)) : List Line :=
  messages.filterMap (·.2.line?)

/-- The lines that the merger has given out. -/
def State.lines (x : State) : List Line :=
  linesOf x.taken

/-- The failure that the merger has met. -/
def State.failure? (x : State) : Option Text :=
  x.taken.findSome? (·.2.failed?)

theorem filterMap_line (lines : List Line) : (lines.map Message.line).filterMap Message.line? = lines := by
  rw [List.filterMap_map]
  exact List.filterMap_some

/-- The lines of a stream are among the messages of the stream. -/
theorem filter_linesOf (h : ∀ t l, (t, .line l) ∈ messages → l.stream = t) (s : Stream) :
    (linesOf messages).filter (·.stream = s) = (on s messages).filterMap Message.line? := by
  induction messages with
  | nil => rfl
  | cons m rest ih =>
    specialize ih fun t l hl => h t l (List.mem_cons_of_mem _ hl)
    obtain ⟨t, m⟩ := m
    rw [on_cons]
    cases m with
    | line l =>
      obtain rfl : l.stream = t := h t l List.mem_cons_self
      have hlines : linesOf ((l.stream, .line l) :: rest) = l :: linesOf rest := rfl
      rw [hlines, List.filter_cons, ih]
      by_cases hs : l.stream = s <;> simp [hs, Message.line?]
    | failed message =>
      have hlines : linesOf ((t, .failed message) :: rest) = linesOf rest := rfl
      rw [hlines, ih]
      by_cases hs : t = s <;> simp [hs, Message.line?, List.filterMap_cons]
    | done =>
      have hlines : linesOf ((t, .done) :: rest) = linesOf rest := rfl
      rw [hlines, ih]
      by_cases hs : t = s <;> simp [hs, Message.line?, List.filterMap_cons]

namespace Sound

/-- A line that is taken is one of the stream that it came on. -/
theorem stream_of_line_taken (h : Sound streams (start streams reads) x) {l : Line} (hl : (s, .line l) ∈ x.taken) :
    l.stream = s := by
  have hmem := (h.on_taken_isPrefix s).subset (mem_on_iff.2 hl)
  rw [told_start (h.mem_of_mem_taken hl)] at hmem
  exact stream_of_line_mem_tell hmem

theorem filter_lines (h : Sound streams (start streams reads) x) (s : Stream) :
    x.lines.filter (·.stream = s) = (on s x.taken).filterMap Message.line? :=
  filter_linesOf (fun _ _ hl => h.stream_of_line_taken hl) s

theorem stream_of_mem_lines (h : Sound streams (start streams reads) x) {l : Line} (hl : l ∈ x.lines) :
    l.stream ∈ streams := by
  obtain ⟨⟨s, m⟩, hm, hline⟩ := List.mem_filterMap.1 hl
  cases m with
  | line l' =>
    obtain rfl : l' = l := Option.some.inj hline
    rw [h.stream_of_line_taken hm]
    exact h.mem_of_mem_taken hm
  | failed message => cases hline
  | done => cases hline

end Sound

/-! ## Streams without a failure -/

/-- **Every stream is given out whole**: of each the lines are those of a splitter that reads this stream alone, and
the finished ones are those of its bytes. -/
structure Whole (streams : List Stream) (size : Nat) (items : List Item) (lines : List Line) : Prop where
  read : ∀ i ∈ items, i.stream ∈ streams → i.failed? = none
  within : ∀ l ∈ lines, l.stream ∈ streams
  whole : ∀ s ∈ streams, lines.filter (·.stream = s) = Splitter.read { stream := s } (pieces size s items)
  finished : ∀ s ∈ streams, Splitter.finished (lines.filter (·.stream = s)) =
    Splitter.finished (Splitter.read { stream := s } [bytesOf s items])

/-- The finished lines of a stream are those of its bytes. -/
theorem finished_read_pieces (hsize : 0 < size) (s : Stream) (items : List Item) :
    Splitter.finished (Splitter.read { stream := s } (pieces size s items)) =
      Splitter.finished (Splitter.read { stream := s } [bytesOf s items]) := by
  rw [Splitter.finished_read (Splitter.within_fresh s), Splitter.finished_read (Splitter.within_fresh s),
    flatten_pieces hsize, List.flatten_singleton]

/-- **A merger that stops without a failure has given out every stream whole.** -/
theorem whole_of_stopped (hsize : 0 < size) (h : Sound streams (start streams (readsOf size items)) x)
    (hstopped : ¬ Waiting streams x.taken) (hfailure : x.failure? = none) : Whole streams size items x.lines := by
  have htaken : ∀ m ∈ x.taken, m.2.failed? = none := List.findSome?_eq_none_iff.1 hfailure
  have hread : ∀ s ∈ streams, ∀ i ∈ items, i.stream = s → i.failed? = none := by
    intro s hs
    refine (failure_cases (· = s) items).resolve_right ?_
    rintro ⟨before, s, message, after, rfl, rfl, hbefore⟩
    have htold := h.told_of_stopped hstopped htaken hs
    rw [readsOf_of_failure hbefore, tell_error] at htold
    have hmem : .failed message ∈ on s x.taken := by
      rw [htold]
      simp
    cases htaken _ (mem_on_iff.1 hmem)
  have hwhole : ∀ s ∈ streams,
      x.lines.filter (·.stream = s) = Splitter.read { stream := s } (pieces size s items) := by
    intro s hs
    rw [h.filter_lines, h.told_of_stopped hstopped htaken hs, readsOf_of_read (hread s hs), tell_ok,
      List.filterMap_append, filterMap_line]
    exact List.append_nil _
  exact ⟨fun i hi hs => hread _ hs i hi rfl, fun l hl => h.stream_of_mem_lines hl, hwhole, fun s hs => by
    rw [hwhole s hs, finished_read_pieces hsize]⟩

/-! ## Streams with a failure -/

/-- **What came before the failure is given out**, and nothing else: the lines that were in the queue before it, of
the stream that failed those of all pieces before, and of every stream a beginning. -/
structure Broken (streams : List Stream) (size : Nat) (items : List Item) (message : Text) (x : State) : Prop where
  arrived : ∃ front m back, x.arrived = front ++ m :: back ∧ (∀ m ∈ front, m.2.failed? = none) ∧
    m.2.failed? = some message ∧ x.lines = linesOf front
  within : ∀ l ∈ x.lines, l.stream ∈ streams
  failed : ∃ s ∈ streams, ∃ before after, items = before ++ .failure s message :: after ∧
    (∀ i ∈ before, i.stream = s → i.failed? = none) ∧
    x.lines.filter (·.stream = s) = (Splitter.feedAll { stream := s } (pieces size s before)).1
  begun : ∀ s ∈ streams, x.lines.filter (·.stream = s) <+: Splitter.read { stream := s } (pieces size s items)

/-- The lines that a reader tells are the first of those of its stream. -/
theorem lines_tell_isPrefix (size : Nat) (s : Stream) (items : List Item) :
    (tell { stream := s } (readsOf size items s)).filterMap Message.line? <+:
      Splitter.read { stream := s } (pieces size s items) := by
  rcases failure_cases (· = s) items with hread | ⟨before, s, message, after, rfl, rfl, hbefore⟩
  · rw [readsOf_of_read hread, tell_ok, List.filterMap_append, filterMap_line]
    exact (List.append_nil _).symm ▸ List.prefix_rfl
  · have hpieces : pieces size s (before ++ .failure s message :: after) =
        pieces size s before ++ pieces size s after := by
      simp [pieces, Item.stream, Item.bytes, reads_nil]
    rw [readsOf_of_failure hbefore, tell_error, List.filterMap_append, filterMap_line, hpieces]
    exact (List.append_nil _).symm ▸ Splitter.feedAll_isPrefix_read _ _ _

/-- **A merger that stops at a failure has given out what came before.** -/
theorem broken_of_failure (h : Sound streams (start streams (readsOf size items)) x)
    (hfailure : x.failure? = some message) : Broken streams size items message x := by
  obtain ⟨⟨s, m⟩, hm, hmessage⟩ := List.exists_of_findSome?_eq_some hfailure
  obtain rfl : m = .failed message := by
    cases m <;> cases hmessage
    rfl
  obtain ⟨front, htaken, hfront⟩ := h.taken_of_failed (m := .failed message) (by simp [Message.failed?]) hm
  have hs : s ∈ streams := h.mem_of_mem_taken hm
  have hlines : x.lines = linesOf front := by
    rw [State.lines, htaken, linesOf, List.filterMap_append]
    exact List.append_nil _
  refine ⟨⟨front, (s, .failed message), x.queue, by simp [State.arrived, htaken], hfront, rfl, hlines⟩,
    fun l hl => h.stream_of_mem_lines hl, ⟨s, hs, ?_⟩, fun t ht => ?_⟩
  · have hon : on s x.taken = on s front ++ [.failed message] := by
      rw [htaken, on_append, on_singleton_self]
    obtain ⟨rest, hrest⟩ := h.on_taken_isPrefix s
    rw [told_start hs, hon, List.append_assoc, List.singleton_append] at hrest
    rcases failure_cases (· = s) items with hread | ⟨before, s, message', after, rfl, rfl, hbefore⟩
    · -- a reader of which no read fails tells of no failure
      have hmem : .failed message ∈ tell { stream := s } (readsOf size items s) := by
        rw [← hrest]
        simp
      simp [readsOf_of_read hread, tell_ok] at hmem
    · rw [readsOf_of_failure hbefore, tell_error] at hrest
      obtain ⟨hlines, hmessage, -⟩ := (List.append_cons_inj_of_notMem (by simp) (by simp)).1 hrest.symm
      cases hmessage
      refine ⟨before, after, rfl, hbefore, ?_⟩
      rw [h.filter_lines, hon, ← hlines, List.filterMap_append, filterMap_line]
      exact List.append_nil _
  · rw [h.filter_lines]
    have htold := h.on_taken_isPrefix t
    rw [told_start ht] at htold
    exact (htold.filterMap _).trans (lines_tell_isPrefix size t items)

end Merge

end Fenceline
