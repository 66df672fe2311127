import Fenceline.Proofs.Line.Merged

/-!
# A transcript is one of the runs

A transcript says in which order the streams came. It is read as if each read was put into the queue and taken from
it before the next one, and as if both streams ended behind all that came: of the runs of the readers and the merger
this is one (`exists_run`), so what is known of the runs is known of the transcript.

**The law** (`merged`): every run that stops has given out each stream whole, or what came before the failure. What a
transcript gives is what such a run gives; where a read fails, these are the lines of all pieces before, of both
streams (`lines_cases`).
-/

namespace Fenceline

namespace Transcript

namespace Splitters

variable {s t : Stream}

/-- The splitter of a stream. -/
def get (σ : Splitters) : Stream → Splitter
  | .stdout => σ.stdout
  | .stderr => σ.stderr

theorem get_fresh (s : Stream) : ({} : Splitters).get s = { stream := s } := by
  cases s <;> rfl

theorem feed_fst (σ : Splitters) (s : Stream) (chunk : Bytes) : (σ.feed s chunk).1 = ((σ.get s).feed chunk).1 := by
  cases s <;> rfl

theorem get_feed_self (σ : Splitters) (s : Stream) (chunk : Bytes) :
    (σ.feed s chunk).2.get s = ((σ.get s).feed chunk).2 := by
  cases s <;> rfl

theorem get_feed_of_ne (σ : Splitters) (h : t ≠ s) (chunk : Bytes) : (σ.feed s chunk).2.get t = σ.get t := by
  cases s <;> cases t <;> first | rfl | exact absurd rfl h

theorem feedAll_cons (σ : Splitters) (s : Stream) (chunk : Bytes) (rest : List Bytes) :
    σ.feedAll s (chunk :: rest) =
      ((σ.feed s chunk).1 ++ ((σ.feed s chunk).2.feedAll s rest).1, ((σ.feed s chunk).2.feedAll s rest).2) :=
  rfl

/-- The reads of a stream are those of its splitter. -/
theorem feedAll_fst (σ : Splitters) (s : Stream) (chunks : List Bytes) :
    (σ.feedAll s chunks).1 = ((σ.get s).feedAll chunks).1 := by
  induction chunks generalizing σ with
  | nil => rfl
  | cons chunk rest ih => rw [feedAll_cons, Splitter.feedAll, ih, feed_fst, get_feed_self]

theorem get_feedAll_self (σ : Splitters) (s : Stream) (chunks : List Bytes) :
    (σ.feedAll s chunks).2.get s = ((σ.get s).feedAll chunks).2 := by
  induction chunks generalizing σ with
  | nil => rfl
  | cons chunk rest ih => rw [feedAll_cons, Splitter.feedAll, ih, get_feed_self]

/-- The splitter of the other stream stays as it is. -/
theorem get_feedAll_of_ne (σ : Splitters) (h : t ≠ s) (chunks : List Bytes) :
    (σ.feedAll s chunks).2.get t = σ.get t := by
  induction chunks generalizing σ with
  | nil => rfl
  | cons chunk rest ih => rw [feedAll_cons, ih, get_feed_of_ne σ h]

end Splitters

variable {streams : List Stream} {size : Nat} {items before after : List Item} {s t : Stream} {message : Text}

theorem linesFrom_chunk (size : Nat) (σ : Splitters) (s : Stream) (bytes : Bytes) (rest : List Item) :
    linesFrom size σ (.chunk s bytes :: rest) =
      ((σ.feedAll s (reads size bytes)).1 ++ (linesFrom size (σ.feedAll s (reads size bytes)).2 rest).1,
        (linesFrom size (σ.feedAll s (reads size bytes)).2 rest).2) :=
  rfl

/-- A transcript fails with its first failure. -/
theorem linesFrom_snd (size : Nat) (σ : Splitters) (items : List Item) :
    (linesFrom size σ items).2 = items.findSome? Item.failed? := by
  induction items generalizing σ with
  | nil => rfl
  | cons i rest ih =>
    cases i with
    | chunk s bytes => exact ih _
    | failure s message => rfl

/-- The pieces of a stream, and those of the other one. -/
theorem pieces_chunk (size : Nat) (s t : Stream) (bytes : Bytes) (rest : List Item) :
    pieces size t (.chunk s bytes :: rest) = (if s = t then reads size bytes else []) ++ pieces size t rest := by
  by_cases h : s = t <;> simp [pieces, Item.stream, Item.bytes, h]

theorem readsOf_chunk (size : Nat) (s t : Stream) (bytes : Bytes) (rest : List Item) :
    readsOf size (.chunk s bytes :: rest) t =
      (if s = t then (reads size bytes).map .ok else []) ++ readsOf size rest t := by
  by_cases h : s = t <;> simp [readsOf, Item.stream, Item.reads, h]

/-- What is heard of a stream, if it is heard at all. -/
theorem filter_heard (hs : s ∈ streams) (items : List Item) :
    (items.filter (streams.contains ·.stream)).filter (·.stream = s) = items.filter (·.stream = s) := by
  rw [List.filter_filter]
  refine List.filter_congr fun i _ => ?_
  by_cases h : i.stream = s <;> simp [h, hs]

/-- **What comes before a failure is given out**, and nothing else, whichever stream it came on. -/
theorem filter_linesFrom (σ : Splitters) (hσ : ∀ s, (σ.get s).stream = s) (h : ∀ i ∈ before, i.failed? = none) :
    (linesFrom size σ (before ++ .failure s message :: after)).1.filter (·.stream = t) =
      ((σ.get t).feedAll (pieces size t before)).1 := by
  induction before generalizing σ with
  | nil => rfl
  | cons i rest ih =>
    obtain ⟨hi, hrest⟩ := List.forall_mem_cons.1 h
    cases i with
    | failure u message => cases hi
    | chunk u bytes =>
      let σ' := (σ.feedAll u (reads size bytes)).2
      have hσ' : ∀ s, (σ'.get s).stream = s := fun s => by
        by_cases hs : s = u
        · subst hs
          rw [Splitters.get_feedAll_self, Splitter.stream_feedAll, hσ]
        · rw [Splitters.get_feedAll_of_ne σ hs, hσ]
      have hlines : ∀ l ∈ (σ.feedAll u (reads size bytes)).1, l.stream = u := fun l hl => by
        rw [Splitters.feedAll_fst] at hl
        rw [Splitter.stream_of_mem_feedAll hl, hσ]
      rw [List.cons_append, linesFrom_chunk, List.filter_append, ih σ' hσ' hrest, pieces_chunk]
      by_cases ht : u = t
      · subst ht
        rw [List.filter_eq_self.2 fun l hl => decide_eq_true (hlines l hl), if_pos rfl, Splitter.feedAll_append,
          Splitters.feedAll_fst, Splitters.get_feedAll_self]
      · rw [List.filter_eq_nil_iff.2 fun l hl h => ht ((hlines l hl).symm.trans (of_decide_eq_true h)), if_neg ht,
          Splitters.get_feedAll_of_ne σ (Ne.symm ht)]
        rfl

end Transcript

namespace Merge

open Transcript

variable {streams : List Stream} {size : Nat} {items : List Item} {s t : Stream} {x y z : State} {p q : Pump}
  {m : Message} {ms ns rest : List Message} {reads : Stream → List (Except Text Bytes)}
  {unread : List (Except Text Bytes)} {splitter : Splitter}

/-- **Between two reads**: the queue is empty and no failure was taken. -/
structure Idle (streams : List Stream) (reads : Stream → List (Except Text Bytes)) (x : State) : Prop where
  sound : Sound streams (start streams reads) x
  queue : x.queue = []
  read : ∀ m ∈ x.taken, m.2.failed? = none

/-- **A reader has gone on**, and what it had to tell was taken. -/
structure Passed (streams : List Stream) (x : State) (s : Stream) (p : Pump) (ms : List Message) (y : State) :
    Prop where
  reaches : Reaches streams x y
  queue : y.queue = []
  pumps : y.pumps = Function.update x.pumps s p
  taken : y.taken = x.taken ++ ms.map (s, ·)

namespace Passed

theorem trans (h : Passed streams x s p ms y) (h' : Passed streams y s q ns z) :
    Passed streams x s q (ms ++ ns) z where
  reaches := h.reaches.trans h'.reaches
  queue := h'.queue
  pumps := by rw [h'.pumps, h.pumps, Function.update_idem]
  taken := by rw [h'.taken, h.taken, List.map_append, List.append_assoc]

/-- A read is the first thing that a reader does. -/
theorem of_advance (hready : (x.pumps s).ready = []) (hopen : (x.pumps s).closed = false)
    (h : Passed streams { x with pumps := Function.update x.pumps s (x.pumps s).advance } s p ms y) :
    Passed streams x s p ms y where
  reaches := .head (.read s hready hopen) h.reaches
  queue := h.queue
  pumps := by rw [h.pumps, Function.update_idem]
  taken := h.taken

theorem idle (h : Passed streams x s p ms y) (hx : Idle streams reads x) (hms : ∀ m ∈ ms, m.failed? = none) :
    Idle streams reads y where
  sound := sound_of_reaches hx.sound h.reaches
  queue := h.queue
  read := by
    rw [h.taken]
    refine List.forall_mem_append.2 ⟨hx.read, fun m hm => ?_⟩
    obtain ⟨m, hm', rfl⟩ := List.mem_map.1 hm
    exact hms m hm'

theorem lines (h : Passed streams x s p ms y) : y.lines = x.lines ++ ms.filterMap Message.line? := by
  rw [State.lines, linesOf, h.taken, List.filterMap_append, List.filterMap_map]
  rfl

end Passed

namespace Idle

/-- Nothing may happen between two reads. -/
theorem passed (h : Idle streams reads x) (s : Stream) : Passed streams x s (x.pumps s) [] x where
  reaches := .refl
  queue := h.queue
  pumps := (Function.update_eq_self s x.pumps).symm
  taken := (List.append_nil _).symm

/-- A message is put into the queue and taken from it. -/
theorem exists_passed_cons (h : Idle streams reads x) (hs : s ∈ streams)
    (hpump : x.pumps s = { p with ready := m :: rest }) :
    ∃ y, Passed streams x s { p with ready := rest } [m] y := by
  have hready : (x.pumps s).ready = m :: rest := by rw [hpump]
  let put : State :=
    { x with pumps := Function.update x.pumps s { x.pumps s with ready := rest }, queue := x.queue ++ [(s, m)] }
  have hput : Step streams x put := .put s hready
  have hqueue : put.queue = [(s, m)] := by simp [put, h.queue]
  have hwaiting : Waiting streams put.taken :=
    (h.sound.step hput).waiting_of_told h.read hs (by simp [hqueue])
  refine ⟨_, .head hput (.single (.take hwaiting hqueue)), rfl, ?_, rfl⟩
  simp only [put, hpump]

/-- Messages are put into the queue and taken from it, one after the other. -/
theorem exists_passed (h : Idle streams reads x) (hs : s ∈ streams)
    (hpump : x.pumps s = { p with ready := ms ++ rest }) (hms : ∀ m ∈ ms, m.failed? = none) :
    ∃ y, Passed streams x s { p with ready := rest } ms y := by
  induction ms generalizing x with
  | nil => exact ⟨x, hpump ▸ h.passed s⟩
  | cons m ms ih =>
    obtain ⟨hm, hms⟩ := List.forall_mem_cons.1 hms
    obtain ⟨y, hy⟩ := h.exists_passed_cons hs hpump
    have hpump : y.pumps s = { p with ready := ms ++ rest } := by
      rw [hy.pumps, Function.update_self]
      rfl
    obtain ⟨z, hz⟩ := ih (hy.idle h (List.forall_mem_singleton.2 hm)) hpump hms
    exact ⟨z, hy.trans hz⟩

/-- A reader reads, or comes to its end. -/
theorem advance (h : Idle streams reads x) (hready : (x.pumps s).ready = []) (hopen : (x.pumps s).closed = false) :
    Idle streams reads { x with pumps := Function.update x.pumps s (x.pumps s).advance } where
  sound := h.sound.step (.read s hready hopen)
  queue := h.queue
  read := h.read

/-- What a read gives is put into the queue and taken from it. -/
theorem exists_passed_advance (h : Idle streams reads x) (hs : s ∈ streams) (hready : (x.pumps s).ready = [])
    (hopen : (x.pumps s).closed = false) (hadvance : (x.pumps s).advance = { p with ready := ms ++ rest })
    (hms : ∀ m ∈ ms, m.failed? = none) : ∃ y, Passed streams x s { p with ready := rest } ms y := by
  obtain ⟨y, hy⟩ := (h.advance hready hopen).exists_passed hs ((Function.update_self ..).trans hadvance) hms
  exact ⟨y, hy.of_advance hready hopen⟩

theorem failed?_line (lines : List Line) : ∀ m ∈ lines.map Message.line, m.failed? = none := by
  intro m hm
  obtain ⟨l, -, rfl⟩ := List.mem_map.1 hm
  rfl

/-- **Pieces are read**, and their lines taken. -/
theorem exists_passed_pieces (h : Idle streams reads x) (hs : s ∈ streams) {pieces : List Bytes}
    (hpump : x.pumps s = { splitter := splitter, unread := pieces.map .ok ++ unread }) :
    ∃ y, Passed streams x s { splitter := (splitter.feedAll pieces).2, unread := unread }
      ((splitter.feedAll pieces).1.map .line) y := by
  induction pieces generalizing x splitter with
  | nil => exact ⟨x, hpump ▸ h.passed s⟩
  | cons piece pieces ih =>
    let after : Pump := { splitter := (splitter.feed piece).2, unread := pieces.map .ok ++ unread }
    have hadvance : (x.pumps s).advance = { after with ready := (splitter.feed piece).1.map .line ++ [] } := by
      rw [hpump, List.append_nil]
      rfl
    obtain ⟨y, hy⟩ := h.exists_passed_advance hs (by rw [hpump]) (by rw [hpump]) hadvance
      (failed?_line (splitter.feed piece).1)
    obtain ⟨z, hz⟩ := ih (hy.idle h (failed?_line _)) (by rw [hy.pumps, Function.update_self])
    refine ⟨z, ?_⟩
    rw [Splitter.feedAll, List.map_append]
    exact hy.trans hz

/-- **A stream ends**, and the last lines are taken. -/
theorem exists_passed_end (h : Idle streams reads x) (hs : s ∈ streams)
    (hpump : x.pumps s = { splitter := splitter }) :
    ∃ y, Passed streams x s { splitter := splitter, closed := true } (splitter.close.1.map .line ++ [.done]) y := by
  let after : Pump := { splitter := splitter, closed := true }
  have hadvance : (x.pumps s).advance =
      { after with ready := (splitter.close.1.map .line ++ [.done]) ++ [] } := by
    rw [hpump, List.append_nil]
    rfl
  exact h.exists_passed_advance hs (by rw [hpump]) (by rw [hpump]) hadvance
    (List.forall_mem_append.2 ⟨failed?_line _, List.forall_mem_singleton.2 rfl⟩)

/-- **A read fails**, and the failure is taken. -/
theorem exists_passed_failure (h : Idle streams reads x) (hs : s ∈ streams) {message : Text}
    (hpump : x.pumps s = { splitter := splitter, unread := .error message :: unread }) :
    ∃ y q, Passed streams x s q [.failed message] y := by
  let after : Pump := { splitter := splitter, unread := unread, closed := true }
  have hadvance : (x.pumps s).advance = { after with ready := [.failed message, .done] } := by
    rw [hpump]
    rfl
  have hready : (x.pumps s).ready = [] := by rw [hpump]
  have hopen : (x.pumps s).closed = false := by rw [hpump]
  obtain ⟨y, hy⟩ := (h.advance hready hopen).exists_passed_cons hs ((Function.update_self ..).trans hadvance)
  exact ⟨y, _, hy.of_advance hready hopen⟩

end Idle

/-! ## A transcript as a run -/

/-- **A stream comes to its end**, if there is a reader for it. -/
theorem Idle.exists_end (h : Idle streams reads x) (hpump : s ∈ streams → x.pumps s = { splitter := splitter })
    (hclosed : s ∉ streams → splitter.close.1 = []) :
    ∃ y, Reaches streams x y ∧ Idle streams reads y ∧ (y.pumps s).told = [] ∧ (∀ t ≠ s, y.pumps t = x.pumps t) ∧
      y.lines = x.lines ++ splitter.close.1 := by
  by_cases hs : s ∈ streams
  · obtain ⟨y, hy⟩ := h.exists_passed_end hs (hpump hs)
    have hms : ∀ m ∈ splitter.close.1.map Message.line ++ [.done], m.failed? = none :=
      List.forall_mem_append.2 ⟨failed?_line _, List.forall_mem_singleton.2 rfl⟩
    refine ⟨y, hy.reaches, hy.idle h hms, ?_, fun t ht => ?_, ?_⟩
    · rw [hy.pumps, Function.update_self]
      rfl
    · rw [hy.pumps, Function.update_of_ne ht]
    · rw [hy.lines, List.filterMap_append, filterMap_line]
      exact congrArg (x.lines ++ ·) (List.append_nil _)
  · have htold := h.sound.told s
    rw [told_start_of_not_mem hs, List.append_eq_nil_iff] at htold
    refine ⟨x, .refl, h, htold.2, fun t _ => rfl, ?_⟩
    rw [hclosed hs, List.append_nil]

/-- **Both streams come to their end**, the standard output first, and then the merger stops. -/
theorem Idle.exists_ends (h : Idle streams reads x) (hstreams : streams.Nodup) (size : Nat) (σ : Splitters)
    (hclosed : ∀ s ∉ streams, (σ.get s).close.1 = [])
    (hpumps : ∀ s ∈ streams, x.pumps s = { splitter := σ.get s }) :
    ∃ y, Reaches streams x y ∧ ¬ Waiting streams y.taken ∧ y.lines = x.lines ++ (linesFrom size σ []).1 ∧
      y.failure? = none := by
  obtain ⟨y, hxy, hy, htoldOut, hothers, hlinesOut⟩ := h.exists_end (hpumps .stdout) (hclosed .stdout)
  have hpump : .stderr ∈ streams → y.pumps .stderr = { splitter := σ.get .stderr } := fun hs => by
    rw [hothers .stderr (by decide), hpumps .stderr hs]
  obtain ⟨z, hyz, hz, htoldErr, hothers, hlinesErr⟩ := hy.exists_end hpump (hclosed .stderr)
  have htold : ∀ s, (z.pumps s).told = [] := fun s => by
    cases s with
    | stderr => exact htoldErr
    | stdout =>
      rw [hothers .stdout (by decide)]
      exact htoldOut
  have hstopped : ¬ Waiting streams z.taken := hz.sound.stopped_of_told hstreams hz.queue htold
  refine ⟨z, hxy.trans hyz, hstopped, ?_, List.findSome?_eq_none_iff.2 hz.read⟩
  rw [hlinesErr, hlinesOut, List.append_assoc]
  rfl

/-- **A stream fails**, and the merger stops with what it has taken before. -/
theorem Idle.exists_stop (h : Idle streams reads x) (hs : s ∈ streams) {message : Text}
    (hpump : x.pumps s = { splitter := splitter, unread := .error message :: unread }) :
    ∃ y, Reaches streams x y ∧ ¬ Waiting streams y.taken ∧ y.lines = x.lines ∧ y.failure? = some message := by
  obtain ⟨y, q, hy⟩ := h.exists_passed_failure hs hpump
  have hfailure : y.failure? = some message := by
    rw [State.failure?, hy.taken, List.findSome?_append, List.findSome?_eq_none_iff.2 h.read]
    rfl
  refine ⟨y, hy.reaches, fun hwaiting => ?_, hy.lines.trans (List.append_nil _), hfailure⟩
  rw [State.failure?, List.findSome?_eq_none_iff.2 hwaiting.1] at hfailure
  cases hfailure

/-- **A chunk is read on one stream**, and its lines taken; the other stream has read nothing. -/
theorem Idle.exists_passed_chunk (h : Idle streams reads x) (hs : s ∈ streams) {size : Nat} {σ : Splitters}
    {bytes : Bytes} (hpumps : ∀ t ∈ streams,
      x.pumps t = { splitter := σ.get t, unread := readsOf size (.chunk s bytes :: items) t }) :
    ∃ y p, Passed streams x s p (((σ.feedAll s (Transcript.reads size bytes)).1).map .line) y ∧
      ∀ t ∈ streams, y.pumps t =
        { splitter := (σ.feedAll s (Transcript.reads size bytes)).2.get t, unread := readsOf size items t } := by
  have hpump : x.pumps s =
      { splitter := σ.get s, unread := (Transcript.reads size bytes).map .ok ++ readsOf size items s } := by
    rw [hpumps s hs, readsOf_chunk, if_pos rfl]
  obtain ⟨y, hy⟩ := h.exists_passed_pieces hs hpump
  rw [← Splitters.feedAll_fst] at hy
  refine ⟨y, _, hy, fun t ht => ?_⟩
  rw [hy.pumps]
  by_cases hts : t = s
  · subst hts
    rw [Function.update_self, ← Splitters.get_feedAll_self]
  · rw [Function.update_of_ne hts, hpumps t ht, Splitters.get_feedAll_of_ne σ hts, readsOf_chunk,
      if_neg (Ne.symm hts), List.nil_append]

/-- A transcript is read on as if each read was taken at once. -/
theorem exists_run_from (hstreams : streams.Nodup) (size : Nat) (σ : Splitters)
    (hclosed : ∀ s ∉ streams, (σ.get s).close.1 = []) (hitems : ∀ i ∈ items, i.stream ∈ streams) (h : Idle streams reads x)
    (hpumps : ∀ s ∈ streams, x.pumps s = { splitter := σ.get s, unread := readsOf size items s }) :
    ∃ y, Reaches streams x y ∧ ¬ Waiting streams y.taken ∧ y.lines = x.lines ++ (linesFrom size σ items).1 ∧
      y.failure? = (linesFrom size σ items).2 := by
  induction items generalizing σ x with
  | nil => exact h.exists_ends hstreams size σ hclosed hpumps
  | cons i rest ih =>
    obtain ⟨hi, hrest⟩ := List.forall_mem_cons.1 hitems
    cases i with
    | failure s message =>
      have hs : s ∈ streams := hi
      have hpump : x.pumps s = { splitter := σ.get s, unread := .error message :: readsOf size rest s } := by
        rw [hpumps s hs]
        simp [readsOf, Item.stream, Item.reads]
      obtain ⟨y, hreaches, hstopped, hlines, hfailure⟩ := h.exists_stop hs hpump
      exact ⟨y, hreaches, hstopped, hlines.trans (List.append_nil _).symm, hfailure⟩
    | chunk s bytes =>
      have hs : s ∈ streams := hi
      obtain ⟨y, p, hy, hpumps'⟩ := h.exists_passed_chunk hs hpumps
      have hclosed' : ∀ t ∉ streams, ((σ.feedAll s (Transcript.reads size bytes)).2.get t).close.1 = [] :=
        fun t ht => by
          have hts : t ≠ s := fun hts => ht (hts ▸ hs)
          rw [Splitters.get_feedAll_of_ne σ hts]
          exact hclosed t ht
      obtain ⟨z, hyz, hstopped, hlines, hfailure⟩ :=
        ih _ hclosed' hrest (hy.idle h (Idle.failed?_line _)) hpumps'
      refine ⟨z, hy.reaches.trans hyz, hstopped, ?_, hfailure⟩
      rw [hlines, hy.lines, filterMap_line, linesFrom_chunk, List.append_assoc]

/-- **A transcript is one of the runs.** -/
theorem exists_run (hstreams : streams.Nodup) (size : Nat) (items : List Item) :
    ∃ x, Reaches streams (start streams (readsOf size items)) x ∧ ¬ Waiting streams x.taken ∧
      lines streams size items = (x.lines, x.failure?) := by
  let heard := items.filter (streams.contains ·.stream)
  have hitems : ∀ i ∈ heard, i.stream ∈ streams := fun i hi => List.contains_iff_mem.1 (List.mem_filter.1 hi).2
  have hclosed : ∀ s ∉ streams, (({} : Splitters).get s).close.1 = [] := fun s _ => by
    rw [Splitters.get_fresh]
    rfl
  have hreads : ∀ s ∈ streams, readsOf size items s = readsOf size heard s := fun s hs => by
    rw [readsOf, readsOf, filter_heard hs]
  have hidle : Idle streams (readsOf size items) (start streams (readsOf size items)) :=
    ⟨sound_refl rfl rfl, rfl, List.forall_mem_nil _⟩
  have hpumps : ∀ s ∈ streams, (start streams (readsOf size items)).pumps s =
      { splitter := ({} : Splitters).get s, unread := readsOf size heard s } := fun s hs => by
    simp only [start, Splitters.get_fresh, hreads s hs, List.contains_iff_mem.2 hs, Bool.not_true]
  obtain ⟨x, hreaches, hstopped, hlines, hfailure⟩ := exists_run_from hstreams size {} hclosed hitems hidle hpumps
  exact ⟨x, hreaches, hstopped, Prod.ext hlines.symm hfailure.symm⟩

/-- **What a transcript gives before it fails**: of every stream the lines of all pieces that came before. -/
def Cut (streams : List Stream) (size : Nat) (items : List Item) (message : Text) (out : List Line) : Prop :=
  ∃ before s after, items = before ++ .failure s message :: after ∧ s ∈ streams ∧
    (∀ i ∈ before, i.stream ∈ streams → i.failed? = none) ∧ (∀ l ∈ out, l.stream ∈ streams) ∧
    ∀ t ∈ streams, out.filter (·.stream = t) = (Splitter.feedAll { stream := t } (pieces size t before)).1

/-- A transcript fails with the first failure of a stream that there is. -/
theorem lines_snd (streams : List Stream) (size : Nat) (items : List Item) :
    (lines streams size items).2 = (items.filter (streams.contains ·.stream)).findSome? Item.failed? :=
  linesFrom_snd size {} _

/-- **A transcript gives each stream whole or what came before the failure.** -/
theorem lines_cases (hsize : 0 < size) (hstreams : streams.Nodup) (items : List Item) :
    match lines streams size items with
    | (out, none) => Whole streams size items out
    | (out, some message) => Cut streams size items message out := by
  obtain ⟨x, hreaches, hstopped, hlines⟩ := exists_run hstreams size items
  have hsound := sound_of_reaches_start hreaches
  have hsnd := lines_snd streams size items
  rw [hlines] at hsnd
  rcases failure_cases (· ∈ streams) items with hread | ⟨before, s, message, after, rfl, hs, hbefore⟩
  · have hnone : x.failure? = none := by
      refine hsnd.trans (List.findSome?_eq_none_iff.2 fun i hi => ?_)
      obtain ⟨hi, hheard⟩ := List.mem_filter.1 hi
      exact hread i hi (List.contains_iff_mem.1 hheard)
    rw [hlines, hnone]
    exact whole_of_stopped hsize hsound hstopped hnone
  · let heard := before.filter (streams.contains ·.stream)
    have hheard : ∀ i ∈ heard, i.failed? = none := fun i hi =>
      hbefore i (List.mem_filter.1 hi).1 (List.contains_iff_mem.1 (List.mem_filter.1 hi).2)
    have hfilter : (before ++ .failure s message :: after).filter (streams.contains ·.stream) =
        heard ++ .failure s message :: after.filter (streams.contains ·.stream) := by
      simp [heard, Item.stream, hs]
    have hsome : x.failure? = some message := by
      rw [hfilter, List.findSome?_append, List.findSome?_eq_none_iff.2 hheard] at hsnd
      exact hsnd
    have hout : x.lines =
        (linesFrom size {} (heard ++ .failure s message :: after.filter (streams.contains ·.stream))).1 := by
      rw [← hfilter]
      exact congrArg Prod.fst hlines.symm
    rw [hlines, hsome]
    refine ⟨before, s, after, rfl, hs, hbefore, fun l hl => hsound.stream_of_mem_lines hl, fun t ht => ?_⟩
    have hfresh : ∀ s, (({} : Splitters).get s).stream = s := fun s => by rw [Splitters.get_fresh]
    rw [hout, filter_linesFrom {} hfresh hheard, Splitters.get_fresh, pieces, filter_heard ht]
    rfl

/-- **Two streams in one queue stay what they are**, in a transcript, which is one of the runs, and in every run that
stops; and every run stops unless it is broken off. -/
theorem merged (hsize : 0 < size) (hstreams : streams.Nodup) (items : List Item) :
    (match lines streams size items with
      | (out, none) => Whole streams size items out
      | (out, some message) => Cut streams size items message out) ∧
    (∃ x, Reaches streams (start streams (readsOf size items)) x ∧ ¬ Waiting streams x.taken ∧
      lines streams size items = (x.lines, x.failure?)) ∧
    (WellFounded fun y x => Step streams x y) ∧
    (∀ x, Reaches streams (start streams (readsOf size items)) x →
      (Waiting streams x.taken → ∃ y, Step streams x y) ∧
      (¬ Waiting streams x.taken →
        match x.failure? with
        | none => Whole streams size items x.lines
        | some message => Broken streams size items message x)) ∧
    ((∀ i ∈ items, i.bytes.length ≤ size) → ∀ s,
      pieces size s items = ((items.filter (·.stream = s)).map (·.bytes)).filter (· ≠ [])) := by
  refine ⟨lines_cases hsize hstreams items, exists_run hstreams size items, wellFounded_step streams,
    fun x hreaches => ⟨?_, fun hstopped => ?_⟩, fun hshort s => pieces_of_length_le hshort⟩
  · exact (sound_of_reaches_start hreaches).exists_step hstreams
  · have hsound := sound_of_reaches_start hreaches
    cases hfailure : x.failure? with
    | none => exact whole_of_stopped hsize hsound hstopped hfailure
    | some message => exact broken_of_failure hsound hfailure

/-- Two streams, one of them cut inside a character, read three bytes at a time. -/
theorem merged_inside_character :
    let streams : List Stream := [.stdout, .stderr]
    let items : List Item := [.chunk .stdout [0x61, 0xC3], .chunk .stderr [0x78], .chunk .stdout [0xA9, 0x0A]]
    0 < 3 ∧ streams.Nodup ∧ (lines streams 3 items).2 = none ∧ Whole streams 3 items (lines streams 3 items).1 ∧
      pieces 3 .stdout items = [[0x61, 0xC3], [0xA9, 0x0A]] ∧
      Splitter.finished ((lines streams 3 items).1.filter (·.stream = .stdout)) = [⟨.stdout, "aé".toList, true⟩] := by
  intro streams items
  have hstreams : streams.Nodup := by decide
  obtain ⟨hlines, -, -, -, hpieces⟩ := merged (by decide : 0 < 3) hstreams items
  have hnone : (lines streams 3 items).2 = none := lines_snd streams 3 items
  have hwhole : Whole streams 3 items (lines streams 3 items).1 := by
    rcases h : lines streams 3 items with ⟨out, failure⟩
    rw [h] at hlines hnone
    obtain rfl : failure = none := hnone
    exact hlines
  refine ⟨by decide, hstreams, hnone, hwhole, ?_, ?_⟩
  · rw [hpieces (by decide)]
    decide
  · rw [hwhole.finished .stdout (by decide)]
    decide

end Merge

end Fenceline
