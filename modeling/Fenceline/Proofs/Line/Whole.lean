import Fenceline.Proofs.Line.Decoding
import Fenceline.Proofs.Line.Stream
import Fenceline.Proofs.Text.Cut

/-!
# The lines of a stream are the lines of its text

A splitter has read some of the bytes of a stream. What it has decoded is the beginning of the text of
all bytes; the lines that it has finished are the first lines of that text, and what it has begun is the
beginning of the next one. A chunk may end anywhere: inside a character, inside a malformed sequence or
before a line feed.

**The law** (`read_whole`): the finished lines of a stream, however it came, are the lines of its text
and the rest behind the last line feed; each chunk shows, behind the lines that it finishes, at most one
part of a line, which is a beginning of the line of the text that the stream is in.
-/

namespace Fenceline

namespace Text

/-- What comes before a cut is the beginning of the first piece. -/
theorem cutAt_append_of_not_mem {c : Char} {p : Text} (h : c ∉ p) (t : Text) :
    ∃ q qs, cutAt c t = q :: qs ∧ cutAt c (p ++ t) = (p ++ q) :: qs := by
  induction p with
  | nil =>
    obtain ⟨q, qs, hcut⟩ := List.exists_cons_of_ne_nil (cutAt_ne_nil c t)
    exact ⟨q, qs, hcut, hcut⟩
  | cons x p ih =>
    rw [List.mem_cons, not_or] at h
    obtain ⟨q, qs, hcut, hmore⟩ := ih h.2
    refine ⟨q, qs, hcut, ?_⟩
    rw [List.cons_append, cutAt, if_neg (Ne.symm h.1), hmore]
    rfl

/-- The pieces of a text are its finished lines and the rest behind them. -/
theorem cutAt_newline (t : Text) : cutAt '\n' t = (cutLines t).1 ++ [(cutLines t).2] := by
  induction t with
  | nil => rfl
  | cons c r ih =>
    rcases h : cutLines r with ⟨lines, rest⟩
    rw [h] at ih
    by_cases hc : c = '\n'
    · simp [cutAt, cutLines, h, hc, ih]
    · cases lines <;> simp [cutAt, cutLines, h, hc, ih]

theorem newline_not_mem_rest (t : Text) : '\n' ∉ (cutLines t).2 := by
  apply not_mem_of_mem_cutAt (t := t)
  rw [cutAt_newline]
  exact List.mem_append_right _ List.mem_cons_self

end Text

namespace Splitter

/-- The lines of several chunks, and the splitter after them. -/
def feedAll (s : Splitter) : List Bytes → List Line × Splitter
  | [] => ([], s)
  | chunk :: rest =>
    ((s.feed chunk).1 ++ ((s.feed chunk).2.feedAll rest).1, ((s.feed chunk).2.feedAll rest).2)

theorem feedAll_append (s : Splitter) (a b : List Bytes) :
    s.feedAll (a ++ b) =
      ((s.feedAll a).1 ++ ((s.feedAll a).2.feedAll b).1, ((s.feedAll a).2.feedAll b).2) := by
  induction a generalizing s with
  | nil => rfl
  | cons chunk a ih =>
    rw [List.cons_append, feedAll, ih, feedAll]
    simp only [List.append_assoc]

/-- A stream is read by feeding its chunks, and then it ends. -/
theorem read_eq_feedAll (s : Splitter) (chunks : List Bytes) :
    s.read chunks = (s.feedAll chunks).1 ++ (s.feedAll chunks).2.close.1 := by
  induction chunks generalizing s with
  | nil => rfl
  | cons chunk rest ih => rw [read, ih, feedAll, List.append_assoc]

theorem stream_feedAll (s : Splitter) (chunks : List Bytes) : (s.feedAll chunks).2.stream = s.stream := by
  induction chunks generalizing s with
  | nil => rfl
  | cons chunk rest ih => exact ih (s.feed chunk).2

theorem stream_of_mem_feedAll {s : Splitter} {chunks : List Bytes} {l : Line} (h : l ∈ (s.feedAll chunks).1) :
    l.stream = s.stream := by
  induction chunks generalizing s with
  | nil => cases h
  | cons chunk rest ih => exact (List.mem_append.1 h).elim stream_of_mem_feed ih

/-- Several chunks finish the lines of their concatenation and leave begun what it leaves. -/
theorem finished_feedAll {s : Splitter} (h : s.Within) (chunks : List Bytes) :
    finished (s.feedAll chunks).1 = finished (s.feed chunks.flatten).1 ∧
      (s.feedAll chunks).2 = (s.feed chunks.flatten).2 := by
  induction chunks generalizing s with
  | nil =>
    obtain ⟨hnone, hsame⟩ := h.feed_nil
    exact ⟨hnone.symm, hsame.symm⟩
  | cons chunk rest ih =>
    obtain ⟨hlines, hstate⟩ := ih (within_feed s chunk)
    obtain ⟨hjoined, hafter⟩ := finished_feed_append s chunk rest.flatten
    rw [feedAll, finished_append, hlines, hstate, List.flatten_cons]
    exact ⟨hjoined, hafter⟩

/-- The text that the bytes read so far stand for, a sequence that was begun left out. -/
def decoded (bytes : Bytes) : Text :=
  Utf8.patched (Utf8.Decoder.ready.feed bytes).1

/-- What is decoded is a beginning of the whole text. -/
theorem decoded_prefix (a b : Bytes) : decoded a <+: Utf8.wholeText (a ++ b) := by
  rw [Utf8.wholeText, ← Utf8.pieces_eq_whole, Utf8.pieces, Utf8.Decoder.feed_append]
  simp only [decoded, Utf8.patched, List.map_append, List.append_assoc]
  exact List.prefix_append _ _

variable (stream : Stream) (bytes : Bytes)

theorem finished_feed_fresh :
    finished (({ stream } : Splitter).feed bytes).1 =
      (Text.cutLines (decoded bytes)).1.map fun l => ⟨stream, l.dropReturn, true⟩ := by
  rw [feed_eq, finished_append, finished_fragment, List.append_nil, extend, finished_map]
  rfl

theorem feed_fresh :
    (({ stream } : Splitter).feed bytes).2 =
      ⟨stream, (Utf8.Decoder.ready.feed bytes).2, (Text.cutLines (decoded bytes)).2⟩ := rfl

/-- Behind the lines that a chunk finishes stands the part that it leaves. -/
theorem feed_eq_finished (s : Splitter) (chunk : Bytes) :
    (s.feed chunk).1 = finished (s.feed chunk).1 ++ (s.feed chunk).2.fragment false := by
  have hlines : finished (s.feed chunk).1 =
      ({ s with decoder := (s.decoder.feed chunk).2 }.extend
        (Utf8.patched (s.decoder.feed chunk).1)).1 := by
    rw [feed_eq, finished_append, finished_fragment, List.append_nil]
    exact finished_map _ _
  rw [hlines]
  exact feed_eq s chunk

/-- The finished lines of a stream that comes at once are those of its text and the rest. -/
theorem finished_whole :
    let pieces := (Utf8.wholeText bytes).cutAt '\n'
    finished (({ stream } : Splitter).feed bytes).1 ++
        finished (({ stream } : Splitter).feed bytes).2.close.1 =
      (pieces.dropLast.map fun l => ⟨stream, l.dropReturn, true⟩) ++
        (if pieces.getLastD [] = [] then [] else [⟨stream, pieces.getLastD [], true⟩]) := by
  intro pieces
  have htext : Utf8.wholeText bytes =
      decoded bytes ++ Utf8.patched (Utf8.Decoder.ready.feed bytes).2.finish := by
    rw [Utf8.wholeText, ← Utf8.pieces_eq_whole, Utf8.pieces, decoded, Utf8.patched, Utf8.patched,
      Utf8.patched, List.map_append]
  have hcut := Text.cutLines_append (decoded bytes)
    (Utf8.patched (Utf8.Decoder.ready.feed bytes).2.finish)
  rw [← htext] at hcut
  have hclose : finished (({ stream } : Splitter).feed bytes).2.close.1 =
      (({ stream } : Splitter).feed bytes).2.close.1 :=
    List.filter_eq_self.2 fun l hl => final_of_mem_close hl
  have hpieces : pieces = (Text.cutLines (Utf8.wholeText bytes)).1 ++
      [(Text.cutLines (Utf8.wholeText bytes)).2] := Text.cutAt_newline _
  rw [hclose, finished_feed_fresh, feed_fresh, close_eq, extend, hpieces, List.dropLast_concat,
    List.getLastD_concat, hcut]
  simp only [List.map_append, List.append_assoc, fragment, List.isEmpty_iff]

/-- **The lines of a stream are the lines of its text**, and what a chunk shows of a line is a beginning
of the line that the stream is in. -/
theorem read_whole (stream : Stream) (chunks : List Bytes) :
    let pieces := (Utf8.wholeText chunks.flatten).cutAt '\n'
    finished (read { stream } chunks) =
        (pieces.dropLast.map fun l => ⟨stream, l.dropReturn, true⟩) ++
          (if pieces.getLastD [] = [] then [] else [⟨stream, pieces.getLastD [], true⟩]) ∧
      ∀ before chunk after, chunks = before ++ chunk :: after →
        let lines := ((feedAll { stream } before).2.feed chunk).1
        ∃ part,
          lines = finished lines ++ (if part = [] then [] else [⟨stream, part, false⟩]) ∧
            '\n' ∉ part ∧
            ∃ line, pieces[(finished (feedAll { stream } (before ++ [chunk])).1).length]? = some line ∧
              part <+: line := by
  intro pieces
  refine ⟨?_, ?_⟩
  · rw [finished_read (within_fresh stream), finished_whole]
  · intro before chunk after hchunks lines
    have hlines : feedAll { stream } (before ++ [chunk]) =
        ((feedAll { stream } before).1 ++ lines, ((feedAll { stream } before).2.feed chunk).2) := by
      rw [feedAll_append]
      simp only [feedAll, List.append_nil, lines]
    obtain ⟨hfinished, hstate⟩ := finished_feedAll (within_fresh stream) (before ++ [chunk])
    rw [feed_fresh] at hstate
    rw [hlines] at hstate
    refine ⟨(Text.cutLines (decoded (before ++ [chunk]).flatten)).2, ?_,
      Text.newline_not_mem_rest _, ?_⟩
    · have hfragment := feed_eq_finished (feedAll { stream } before).2 chunk
      rw [hstate] at hfragment
      simpa only [fragment, List.isEmpty_iff] using hfragment
    · obtain ⟨later, hlater⟩ : decoded (before ++ [chunk]).flatten <+: Utf8.wholeText chunks.flatten := by
        have hbytes : chunks.flatten = (before ++ [chunk]).flatten ++ after.flatten := by
          rw [hchunks]
          simp
        rw [hbytes]
        exact decoded_prefix _ _
      obtain ⟨piece, rest, hpiece, hline⟩ := Text.cutAt_append_of_not_mem
        (Text.newline_not_mem_rest (decoded (before ++ [chunk]).flatten)) later
      have hpieces : pieces = (Text.cutLines (decoded (before ++ [chunk]).flatten)).1 ++
          ((Text.cutLines (decoded (before ++ [chunk]).flatten)).2 ++ piece) :: rest := by
        rw [← hline, Text.cutAt_newline, ← List.append_assoc]
        show Text.cutAt '\n' _ = _
        rw [← hlater, Text.cutAt_newline, Text.cutLines_append]
      refine ⟨(Text.cutLines (decoded (before ++ [chunk]).flatten)).2 ++ piece, ?_,
        List.prefix_append _ _⟩
      rw [hfinished, finished_feed_fresh, List.length_map, hpieces,
        List.getElem?_append_right (Nat.le_refl _), Nat.sub_self, List.getElem?_cons_zero]

/-- A stream cut inside a character of three bytes and between the two characters of a line's end, with
a malformed byte behind it. -/
theorem read_whole_inside_character :
    let chunks : List Bytes := [[0x61, 0xE2], [0x82], [0xAC, 0x0D], [0x0A, 0xFF]]
    finished (read { stream := .stdout } chunks) =
        [⟨.stdout, "a€".toList, true⟩, ⟨.stdout, ['\uFFFD'], true⟩] ∧
      ∃ part, ((feedAll { stream := .stdout } [[0x61, 0xE2], [0x82]]).2.feed [0xAC, 0x0D]).1 =
          [⟨.stdout, part, false⟩] ∧ part ≠ [] ∧ part <+: "a€\r".toList := by
  intro chunks
  obtain ⟨hlines, hparts⟩ := read_whole .stdout chunks
  obtain ⟨part, hpart, _, line, hline, hbegin⟩ := hparts [[0x61, 0xE2], [0x82]] [0xAC, 0x0D] _ rfl
  have hpieces : (Utf8.wholeText chunks.flatten).cutAt '\n' = ["a€\r".toList, ['\uFFFD']] := by
    rw [Utf8.wholeText, ← Utf8.pieces_eq_whole]
    decide
  rw [hpieces] at hlines hline
  have hfirst : line = "a€\r".toList := by
    have hnone : (finished (feedAll { stream := .stdout }
        ([[0x61, 0xE2], [0x82]] ++ [[0xAC, 0x0D]])).1).length = 0 := by decide
    rw [hnone] at hline
    exact (Option.some.inj hline).symm
  have hshown : ((feedAll { stream := .stdout } [[0x61, 0xE2], [0x82]]).2.feed [0xAC, 0x0D]).1 =
      [⟨.stdout, "a€\r".toList, false⟩] := by decide
  have hne : part ≠ [] := by
    rintro rfl
    rw [hshown] at hpart
    exact absurd hpart (by decide)
  refine ⟨hlines, part, ?_, hne, hfirst ▸ hbegin⟩
  rw [hpart, if_neg hne, hshown]
  rfl

end Splitter

end Fenceline
