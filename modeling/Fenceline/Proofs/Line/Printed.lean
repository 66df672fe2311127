import Fenceline.Proofs.Line.Encoding
import Fenceline.Proofs.Line.Whole
import Fenceline.Proofs.Text.Places
import Mathlib.Data.List.Forall2

/-!
# Lines that are printed come back

A program prints lines, each with its line feed, and its bytes are read in chunks. Wherever the chunks end,
the reading of the stream is one burst for each line: parts, each a beginning of the line, and then the line.

**The law** (`bursts_read`): what is read of printed lines are the bursts of these lines. The text that is
still ahead of a splitter carries the induction (`ahead`): a chunk moves the lines that it finishes out of it
and leaves the rest.
-/

namespace Fenceline

namespace Text

variable {t : Text} {lines : List Text}

/-- **A text that can be printed as one line**: it holds no line feed, and no carriage return that would belong
to the line's end. -/
structure OneLine (t : Text) : Prop where
  newline : '\n' ∉ t
  carriage : t.getLast? ≠ some '\r'

instance (t : Text) : Decidable t.OneLine :=
  decidable_of_iff ('\n' ∉ t ∧ t.getLast? ≠ some '\r') ⟨fun h => ⟨h.1, h.2⟩, fun h => ⟨h.1, h.2⟩⟩

/-- The lines of what was printed are the lines that were printed. -/
theorem cutLines_unlines (h : ∀ l ∈ lines, '\n' ∉ l) : cutLines (unlines lines) = (lines, []) := by
  have hcut := cutAt_unlines h
  rw [cutAt_newline] at hcut
  obtain ⟨hlines, hrest⟩ := List.append_inj' hcut rfl
  exact Prod.ext hlines (List.singleton_inj.1 hrest)

theorem newline_not_mem_lines {l : Text} (h : l ∈ (cutLines t).1) : '\n' ∉ l := by
  apply not_mem_of_mem_cutAt (t := t)
  rw [cutAt_newline]
  exact List.mem_append_left _ h

/-- What stands behind the first of printed lines are the others. -/
theorem exists_later {first : List Text} {rest : Text} (hfirst : ∀ l ∈ first, '\n' ∉ l)
    (hlines : ∀ l ∈ lines, '\n' ∉ l) (h : unlines first ++ rest = unlines lines) :
    ∃ later, lines = first ++ later ∧ rest = unlines later := by
  have hcut := cutLines_append (unlines first) rest
  rw [h, cutLines_unlines hlines, cutLines_unlines hfirst, List.nil_append] at hcut
  obtain ⟨hlater, hend⟩ := Prod.mk.inj hcut
  refine ⟨(cutLines rest).1, hlater, ?_⟩
  conv_lhs => rw [← unlines_cutLines rest, ← hend, List.append_nil]

end Text

/-- **The burst of a line**: parts of it, each a beginning of the line, and then the line. -/
structure Burst.IsOf (stream : Stream) (t : Text) (b : Burst) : Prop where
  line : b.line = ⟨stream, t, true⟩
  parts : ∀ part ∈ b.parts, ∃ begun, part = ⟨stream, begun, false⟩ ∧ begun <+: t

namespace Burst

variable {stream : Stream} {lines : List Line} {t begun : Text}

theorem IsOf.whole (stream : Stream) (t : Text) : IsOf stream t ⟨[], ⟨stream, t, true⟩⟩ :=
  ⟨rfl, List.forall_mem_nil _⟩

/-- Finished lines are bursts without parts. -/
theorem ofLines_append (h : ∀ l ∈ lines, l.final = true) (rest : List Line) :
    ofLines (lines ++ rest) = lines.map (⟨[], ·⟩) ++ ofLines rest := by
  induction lines with
  | nil => rfl
  | cons l lines ih =>
    obtain ⟨hl, hlines⟩ := List.forall_mem_cons.1 h
    rw [List.cons_append, ofLines, if_pos hl, ih hlines]
    rfl

/-- A part of the line that is read next belongs to the burst of that line. -/
theorem isOf_ofLines_cons {texts : List Text} (h : List.Forall₂ (IsOf stream) texts (ofLines lines))
    (hne : texts ≠ []) (hbegun : ∀ t ∈ texts.head?, begun <+: t) :
    List.Forall₂ (IsOf stream) texts (ofLines (⟨stream, begun, false⟩ :: lines)) := by
  rw [ofLines, if_neg (by simp)]
  obtain ⟨t, texts, rfl⟩ := List.exists_cons_of_ne_nil hne
  obtain ⟨b, bs, hfirst, hrest, hbursts⟩ := List.forall₂_cons_left_iff.1 h
  rw [hbursts]
  exact .cons ⟨hfirst.line, List.forall_mem_cons.2 ⟨⟨begun, rfl, hbegun t rfl⟩, hfirst.parts⟩⟩ hrest

end Burst

namespace Splitter

variable {s : Splitter} {texts : List Text}

/-- The text that a splitter still has ahead when these bytes come: what was begun, and what they stand for. -/
def ahead (s : Splitter) (bytes : Bytes) : Text :=
  s.begun ++ Utf8.patched ((s.decoder.feed bytes).1 ++ (s.decoder.feed bytes).2.finish)

theorem ahead_fresh (stream : Stream) (t : Text) : ahead { stream } (Utf8.encode t) = t := by
  have hpieces : Utf8.pieces (Utf8.encode t) = t.map some := by
    rw [Utf8.pieces_eq_whole, Utf8.whole_encode]
  have htext : Utf8.patched (Utf8.pieces (Utf8.encode t)) = t := by
    rw [hpieces, Utf8.patched, List.map_map]
    exact List.map_id t
  exact htext

/-- A chunk takes the lines that it finishes from what is ahead. -/
theorem ahead_append (s : Splitter) (chunk rest : Bytes) :
    s.ahead (chunk ++ rest) =
      Text.unlines (Text.cutLines (s.begun ++ Utf8.patched (s.decoder.feed chunk).1)).1 ++
        (s.feed chunk).2.ahead rest := by
  have hcut := Text.unlines_cutLines (s.begun ++ Utf8.patched (s.decoder.feed chunk).1)
  show s.begun ++ Utf8.patched _ = _ ++ ((Text.cutLines _).2 ++ _)
  rw [← List.append_assoc, hcut, Utf8.Decoder.feed_append]
  simp only [Utf8.patched, List.map_append, List.append_assoc]
  rfl

/-- Lines that are finished and can be printed are given out as they are. -/
theorem map_dropReturn (stream : Stream) (htexts : ∀ t ∈ texts, t.OneLine) :
    (texts.map fun t => (⟨stream, t.dropReturn, true⟩ : Line)) = texts.map (⟨stream, ·, true⟩) :=
  List.map_congr_left fun t ht => by rw [Text.dropReturn_of_getLast? (htexts t ht).carriage]

theorem forall₂_whole (stream : Stream) (texts : List Text) :
    List.Forall₂ (Burst.IsOf stream) texts ((texts.map (⟨stream, ·, true⟩)).map (⟨[], ·⟩)) := by
  induction texts with
  | nil => exact .nil
  | cons t texts ih => exact .cons (.whole stream t) ih

/-- What was begun of printed lines is a beginning of the first of them. -/
theorem prefix_of_unlines {begun more : Text} (hbegun : '\n' ∉ begun) (h : begun ++ more = Text.unlines texts) :
    (begun ≠ [] → texts ≠ []) ∧ ∀ t ∈ texts.head?, begun <+: t := by
  constructor
  · rintro hne rfl
    exact hne (List.append_eq_nil_iff.1 h).1
  · intro t ht
    obtain ⟨rest, rfl⟩ := List.head?_eq_some_iff.1 ht
    refine Text.prefix_of_not_mem (x := '\n') (b := Text.unlines rest) hbegun ⟨more, ?_⟩
    rw [h, Text.unlines, List.flatMap_cons, List.append_assoc]
    rfl

/-- What is read of the lines that are ahead are their bursts. -/
theorem bursts_of_ahead (chunks : List Bytes) (htexts : ∀ t ∈ texts, t.OneLine)
    (hahead : s.ahead chunks.flatten = Text.unlines texts) :
    List.Forall₂ (Burst.IsOf s.stream) texts (Burst.ofLines (s.read chunks)) := by
  have hnewline : ∀ t ∈ texts, '\n' ∉ t := fun t ht => (htexts t ht).newline
  induction chunks generalizing s texts with
  | nil =>
    have hcut : Text.cutLines (s.begun ++ Utf8.patched s.decoder.finish) = (texts, []) := by
      rw [← Text.cutLines_unlines hnewline, ← hahead]
      rfl
    have hlines : s.read [] = texts.map (⟨s.stream, ·, true⟩) := by
      rw [read, close_eq, extend, hcut, ← map_dropReturn s.stream htexts]
      exact List.append_nil _
    rw [hlines, ← List.append_nil (texts.map _), Burst.ofLines_append (by simp)]
    simpa [Burst.ofLines] using forall₂_whole s.stream texts
  | cons chunk rest ih =>
    rw [List.flatten_cons, ahead_append] at hahead
    let x := s.begun ++ Utf8.patched (s.decoder.feed chunk).1
    -- the lines that the chunk finishes are the first of those that are ahead
    obtain ⟨later, rfl, hlater⟩ : ∃ later, texts = (Text.cutLines x).1 ++ later ∧
        (s.feed chunk).2.ahead rest.flatten = Text.unlines later :=
      Text.exists_later (fun l hl => Text.newline_not_mem_lines hl) hnewline hahead
    have hbegun : (s.feed chunk).2.begun = (Text.cutLines x).2 := rfl
    obtain ⟨hdone, hleft⟩ := List.forall_mem_append.1 htexts
    have hrest := ih (s := (s.feed chunk).2) hleft hlater fun t ht => (hleft t ht).newline
    have hlines : s.read (chunk :: rest) = (Text.cutLines x).1.map (⟨s.stream, ·, true⟩) ++
        ((s.feed chunk).2.fragment false ++ (s.feed chunk).2.read rest) := by
      rw [read, feed_eq, ← map_dropReturn s.stream hdone, List.append_assoc]
      rfl
    rw [hlines, Burst.ofLines_append (by simp)]
    refine List.rel_append (forall₂_whole s.stream _) ?_
    obtain ⟨hsome, hprefix⟩ := prefix_of_unlines (hbegun ▸ Text.newline_not_mem_rest x) hlater
    by_cases hnone : (s.feed chunk).2.begun = []
    · rw [fragment_of_nil hnone]
      exact hrest
    · rw [fragment_of_ne_nil hnone]
      exact Burst.isOf_ofLines_cons hrest (hsome hnone) hprefix

/-- **What is read of printed lines are their bursts**, wherever the chunks end. -/
theorem bursts_read (stream : Stream) {chunks : List Bytes} (htexts : ∀ t ∈ texts, t.OneLine)
    (hbytes : chunks.flatten = Utf8.encode (Text.unlines texts)) :
    List.Forall₂ (Burst.IsOf stream) texts (Burst.ofLines (read { stream } chunks)) :=
  bursts_of_ahead (s := { stream }) chunks htexts (by rw [hbytes, ahead_fresh])

end Splitter

end Fenceline
