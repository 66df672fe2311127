import Fenceline.Line.Basic
import Fenceline.Utf8

/-!
# Splitting a stream into lines

A splitter turns the bytes of one stream into lines. Every line feed ends a line; when a chunk stops
within a line, the part that has come so far is given out too, and the line itself follows once its end
has come.

**The law.** `finished_feed_append`: the finished lines of two chunks, and where the splitter is after
them, are those of their concatenation.
-/

namespace Fenceline

/-- A stream that is being split: the sequence of bytes and the line that were begun. -/
structure Splitter where
  stream : Stream
  decoder : Utf8.Decoder := .ready
  begun : Text := []

namespace Splitter

/-- The lines that more characters finish, and the splitter after them. -/
def extend (s : Splitter) (t : Text) : List Line × Splitter :=
  let (lines, rest) := Text.cutLines (s.begun ++ t)
  (lines.map fun l => ⟨s.stream, l.dropReturn, true⟩, { s with begun := rest })

/-- The line that was begun, if it says something yet. -/
def fragment (s : Splitter) (final : Bool) : List Line :=
  if s.begun.isEmpty then [] else [⟨s.stream, s.begun, final⟩]

/-- The lines of one chunk: those that it finishes, then the part of a line that it leaves. -/
def feed (s : Splitter) (chunk : Bytes) : List Line × Splitter :=
  let (pieces, decoder) := s.decoder.feed chunk
  let (lines, s) := { s with decoder }.extend (Utf8.patched pieces)
  (lines ++ s.fragment false, s)

/-- The lines that the end of the stream finishes. -/
def close (s : Splitter) : List Line × Splitter :=
  let (lines, t) := { s with decoder := .ready }.extend (Utf8.patched s.decoder.finish)
  (lines ++ t.fragment true, { t with begun := [] })

/-- The lines whose end has come. -/
def finished (lines : List Line) : List Line :=
  lines.filter (·.final)

theorem finished_append (a b : List Line) : finished (a ++ b) = finished a ++ finished b :=
  List.filter_append ..

theorem finished_fragment (s : Splitter) : finished (s.fragment false) = [] := by
  unfold fragment
  split <;> rfl

theorem finished_map (stream : Stream) (lines : List Text) :
    finished (lines.map fun l => (⟨stream, l.dropReturn, true⟩ : Line)) =
      lines.map fun l => ⟨stream, l.dropReturn, true⟩ := by
  simp [finished]

/-- **Finished lines do not depend on how the stream was cut.** -/
theorem finished_feed_append (s : Splitter) (a b : Bytes) :
    finished (s.feed a).1 ++ finished ((s.feed a).2.feed b).1 = finished (s.feed (a ++ b)).1 ∧
      ((s.feed a).2.feed b).2 = (s.feed (a ++ b)).2 := by
  simp only [feed, extend, finished_append, finished_fragment, finished_map, List.append_nil,
    Utf8.Decoder.feed_append, Utf8.patched, List.map_append, ← List.append_assoc,
    Text.cutLines_append (s.begun ++ _), and_self]

end Splitter

end Fenceline
