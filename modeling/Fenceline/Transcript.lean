import Fenceline.Line.Splitter

/-!
# What a toolchain wrote

A transcript is what came on the two streams, in the order in which it came. Reading it gives lines:
each stream has a splitter of its own, a long piece is read a bounded number of bytes at a time, and at
the end the standard output ends first. A read may fail; what came before it has been read.
-/

namespace Fenceline

/-- One thing that came on a stream: bytes, or a read that failed. -/
inductive Transcript.Item where
  | chunk (stream : Stream) (bytes : Bytes)
  | failure (stream : Stream) (message : Text)

namespace Transcript

/-- The stream of an item. -/
def Item.stream : Item → Stream
  | chunk s _ => s
  | failure s _ => s

/-- Bytes cut into reads of at most `size` bytes each; nothing can be read with size zero. -/
def reads (size : Nat) (bytes : Bytes) : List Bytes :=
  if 0 < size ∧ bytes ≠ [] then bytes.take size :: reads size (bytes.drop size) else []
termination_by bytes.length
decreasing_by
  rename_i h
  have := List.length_pos_iff.2 h.2
  simp; omega

/-- The splitters of the two streams. -/
structure Splitters where
  stdout : Splitter := { stream := .stdout }
  stderr : Splitter := { stream := .stderr }

namespace Splitters

/-- The lines of one read of a stream. -/
def feed (s : Splitters) (stream : Stream) (chunk : Bytes) : List Line × Splitters :=
  match stream with
  | .stdout => let (lines, t) := s.stdout.feed chunk; (lines, { s with stdout := t })
  | .stderr => let (lines, t) := s.stderr.feed chunk; (lines, { s with stderr := t })

/-- The lines of several reads of a stream. -/
def feedAll (s : Splitters) (stream : Stream) : List Bytes → List Line × Splitters
  | [] => ([], s)
  | chunk :: rest =>
    let (lines, s) := s.feed stream chunk
    let (more, s) := s.feedAll stream rest
    (lines ++ more, s)

/-- The lines of the end of both streams. -/
def close (s : Splitters) : List Line :=
  s.stdout.close.1 ++ s.stderr.close.1

end Splitters

/-- The lines of a transcript read with splitters that have read something already, and the message
of the read that failed. -/
def linesFrom (size : Nat) (s : Splitters) : List Item → List Line × Option Text
  | [] => (s.close, none)
  | .failure _ message :: _ => ([], some message)
  | .chunk stream bytes :: rest =>
    let (lines, s) := s.feedAll stream (reads size bytes)
    let (more, failure) := linesFrom size s rest
    (lines ++ more, failure)

/-- The lines of a transcript of the given streams, at most `size` bytes to a read. -/
def lines (streams : List Stream) (size : Nat) (items : List Item) : List Line × Option Text :=
  linesFrom size {} (items.filter (streams.contains ·.stream))

end Transcript

end Fenceline
