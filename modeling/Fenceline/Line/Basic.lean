import Fenceline.Text.Basic

/-!
# Lines

A line is what the toolchain wrote up to a line feed, or the part of it that has come so far. The
carriage return before a line feed belongs to the line's end.

**The laws.** `unlines_cutLines`: the finished lines and the rest give the text back.
`cutLines_append`: more of a text is cut as if it stood behind the rest.
-/

namespace Fenceline

/-- The two streams of a running toolchain. -/
inductive Stream where
  | stdout
  | stderr
  deriving DecidableEq, Repr

namespace Stream

/-- The name of a stream. -/
def name : Stream → String
  | stdout => "stdout"
  | stderr => "stderr"

end Stream

/-- A line, or the part of one that has come so far. -/
structure Line where
  /-- The stream it came on. -/
  stream : Stream
  /-- What it says, without the line's end. -/
  text : Text
  /-- Whether its end has come. -/
  final : Bool := true
  deriving DecidableEq, Repr

namespace Text

/-- The finished lines of a text, with what their line feeds leave of their ends, and the rest after
the last line feed. -/
def cutLines : Text → List Text × Text
  | [] => ([], [])
  | c :: r =>
    let (lines, rest) := cutLines r
    if c = '\n' then ([] :: lines, rest)
    else
      match lines with
      | [] => ([], c :: rest)
      | l :: ls => ((c :: l) :: ls, rest)

/-- Lines, each with its line feed. -/
def unlines (lines : List Text) : Text :=
  lines.flatMap (· ++ ['\n'])

/-- **Cutting into lines loses nothing.** -/
theorem unlines_cutLines (t : Text) : unlines (cutLines t).1 ++ (cutLines t).2 = t := by
  induction t with
  | nil => rfl
  | cons c r ih =>
    rcases h : cutLines r with ⟨lines, rest⟩
    rw [h] at ih
    by_cases hc : c = '\n'
    · simpa [cutLines, h, hc, unlines] using ih
    · cases lines <;> simpa [cutLines, h, hc, unlines] using ih

/-- **Cutting on goes on from the rest.** -/
theorem cutLines_append (x y : Text) :
    cutLines (x ++ y) =
      ((cutLines x).1 ++ (cutLines ((cutLines x).2 ++ y)).1, (cutLines ((cutLines x).2 ++ y)).2) := by
  induction x with
  | nil => rfl
  | cons c r ih =>
    have hr := unlines_cutLines r
    rcases h : cutLines r with ⟨lines, rest⟩
    rw [h] at ih hr
    by_cases hc : c = '\n'
    · simp [cutLines, h, hc, ih]
    · cases lines with
      | nil =>
        have hrest : rest = r := hr
        simp [cutLines, h, hc, hrest]
      | cons l lines => simp [cutLines, h, hc, ih]

/-- The line without the carriage return at its end. -/
def dropReturn (t : Text) : Text :=
  t.dropLast? '\r'

end Text

end Fenceline
