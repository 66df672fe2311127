import Fenceline.Text.Basic

/-!
# Escape sequences

What a terminal takes for colours and titles: a control sequence is ESC `[`, parameters, intermediate
characters and one final character; an operating system command is ESC `]`, anything but BEL and ESC,
and then BEL or ESC backslash. A sequence that is not complete is text like any other.

**The law.** `length_sequence?`: a complete sequence is not empty, so removing all of them ends.
-/

namespace Fenceline.Text

/-- The character that begins an escape sequence. -/
def esc : Char := '\x1b'

/-- The character that may end an operating system command. -/
def bel : Char := '\x07'

/-- A parameter character of a control sequence. -/
def isParameter (c : Char) : Bool :=
  c.isDigit || c == ';' || c == '?'

/-- An intermediate character of a control sequence. -/
def isIntermediate (c : Char) : Bool :=
  decide (' ' ≤ c) && decide (c ≤ '/')

/-- A final character of a control sequence. -/
def isFinal (c : Char) : Bool :=
  decide ('@' ≤ c) && decide (c ≤ '~')

/-- What follows the control sequence whose ESC `[` has been read. -/
def afterControl? (t : Text) : Option Text :=
  match (t.dropWhile isParameter).dropWhile isIntermediate with
  | c :: r => if isFinal c then some r else none
  | [] => none

/-- What follows the operating system command whose ESC `]` has been read. -/
def afterCommand? (t : Text) : Option Text :=
  match t.dropWhile fun c => c != bel && c != esc with
  | c :: r => if c = bel then some r else cutPrefix? ['\\'] r
  | [] => none

/-- What follows a text that begins with a complete escape sequence. -/
def sequence? : Text → Option Text
  | c :: d :: r =>
    if c = esc then
      if d = '[' then afterControl? r else if d = ']' then afterCommand? r else none
    else none
  | _ => none

theorem length_afterControl? {t r : Text} (h : afterControl? t = some r) : r.length ≤ t.length := by
  have h1 := (t.dropWhile_suffix isParameter).length_le
  have h2 := ((t.dropWhile isParameter).dropWhile_suffix isIntermediate).length_le
  unfold afterControl? at h
  split at h
  · rename_i c s hs
    rw [hs] at h2
    split at h <;> simp_all
    omega
  · simp at h

theorem length_afterCommand? {t r : Text} (h : afterCommand? t = some r) : r.length ≤ t.length := by
  have h1 := (t.dropWhile_suffix fun c => c != bel && c != esc).length_le
  unfold afterCommand? at h
  split at h
  · rename_i c s hs
    rw [hs] at h1
    split at h
    · simp_all; omega
    · rw [cutPrefix?_eq_some_iff] at h
      simp_all; omega
  · simp at h

/-- **What follows a sequence is shorter than the text.** -/
theorem length_sequence? {t r : Text} (h : sequence? t = some r) : r.length < t.length := by
  unfold sequence? at h
  split at h
  · rename_i c d s
    split at h
    · split at h
      · have := length_afterControl? h; simp; omega
      · split at h
        · have := length_afterCommand? h; simp; omega
        · simp at h
    · simp at h
  · simp at h

/-- The text without its complete escape sequences. -/
def stripEscapes (t : Text) : Text :=
  match _h : sequence? t with
  | some rest => stripEscapes rest
  | none =>
    match t with
    | [] => []
    | c :: r => c :: stripEscapes r
termination_by t.length
decreasing_by
  · exact length_sequence? _h
  · simp

end Fenceline.Text
