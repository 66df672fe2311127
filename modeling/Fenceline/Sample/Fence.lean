import Fenceline.Pattern.Match

/-!
# Fences

An opening fence is a line that ends in three backticks and perhaps the name of a language. What stands
before the backticks is the indent, which the closing fence has to repeat; without the spaces at its end
it is the lead, which every line in between has to repeat.

**The law.** `isClosedBy_indent`: the indent and three backticks close a fence, whatever spaces follow.
-/

namespace Fenceline

/-- An opening fence. -/
structure Fence where
  /-- What stands before the backticks. -/
  indent : Text
  /-- The indent without the spaces at its end. -/
  lead : Text
  /-- The language that is named behind the backticks. -/
  language : Option Text
  deriving DecidableEq, Repr

namespace Fence

/-- The three backticks. -/
def marker : Text :=
  ['\x60', '\x60', '\x60']

/-- A space. -/
def isSpace (c : Char) : Bool :=
  c == ' '

open Pattern in
/-- The line of an opening fence. -/
def opening : Pattern :=
  all [atStart, group "indent" (seq (group "lead" something) (many .greedy isSpace)), literal marker,
    opt (group "language" word), many .greedy isSpace, atEnd]

/-- The opening fence that a line is. -/
def read? (line : Text) : Option Fence :=
  (opening.matchStart line).map fun m => ⟨m.get "indent", m.get "lead", m.get? "language"⟩

/-- Whether a line is the closing fence. -/
def isClosedBy (f : Fence) (line : Text) : Bool :=
  line.dropEndWhile isSpace == f.indent ++ marker

/-- Whether a line may stand between the fences. -/
def admits (f : Fence) (line : Text) : Bool :=
  f.lead.isPrefixOf line

theorem dropEndWhile_replicate (p : Char → Bool) (t : Text) (n : Nat) {c : Char} (h : p c = true) :
    Text.dropEndWhile p (t ++ List.replicate n c) = Text.dropEndWhile p t := by
  unfold Text.dropEndWhile
  rw [List.reverse_append, List.reverse_replicate]
  induction n with
  | zero => rfl
  | succ n _ => simp [List.replicate_succ, h]

/-- **The indent and three backticks close a fence.** -/
theorem isClosedBy_indent (f : Fence) (n : Nat) :
    f.isClosedBy (f.indent ++ marker ++ List.replicate n ' ') = true := by
  unfold isClosedBy
  rw [dropEndWhile_replicate isSpace _ n rfl]
  simp [Text.dropEndWhile, marker, isSpace]

end Fence

end Fenceline
