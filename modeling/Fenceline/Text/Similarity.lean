import Fenceline.Text.Basic

/-!
# Similar texts

Two texts are similar if they share much: the longest piece that stands in both, and then what the parts
before it and behind it share. What they share is measured against their lengths.

**The law.** `commonLength_le`: what two texts begin with is no longer than either of them.
-/

namespace Fenceline.Text

/-- The number of characters that two texts begin with in common. -/
def commonLength : Text → Text → Nat
  | a :: s, b :: t => if a = b then commonLength s t + 1 else 0
  | _, _ => 0

/-- A piece that stands in two texts: where it begins in either, and its length. -/
structure SharedPiece where
  inFirst : Nat
  inSecond : Nat
  length : Nat

/-- The longest piece that stands in two texts; of several the first in the first text, and of those the
first in the second. -/
def longestShared (s t : Text) : SharedPiece :=
  let pieces := (List.range s.length).flatMap fun i =>
    (List.range t.length).map fun j => ⟨i, j, commonLength (s.drop i) (t.drop j)⟩
  pieces.foldl (fun best p => if best.length < p.length then p else best) ⟨0, 0, 0⟩

/-- The number of characters that two texts share; the length of the first bounds the steps. -/
def sharedCount : Nat → Text → Text → Nat
  | 0, _, _ => 0
  | n + 1, s, t =>
    let p := longestShared s t
    if p.length = 0 then 0
    else
      p.length + sharedCount n (s.take p.inFirst) (t.take p.inSecond) +
        sharedCount n (s.drop (p.inFirst + p.length)) (t.drop (p.inSecond + p.length))

/-- A text with what it shares with another and the length of both. -/
structure Likeness where
  text : Text
  shared : Nat
  total : Nat

/-- How like a text is to a word. -/
def likeness (word t : Text) : Likeness :=
  ⟨t, sharedCount t.length t word, t.length + word.length⟩

namespace Likeness

/-- Whether the shared characters are at least three in ten of all. -/
def isSimilar (l : Likeness) : Bool :=
  decide (3 * l.total ≤ 10 * l.shared)

/-- The order of likenesses, the greater first, and of equal ones the later text first. -/
def precedes (k l : Likeness) : Bool :=
  if k.shared * l.total = l.shared * k.total then le l.text k.text
  else decide (l.shared * k.total < k.shared * l.total)

end Likeness

/-- The texts that are similar to a word, three at most, in the order of the texts. -/
def similarTo (word : Text) (texts : List Text) : List Text :=
  let likely := ((texts.map (likeness word)).filter (·.isSimilar)).mergeSort Likeness.precedes
  ((likely.take 3).map (·.text)).mergeSort le

/-- **What two texts begin with is no longer than either.** -/
theorem commonLength_le (s t : Text) : commonLength s t ≤ s.length ∧ commonLength s t ≤ t.length := by
  induction s generalizing t with
  | nil => simp [commonLength]
  | cons a s ih =>
    cases t with
    | nil => simp [commonLength]
    | cons b t =>
      rw [commonLength]
      split
      · have := ih t
        simp only [List.length_cons]
        omega
      · simp

end Fenceline.Text
