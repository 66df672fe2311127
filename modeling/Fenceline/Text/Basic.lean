/-!
# Text

A text is the list of its characters: every column, width and cut of this library counts characters.
The operations here are the ones that know nothing of character classes: cutting a known beginning,
trimming while a test holds, cutting at a character, replacing one text by another.

**The laws.** `cutPrefix?_eq_some_iff`: what is left after a known beginning, put behind it, is the
text. `joinWith_cutAt`: cutting at a character and joining with it again gives the text back.
-/

namespace Fenceline

/-- A text, character by character. -/
abbrev Text := List Char

namespace Text

/-- What follows `p` in a text that begins with it. -/
def cutPrefix? : Text → Text → Option Text
  | [], t => some t
  | _ :: _, [] => none
  | p :: ps, c :: t => if p = c then cutPrefix? ps t else none

/-- **Cutting a beginning loses nothing.** -/
theorem cutPrefix?_eq_some_iff {p t r : Text} : cutPrefix? p t = some r ↔ t = p ++ r := by
  induction p generalizing t with
  | nil => simp [cutPrefix?, eq_comm]
  | cons a p ih =>
    cases t with
    | nil => simp [cutPrefix?]
    | cons c t =>
      by_cases h : a = c
      · simp [cutPrefix?, h, ih]
      · simp [cutPrefix?, h, Ne.symm h]

/-- What stands before the end that `p` accepts. -/
def dropEndWhile (p : Char → Bool) (t : Text) : Text :=
  (t.reverse.dropWhile p).reverse

/-- The text without one `c` at its end. -/
def dropLast? (c : Char) (t : Text) : Text :=
  if t.getLast? = some c then t.dropLast else t

/-- The pieces between the occurrences of `c`; there is always at least one. -/
def cutAt (c : Char) : Text → List Text
  | [] => [[]]
  | x :: r =>
    if x = c then [] :: cutAt c r
    else
      match cutAt c r with
      | [] => [[x]]
      | p :: ps => (x :: p) :: ps

/-- The pieces with `sep` between any two of them. -/
def joinWith (sep : Text) : List Text → Text
  | [] => []
  | [p] => p
  | p :: ps => p ++ sep ++ joinWith sep ps

theorem cutAt_ne_nil (c : Char) (t : Text) : cutAt c t ≠ [] := by
  cases t with
  | nil => simp [cutAt]
  | cons x r => simp only [cutAt]; split <;> (try split) <;> simp

/-- **Joining what was cut gives the text back.** -/
theorem joinWith_cutAt (c : Char) (t : Text) : joinWith [c] (cutAt c t) = t := by
  induction t with
  | nil => rfl
  | cons x r ih =>
    rcases h : cutAt c r with _ | ⟨p, ps⟩
    · exact absurd h (cutAt_ne_nil c r)
    · rw [h] at ih
      by_cases hx : x = c
      · simp [cutAt, hx, h, joinWith, ih]
      · have hcut : cutAt c (x :: r) = (x :: p) :: ps := by simp [cutAt, hx, h]
        rw [hcut, ← ih]
        cases ps <;> simp [joinWith]

/-- Whether `p` stands somewhere in the text. -/
def occursIn (p : Text) : Text → Bool
  | [] => p.isEmpty
  | c :: r => p.isPrefixOf (c :: r) || occursIn p r

/-- The text with every `old` written as `new`, from left to right and without overlap. An empty
`old` stands nowhere. -/
def replaceAll (t old new : Text) : Text :=
  match t with
  | [] => []
  | c :: r =>
    match cutPrefix? old (c :: r) with
    | some rest =>
      if rest.length < (c :: r).length then new ++ replaceAll rest old new
      else c :: replaceAll r old new
    | none => c :: replaceAll r old new
termination_by t.length
decreasing_by all_goals simp_all

/-- The decimal digits of a number. -/
def ofNat (n : Nat) : Text :=
  Nat.toDigits 10 n

/-- The decimal digits of a number, a minus sign before them if it is negative. -/
def ofInt : Int → Text
  | .ofNat n => ofNat n
  | .negSucc n => '-' :: ofNat (n + 1)

/-- The order of texts by code point, the shorter first when it begins the other. -/
def le : Text → Text → Bool
  | [], _ => true
  | _ :: _, [] => false
  | a :: s, b :: t => if a = b then le s t else decide (a < b)

end Text

end Fenceline
