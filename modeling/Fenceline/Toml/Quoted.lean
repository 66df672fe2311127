import Fenceline.Text.Basic

/-!
# Quoted texts of TOML

The four ways to write a text: between one or three quotation marks, where a backslash begins an escape,
and between one or three apostrophes, where nothing does. A reading takes the text behind the opening mark
and gives the value and what is left.

**The law.** `plain_append`: a text without marks, backslashes and control characters stands for itself.
-/

namespace Fenceline.Toml

/-- Why a text is no TOML. -/
inductive Fault where
  | malformed
  /-- A number has too many digits to be read. -/
  | longNumeral (digits : Nat)
  deriving DecidableEq, Repr

/-- A blank within a line. -/
def isSpace (c : Char) : Bool :=
  c == ' ' || c == '\t'

/-- A blank or the end of a line. -/
def isSpaceOrNewline (c : Char) : Bool :=
  isSpace c || c == '\n'

/-- A control character, which stands nowhere in a line. -/
def isControl (c : Char) : Bool :=
  (c.toNat < 0x20 || c.toNat == 0x7F) && c != '\t'

/-- Whether a character may stand in a text that is written over one line or over several. -/
def isAllowed (multiline : Bool) (c : Char) : Bool :=
  !isControl c || (multiline && c == '\n')

namespace Quoted

/-- The value of a hexadecimal digit. -/
def hexDigit? (c : Char) : Option Nat :=
  if c.isDigit then some (c.toNat - '0'.toNat)
  else if 'a' ≤ c ∧ c ≤ 'f' then some (c.toNat - 'a'.toNat + 10)
  else if 'A' ≤ c ∧ c ≤ 'F' then some (c.toNat - 'A'.toNat + 10)
  else none

/-- The character with a number of `n` hexadecimal digits. -/
def hexChar (n : Nat) (t : Text) : Except Fault (Text × Text) :=
  match (t.take n).mapM hexDigit? with
  | some digits =>
    let code := digits.foldl (fun value d => value * 16 + d) 0
    if digits.length = n ∧ code.isValidChar then .ok ([Char.ofNat code], t.drop n)
    else .error .malformed
  | none => .error .malformed

/-- What an escape stands for, read from behind its backslash. -/
def escape (multiline : Bool) : Text → Except Fault (Text × Text)
  | 'b' :: r => .ok (['\x08'], r)
  | 't' :: r => .ok (['\t'], r)
  | 'n' :: r => .ok (['\n'], r)
  | 'f' :: r => .ok (['\x0C'], r)
  | 'r' :: r => .ok (['\r'], r)
  | '"' :: r => .ok (['"'], r)
  | '\\' :: r => .ok (['\\'], r)
  | 'u' :: r => hexChar 4 r
  | 'U' :: r => hexChar 8 r
  | c :: r =>
    if multiline && isSpaceOrNewline c then
      match (c :: r).dropWhile isSpace with
      | [] => .ok ([], [])
      | '\n' :: r => .ok ([], r.dropWhile isSpaceOrNewline)
      | _ => .error .malformed
    else .error .malformed
  | [] => .error .malformed

/-- The value with a text before it. -/
def behind (t : Text) (r : Except Fault (Text × Text)) : Except Fault (Text × Text) :=
  r.map fun (value, rest) => (t ++ value, rest)

/-- The value up to the closing quotation marks; the length of the text bounds the steps. -/
def basic (multiline : Bool) : Nat → Text → Except Fault (Text × Text)
  | 0, _ => .error .malformed
  | _ + 1, [] => .error .malformed
  | n + 1, '"' :: r =>
    if multiline then
      match Text.cutPrefix? ['"', '"'] r with
      | some rest => .ok ([], rest)
      | none => behind ['"'] (basic multiline n r)
    else .ok ([], r)
  | n + 1, '\\' :: r => do
    let (piece, rest) ← escape multiline r
    behind piece (basic multiline n rest)
  | n + 1, c :: r =>
    if isAllowed multiline c then behind [c] (basic multiline n r) else .error .malformed

/-- The value up to the closing mark, nothing being escaped. -/
def literal (multiline : Bool) (mark : Text) : Text → Except Fault (Text × Text)
  | [] => .error .malformed
  | c :: r =>
    match Text.cutPrefix? mark (c :: r) with
    | some rest => .ok ([], rest)
    | none =>
      if isAllowed multiline c then behind [c] (literal multiline mark r) else .error .malformed

/-- The value with one or two marks that stand right behind the closing ones. -/
def withMarks (mark : Char) (value : Text) : Text → Text × Text
  | c :: d :: r =>
    if c = mark then if d = mark then (value ++ [c, d], r) else (value ++ [c], d :: r)
    else (value, c :: d :: r)
  | [c] => if c = mark then (value ++ [c], []) else (value, [c])
  | [] => (value, [])

/-- The text without a line feed at its beginning. -/
def dropNewline : Text → Text
  | '\n' :: r => r
  | t => t

/-- A text on one line, read from its opening mark. -/
def line? : Text → Option (Except Fault (Text × Text))
  | '"' :: r => some (basic false (r.length + 1) r)
  | '\'' :: r => some (literal false ['\''] r)
  | _ => none

/-- A text over several lines, read from its opening marks. -/
def lines? (t : Text) : Option (Except Fault (Text × Text)) :=
  match Text.cutPrefix? ['"', '"', '"'] t, Text.cutPrefix? ['\'', '\'', '\''] t with
  | some r, _ =>
    some do
      let (value, rest) ← basic true (r.length + 1) (dropNewline r)
      return withMarks '"' value rest
  | none, some r =>
    some do
      let (value, rest) ← literal true ['\'', '\'', '\''] (dropNewline r)
      return withMarks '\'' value rest
  | none, none => none

/-- A text in any of the four ways. -/
def any? (t : Text) : Option (Except Fault (Text × Text)) :=
  lines? t <|> line? t

/-- **A plain text stands for itself.** -/
theorem plain_append {t : Text} (h : ∀ c ∈ t, isControl c = false ∧ c ≠ '"' ∧ c ≠ '\\') (n : Nat)
    (rest : Text) : basic false (t.length + 1 + n) (t ++ '"' :: rest) = .ok (t, rest) := by
  induction t with
  | nil =>
    rw [show ([] : Text).length + 1 + n = n + 1 by simp [Nat.add_comm]]
    rfl
  | cons c t ih =>
    have hc := h c (by simp)
    rw [show (c :: t).length + 1 + n = (t.length + 1 + n) + 1 by simp; omega, List.cons_append, basic]
    · simp [isAllowed, hc.1, ih fun d hd => h d (by simp [hd]), behind, Except.map]
    · exact hc.2.1
    · exact hc.2.2

end Quoted

end Fenceline.Toml
