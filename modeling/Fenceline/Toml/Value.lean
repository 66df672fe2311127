import Fenceline.Toml.Numeral
import Fenceline.Toml.Table

/-!
# Keys and values of TOML

A key is a row of names with dots between them. A value is a text, a truth value, a number, a date, or
values in brackets: an array may go over several lines and hold comments, an inline table may not.

**The law.** `comment_rest`: a comment ends where its line does.
-/

namespace Fenceline.Toml

/-! ## Between values -/

/-- What is left behind a comment, if one begins here. -/
def comment : Text → Except Fault Text
  | '#' :: r =>
    if (r.takeWhile (· != '\n')).any isControl then .error .malformed
    else .ok (r.dropWhile (· != '\n'))
  | t => .ok t

/-- What is left behind blanks, ends of lines and comments; the length of the text bounds the steps. -/
def gap : Nat → Text → Except Fault Text
  | 0, t => .ok t
  | n + 1, t => do
    let r ← comment (t.dropWhile isSpaceOrNewline)
    if r.length < t.length then gap n r else return r

theorem dropWhile_notNewline (t : Text) :
    t.dropWhile (· != '\n') = [] ∨ (t.dropWhile (· != '\n')).head? = some '\n' := by
  induction t with
  | nil => exact .inl rfl
  | cons c t ih =>
    by_cases hc : c = '\n'
    · exact .inr (by simp [hc])
    · rw [List.dropWhile_cons_of_pos (by simp [hc])]
      exact ih

/-- **A comment ends where its line does.** -/
theorem comment_rest {t r : Text} (h : comment ('#' :: t) = .ok r) :
    r = [] ∨ r.head? = some '\n' := by
  simp only [comment] at h
  split at h
  · simp at h
  · rw [Except.ok.injEq] at h
    exact h ▸ dropWhile_notNewline t

/-! ## Keys -/

/-- A character of a name without quotation marks. -/
def isBare (c : Char) : Bool :=
  c.isAlphanum || c == '-' || c == '_'

/-- One name of a key. -/
def name (t : Text) : Except Fault (Text × Text) :=
  match t.takeWhile isBare with
  | [] => (Quoted.line? t).getD (.error .malformed)
  | bare => .ok (bare, t.dropWhile isBare)

/-- A key, and the blanks behind it; the length of the text bounds the steps. -/
def key : Nat → Text → Except Fault (Key × Text)
  | 0, _ => .error .malformed
  | n + 1, t => do
    let (first, rest) ← name t
    match rest.dropWhile isSpace with
    | '.' :: rest =>
      let (names, rest) ← key n (rest.dropWhile isSpace)
      return (first :: names, rest)
    | rest => return ([first], rest)

/-- A key and the value behind the equals sign, read by `value`. -/
def pair (value : Text → Except Fault (Setting × Text)) (t : Text) :
    Except Fault ((Key × Setting) × Text) := do
  let (names, rest) ← key (t.length + 1) t
  match rest with
  | '=' :: rest =>
    let (v, rest) ← value (rest.dropWhile isSpace)
    return ((names, v), rest)
  | _ => .error .malformed

/-! ## Values -/

/-- Whether a value holds others. -/
def isCompound : Setting → Bool
  | .list _ | .table _ => true
  | _ => false

/-- The inline table with one more value, and the keys of its compound values so far. -/
def addInline (d : Table) (closed : List Key) (names : Key) (v : Setting) :
    Except Fault (Table × List Key) :=
  if isWithin closed names then .error .malformed
  else
    match names.getLast? with
    | none => .error .malformed
    | some last =>
      match change? false (insert? last v) d names.dropLast with
      | some d => .ok (d, if isCompound v then closed ++ [names] else closed)
      | none => .error .malformed

mutual

/-- A value; the length of the text bounds the steps. -/
def value : Nat → Text → Except Fault (Setting × Text)
  | 0, _ => .error .malformed
  | n + 1, t =>
    match Quoted.any? t with
    | some r => r.map fun (v, rest) => (.text v, rest)
    | none =>
      match t with
      | '[' :: r => items n [] r
      | '{' :: r =>
        match r.dropWhile isSpace with
        | '\x7d' :: rest => .ok (.table [], rest)
        | r => entries n [] [] r
      | t =>
        match Text.cutPrefix? "true".toList t, Text.cutPrefix? "false".toList t with
        | some rest, _ => .ok (.bool true, rest)
        | none, some rest => .ok (.bool false, rest)
        | none, none => numeral t

/-- The rest of an array that has some items already. -/
def items : Nat → List Setting → Text → Except Fault (Setting × Text)
  | 0, _, _ => .error .malformed
  | n + 1, before, t => do
    match ← gap t.length t with
    | ']' :: rest => return (.list before, rest)
    | t =>
      let (v, rest) ← value n t
      match ← gap rest.length rest with
      | ']' :: rest => return (.list (before ++ [v]), rest)
      | ',' :: rest => items n (before ++ [v]) rest
      | _ => .error .malformed

/-- The rest of an inline table that has some values already. -/
def entries : Nat → Table → List Key → Text → Except Fault (Setting × Text)
  | 0, _, _, _ => .error .malformed
  | n + 1, d, closed, t => do
    let ((names, v), rest) ← pair (value n) t
    let (d, closed) ← addInline d closed names v
    match rest.dropWhile isSpace with
    | '\x7d' :: rest => return (.table d, rest)
    | ',' :: rest => entries n d closed (rest.dropWhile isSpace)
    | _ => .error .malformed

end

end Fenceline.Toml
