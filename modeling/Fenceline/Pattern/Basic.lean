import Fenceline.Text.Blank
import Fenceline.Text.Numeral
import Fenceline.Text.Word

/-!
# Patterns

A pattern describes pieces of text and names parts of them. Its meaning is `results`: all the ways in
which it can be read from a place, the preferred one first. `attempt` looks for the first way that
the rest of a search accepts, and reads no further than that.

**The law.** `attempt_eq`: `attempt` finds what the first accepted result is, so whatever is said of
the list of results is said of the search.
-/

namespace Fenceline

/-- What a named part was read from: the text ahead when the part began and when it ended. -/
structure Capture where
  name : String
  opened : Text
  closed : Text

namespace Capture

/-- The text of a named part. -/
def text (c : Capture) : Text :=
  c.opened.take (c.opened.length - c.closed.length)

end Capture

/-- A place in a text: the character before it, the text ahead, and the parts named so far, the
latest first. -/
structure Cursor where
  before : Option Char
  ahead : Text
  captures : List Capture := []

/-- Whether a repetition takes as much or as little as it can. -/
inductive Appetite where
  | greedy
  | lazy
  deriving DecidableEq

/-- A description of pieces of text. -/
inductive Pattern where
  /-- One character of a class. -/
  | one (accepts : Char → Bool)
  /-- Exactly this text. -/
  | literal (text : Text)
  /-- Any number of characters of a class. -/
  | many (appetite : Appetite) (accepts : Char → Bool)
  /-- Any number of pieces, none of them empty, as many as possible. -/
  | star (p : Pattern)
  /-- One piece or none, one if possible. -/
  | opt (p : Pattern)
  /-- One piece and then the other. -/
  | seq (p q : Pattern)
  /-- The first piece if possible, or else the second. -/
  | alt (p q : Pattern)
  /-- A piece under a name. -/
  | group (name : String) (p : Pattern)
  /-- Nothing, at the beginning of the text. -/
  | atStart
  /-- Nothing, at the end of the text or before a line feed that ends it. -/
  | atEnd
  /-- Nothing, where a word begins or ends. -/
  | wordEdge
  /-- Nothing, unless a character of the class stands before. -/
  | notAfter (accepts : Char → Bool)

namespace Cursor

/-- The place behind the character ahead. -/
def next (c : Cursor) (x : Char) (r : Text) : Cursor :=
  { c with before := some x, ahead := r }

/-- The place behind one character of a class. -/
def pass? (c : Cursor) (accepts : Char → Bool) : Option Cursor :=
  match c.ahead with
  | x :: r => if accepts x then some (c.next x r) else none
  | [] => none

/-- The place behind a text. -/
def passText? (c : Cursor) : Text → Option Cursor
  | [] => some c
  | x :: t =>
    match c.pass? (· == x) with
    | some d => d.passText? t
    | none => none

/-- The places behind no, one, two, … characters of a class. -/
def passes (accepts : Char → Bool) (c : Cursor) : List Cursor :=
  go c.before c.ahead
where
  go (before : Option Char) (ahead : Text) : List Cursor :=
    { c with before, ahead } ::
      match ahead with
      | x :: r => if accepts x then go (some x) r else []
      | [] => []

/-- Whether the text ends here, but for one line feed. -/
def isAtEnd (c : Cursor) : Bool :=
  match c.ahead with
  | [] => true
  | ['\n'] => true
  | _ => false

/-- Whether a word begins or ends here. -/
def isWordEdge (c : Cursor) : Bool :=
  c.before.any Text.isWord != c.ahead.head?.any Text.isWord

/-- The cursor with the piece since `c` under a name. -/
def capture (name : String) (c d : Cursor) : Cursor :=
  { d with captures := ⟨name, c.ahead, d.ahead⟩ :: d.captures }

end Cursor

namespace Pattern

/-- The places behind any number of pieces, more pieces first, a piece being what `step` reads. Every
piece takes a character, so the length of the text bounds their number. -/
def starResults (step : Cursor → List Cursor) : Nat → Cursor → List Cursor
  | 0, c => [c]
  | n + 1, c =>
    ((step c).filter fun d => decide (d.ahead.length < c.ahead.length)).flatMap (starResults step n) ++ [c]

/-- All places behind a pattern read from `c`, in the order of preference. -/
def results : Pattern → Cursor → List Cursor
  | one accepts, c => (c.pass? accepts).toList
  | literal t, c => (c.passText? t).toList
  | many .greedy accepts, c => (c.passes accepts).reverse
  | many .lazy accepts, c => c.passes accepts
  | star p, c => starResults p.results c.ahead.length c
  | opt p, c => p.results c ++ [c]
  | seq p q, c => (p.results c).flatMap q.results
  | alt p q, c => p.results c ++ q.results c
  | group name p, c => (p.results c).map (c.capture name)
  | atStart, c => if c.before.isNone then [c] else []
  | atEnd, c => if c.isAtEnd then [c] else []
  | wordEdge, c => if c.isWordEdge then [c] else []
  | notAfter accepts, c => if c.before.any accepts then [] else [c]

/-- A search through any number of pieces. -/
def starAttempt {β : Type} (step : Cursor → (Cursor → Option β) → Option β) :
    Nat → Cursor → (Cursor → Option β) → Option β
  | 0, c, k => k c
  | n + 1, c, k =>
    (step c fun d => if d.ahead.length < c.ahead.length then starAttempt step n d k else none) <|> k c

/-- The first accepted place behind a pattern read from `c`, with what it was accepted for. -/
def attempt {β : Type} : Pattern → Cursor → (Cursor → Option β) → Option β
  | one accepts, c, k => (c.pass? accepts).bind k
  | literal t, c, k => (c.passText? t).bind k
  | many .greedy accepts, c, k => (c.passes accepts).reverse.findSome? k
  | many .lazy accepts, c, k => (c.passes accepts).findSome? k
  | star p, c, k => starAttempt p.attempt c.ahead.length c k
  | opt p, c, k => p.attempt c k <|> k c
  | seq p q, c, k => p.attempt c fun d => q.attempt d k
  | alt p q, c, k => p.attempt c k <|> q.attempt c k
  | group name p, c, k => p.attempt c fun d => k (c.capture name d)
  | atStart, c, k => if c.before.isNone then k c else none
  | atEnd, c, k => if c.isAtEnd then k c else none
  | wordEdge, c, k => if c.isWordEdge then k c else none
  | notAfter accepts, c, k => if c.before.any accepts then none else k c

theorem findSome?_flatMap {α β γ : Type} (l : List α) (f : α → List β) (k : β → Option γ) :
    (l.flatMap f).findSome? k = l.findSome? fun a => (f a).findSome? k := by
  induction l with
  | nil => rfl
  | cons a l ih =>
    rw [List.flatMap_cons, List.findSome?_append, ih, List.findSome?_cons]
    cases (f a).findSome? k <;> rfl

theorem findSome?_filter {α β : Type} (l : List α) (p : α → Bool) (k : α → Option β) :
    (l.filter p).findSome? k = l.findSome? fun a => if p a then k a else none := by
  induction l with
  | nil => rfl
  | cons a l ih => by_cases h : p a <;> simp [h, ih, List.findSome?_cons]

theorem starAttempt_eq {β : Type} {step : Cursor → (Cursor → Option β) → Option β}
    {read : Cursor → List Cursor} (h : ∀ c k, step c k = (read c).findSome? k) (n : Nat) (c : Cursor)
    (k : Cursor → Option β) : starAttempt step n c k = (starResults read n c).findSome? k := by
  induction n generalizing c with
  | zero => simp [starAttempt, starResults, List.findSome?_cons]; cases k c <;> rfl
  | succ n ih =>
    simp only [starAttempt, starResults, h, List.findSome?_append, findSome?_flatMap,
      findSome?_filter, ← ih, decide_eq_true_eq]
    simp only [List.findSome?_cons, List.findSome?_nil, Option.orElse_eq_orElse, Option.orElse_eq_or]
    cases k c <;> rfl

/-- **A search finds the first accepted result.** -/
theorem attempt_eq {β : Type} (p : Pattern) (c : Cursor) (k : Cursor → Option β) :
    p.attempt c k = (p.results c).findSome? k := by
  induction p generalizing c k with
  | one a =>
    simp only [attempt, results]
    cases c.pass? a with
    | none => rfl
    | some d => simp [List.findSome?_cons]; cases k d <;> rfl
  | literal t =>
    simp only [attempt, results]
    cases c.passText? t with
    | none => rfl
    | some d => simp [List.findSome?_cons]; cases k d <;> rfl
  | many how a => cases how <;> rfl
  | star p ih => exact starAttempt_eq ih _ _ _
  | opt p ih =>
    simp only [attempt, results, List.findSome?_append, ih, Option.orElse_eq_orElse, Option.orElse_eq_or]
    simp [List.findSome?_cons]; cases k c <;> rfl
  | seq p q ihp ihq => simp only [attempt, results, findSome?_flatMap, ihp, ihq]
  | alt p q ihp ihq => simp only [attempt, results, List.findSome?_append, ihp, ihq, Option.orElse_eq_orElse, Option.orElse_eq_or]
  | group name p ih => simp only [attempt, results, ih, List.findSome?_map]; rfl
  | atStart => simp only [attempt, results]; split <;> simp [List.findSome?_cons]; cases k c <;> rfl
  | atEnd => simp only [attempt, results]; split <;> simp [List.findSome?_cons]; cases k c <;> rfl
  | wordEdge => simp only [attempt, results]; split <;> simp [List.findSome?_cons]; cases k c <;> rfl
  | notAfter a => simp only [attempt, results]; split <;> simp [List.findSome?_cons]; cases k c <;> rfl

/-- The names that a pattern gives to parts of what it reads. -/
def names : Pattern → List String
  | star p => p.names
  | opt p => p.names
  | seq p q => p.names ++ q.names
  | alt p q => p.names ++ q.names
  | group name p => name :: p.names
  | _ => []

/-! ## Building patterns -/

/-- Patterns one after the other. -/
def all : List Pattern → Pattern
  | [] => literal []
  | [p] => p
  | p :: ps => seq p (all ps)

/-- The first of several patterns that can be read. -/
def anyOf : Pattern → List Pattern → Pattern
  | p, [] => p
  | p, q :: qs => alt p (anyOf q qs)

/-- Exactly the characters of `s`. -/
def lit (s : String) : Pattern :=
  literal s.toList

/-- Exactly the characters of `s`, or nothing. -/
def maybe (s : String) : Pattern :=
  opt (lit s)

/-- At least one character of a class. -/
def some1 (appetite : Appetite) (accepts : Char → Bool) : Pattern :=
  seq (one accepts) (many appetite accepts)

/-- Any character but a line feed. -/
def notNewline (c : Char) : Bool :=
  c != '\n'

/-- Any character that is not blank. -/
def notBlank (c : Char) : Bool :=
  !Text.isBlank c

/-- What is left of the line. -/
def anything : Pattern :=
  many .greedy notNewline

/-- As little of the line as possible. -/
def something : Pattern :=
  many .lazy notNewline

/-- A run of decimal digits. -/
def digits : Pattern :=
  some1 .greedy Text.isDecimal

/-- A run of word characters. -/
def word : Pattern :=
  some1 .greedy Text.isWord

/-- A piece that begins with a character that is not blank and is as short as possible. -/
def solid : Pattern :=
  seq (one notBlank) something

end Pattern

end Fenceline
