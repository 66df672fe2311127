import Fenceline.Toml.Value

/-!
# Documents of TOML

A document is a row of lines: a key with its value, or the header of the table, or of the next table of
an array, that the keys below it belong to. A table has one header at most, and what stands in brackets
is closed: nothing is added to it from outside.
-/

namespace Fenceline.Toml

/-- A document as far as it is read. -/
structure Sheet where
  root : Table := []
  /-- The table that keys belong to. -/
  header : Key := []
  /-- The tables that no header may name. -/
  declared : List Key := []
  /-- The places of compound values. -/
  closed : List Key := []
  /-- The tables that keys with dots made below the last header. -/
  dotted : List Key := []

namespace Sheet

/-- The sheet with the table that keys with dots made taken for declared. -/
def settle (s : Sheet) : Sheet :=
  { s with declared := s.declared ++ s.dotted, dotted := [] }

/-- The sheet with another root, if there is one. -/
def withRoot (s : Sheet) (root : Option Table) : Except Fault Sheet :=
  match root with
  | some root => .ok { s with root }
  | none => .error .malformed

/-- The sheet below the header of a table. -/
def openTable (s : Sheet) (k : Key) : Except Fault Sheet :=
  if s.declared.contains k || isWithin s.closed k then .error .malformed
  else
    { s with header := k, declared := s.declared ++ [k] }.withRoot (change? true some s.root k)

/-- The sheet below the header of the next table of an array. What was said of the table before it does
not hold for this one. -/
def openItem (s : Sheet) (k : Key) : Except Fault Sheet :=
  match k.getLast? with
  | none => .error .malformed
  | some last =>
    if isWithin s.closed k then .error .malformed
    else
      let isOutside := fun other : Key => !k.isPrefixOf other
      { s with
        header := k
        declared := s.declared.filter isOutside ++ [k]
        closed := s.closed.filter isOutside }.withRoot
        (change? true (append? last) s.root k.dropLast)

/-- The tables that a key with dots leads through. -/
def through (header k : Key) : List Key :=
  (List.range (k.length - 1)).map fun n => header ++ k.take (n + 1)

/-- The sheet with a value. -/
def assign (s : Sheet) (k : Key) (v : Setting) : Except Fault Sheet :=
  match k.getLast? with
  | none => .error .malformed
  | some last =>
    let parent := s.header ++ k.dropLast
    let tables := through s.header k
    if tables.any s.declared.contains || isWithin s.closed parent then .error .malformed
    else
      { s with
        dotted := s.dotted ++ tables
        closed := if isCompound v then s.closed ++ [s.header ++ k] else s.closed }.withRoot
        (change? true (insert? last v) s.root parent)

end Sheet

/-- What is left behind the end of a line. -/
def endOfLine (t : Text) : Except Fault Text := do
  match ← comment (t.dropWhile isSpace) with
  | [] => return []
  | '\n' :: rest => return rest
  | _ => .error .malformed

/-- The sheet after a header, read from behind its opening brackets. -/
def header (mark : Text) (change : Key → Except Fault Sheet) (t : Text) :
    Except Fault (Sheet × Text) := do
  let (k, rest) ← key (t.length + 1) (t.dropWhile isSpace)
  match Text.cutPrefix? mark rest with
  | some rest => return (← change k, rest)
  | none => .error .malformed

/-- The sheet after one line that says something. -/
def statement (s : Sheet) (t : Text) : Except Fault (Sheet × Text) :=
  match t with
  | '[' :: '[' :: r => header [']', ']'] s.settle.openItem r
  | '[' :: r => header [']'] s.settle.openTable r
  | t => do
    let ((k, v), rest) ← pair (value (2 * t.length + 2)) t
    return (← s.assign k v, rest)

/-- The sheet after all lines; the length of the text bounds their number. -/
def statements : Nat → Sheet → Text → Except Fault Sheet
  | 0, s, _ => .ok s
  | n + 1, s, t =>
    match t.dropWhile isSpace with
    | [] => .ok s
    | '\n' :: r => statements n s r
    | '#' :: r => do statements n s (← endOfLine ('#' :: r))
    | t => do
      let (s, rest) ← statement s t
      statements n s (← endOfLine rest)

/-- The table that a document is. -/
def read (t : Text) : Except Fault Table := do
  let t := t.replaceAll ['\r', '\n'] ['\n']
  return (← statements (t.length + 1) {} t).root

end Fenceline.Toml
