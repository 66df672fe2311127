import Fenceline.Text.Case

/-!
# Paths

A path is a root and the names behind it. Writing it leaves out empty names and `.`; `..` stays, as
only a look at a file tree or a resolution may take it away. Two leading slashes are a root of their
own, one and three or more are the usual one.

**The law.** `components_ne_dot`: no name of a path that was read is empty or `.`.
-/

namespace Fenceline

/-- Where a path begins. -/
inductive Path.Root where
  | relative
  | slash
  | doubleSlash
  deriving DecidableEq, Repr

/-- A root and the names behind it. -/
structure Path where
  root : Path.Root := .relative
  names : List Text
  deriving DecidableEq, Repr

/-- A resolved place in a file tree: the names from the root, none of them `.` or `..`. -/
abbrev Absolute := List Text

namespace Path

/-- The names of a spelled path. -/
def components (t : Text) : List Text :=
  (t.cutAt '/').filter fun name => name != [] && name != ['.']

theorem components_ne_dot {t name : Text} (h : name ∈ components t) : name ≠ [] ∧ name ≠ ['.'] := by
  simpa [components] using (List.mem_filter.1 h).2

/-- The root of a spelled path. -/
def rootOf : Text → Root
  | ['/', '/'] => .doubleSlash
  | '/' :: '/' :: c :: _ => if c = '/' then .slash else .doubleSlash
  | '/' :: _ => .slash
  | _ => .relative

/-- The path that is spelled so. -/
def ofText (t : Text) : Path :=
  ⟨rootOf t, components t⟩

/-- A place as a path. -/
def ofAbsolute (a : Absolute) : Path :=
  ⟨.slash, a⟩

/-- The spelling of a path. -/
def toText (p : Path) : Text :=
  match p.root with
  | .relative => if p.names.isEmpty then ['.'] else Text.joinWith ['/'] p.names
  | .slash => '/' :: Text.joinWith ['/'] p.names
  | .doubleSlash => '/' :: '/' :: Text.joinWith ['/'] p.names

/-- The second path as seen from the first. -/
def join (p q : Path) : Path :=
  match q.root with
  | .relative => { p with names := p.names ++ q.names }
  | _ => q

/-- The last name. -/
def name (p : Path) : Text :=
  p.names.getLast?.getD []

/-- The part of a name behind its last dot, if that dot is neither its first nor its last character. -/
def suffixOf (name : Text) : Text :=
  let reversed := name.reverse
  let suffix := (reversed.takeWhile (· != '.')).reverse
  match reversed.dropWhile (· != '.') with
  | '.' :: _ :: _ => suffix
  | _ => []

/-- The extension of a path: its name's suffix in lower case, without the dot. -/
def extension (p : Path) : Text :=
  (suffixOf p.name).lower

/-- The place that one more name leads to. -/
def step (a : Absolute) (name : Text) : Absolute :=
  if name = ['.', '.'] then a.dropLast else a ++ [name]

/-- The place of a path seen from `base`, `..` taken for the way up. -/
def resolve (base : Absolute) (p : Path) : Absolute :=
  p.names.foldl step (if p.root = .relative then base else [])

/-- Whether some name holds the null character, which no file tree knows. -/
def hasNull (p : Path) : Bool :=
  p.names.any (·.contains '\x00')

end Path

end Fenceline
