import Fenceline.Failure
import Fenceline.Keyed
import Fenceline.Utf8

/-!
# File trees

A file tree says what stands at each place: nothing, a directory, or a file. A path is followed name by
name, and every name but the last has to lead to a directory; names and paths of too many bytes are not
followed. A file remembers when it was made and when it was last written, which is all that tells whether
it is still the same file.

**The laws.** `node?_put_self`, `node?_put_of_ne`: writing a file changes that file and, but for the
directories above it, nothing else.

**What it does not establish.** Anything about trees that hold more than directories and files: no place is a link
to another one or a pipe, nobody is refused what stands there, and of the permissions of a file only whether it can
be executed is told.
-/

namespace Fenceline

/-- A file of a tree. -/
structure FileTree.File where
  bytes : Bytes
  /-- The time at which the file was made. -/
  born : Nat
  /-- The time at which the file was last written. -/
  written : Nat
  executable : Bool := false
  deriving DecidableEq, Repr

/-- What stands at a place. -/
inductive FileTree.Node where
  | directory
  | file (file : FileTree.File)
  deriving DecidableEq, Repr

/-- What stands at each place, and the time. -/
structure FileTree where
  nodes : Keyed Absolute FileTree.Node := []
  clock : Nat := 0

namespace FileTree

variable (t : FileTree)

/-- What stands at a place; the root is a directory. -/
def node? (a : Absolute) : Option Node :=
  if a = [] then some .directory else t.nodes.get? a

/-- The file at a place. -/
def file? (a : Absolute) : Option File :=
  match t.node? a with
  | some (.file f) => some f
  | _ => none

/-- Whether a place is one of a directory. -/
def isDirectory (a : Absolute) : Bool :=
  t.node? a == some .directory

/-! ## Following paths -/

/-- The most bytes that a name may have. -/
def maxName : Nat := 255

/-- The most bytes that a path may have. -/
def maxPath : Nat := 4095

/-- Whether a text has at most so many bytes. -/
def fits (bytes : Nat) (t : Text) : Bool :=
  decide ((Utf8.encode t).length ≤ bytes)

/-- The place that names lead to from a directory. -/
def walk (a : Absolute) : List Text → Except Fault Absolute
  | [] => .ok a
  | name :: rest =>
    match t.node? a with
    | none => .error .noEntry
    | some (.file _) => .error .notDirectory
    | some .directory =>
      if fits maxName name then walk (Path.step a name) rest else .error .nameTooLong

/-- The place that a path leads to from the directory `cwd`. -/
def follow (cwd : Absolute) (p : Path) : Except Fault Absolute :=
  if fits maxPath p.toText then t.walk (if p.root = .relative then cwd else []) p.names
  else .error .nameTooLong

/-- What stands where a path leads from the directory `cwd`. -/
def look (cwd : Absolute) (p : Path) : Except Fault Node := do
  match t.node? (← t.follow cwd p) with
  | some node => .ok node
  | none => .error .noEntry

/-- Whether a path leads to a directory. -/
def leadsToDirectory (cwd : Absolute) (p : Path) : Bool :=
  match t.look cwd p with
  | .ok .directory => !p.hasNull
  | _ => false

/-! ## Changing the tree -/

/-- The tree with a directory at a place where nothing stood. -/
def addDirectory (a : Absolute) : FileTree :=
  match t.node? a with
  | none => { t with nodes := t.nodes.set a .directory }
  | some _ => t

/-- The places on the way from the root to a place, the root left out. -/
def way (a : Absolute) : List Absolute :=
  (List.range a.length).map fun n => a.take (n + 1)

/-- The tree with directories at a place and above it. -/
def addDirectories (a : Absolute) : FileTree :=
  (way a).foldl addDirectory t

/-- The tree with a file of this content at a place. A file that stood there stays the same file. -/
def put (a : Absolute) (bytes : Bytes) (executable : Bool := false) : FileTree :=
  let t := t.addDirectories a.dropLast
  let file : File :=
    match t.file? a with
    | some f => { f with bytes, written := t.clock }
    | none => { bytes, born := t.clock, written := t.clock, executable }
  { nodes := t.nodes.set a (.file file), clock := t.clock + 1 }

/-- The tree with a new file of this content in the place of the file that stood there. -/
def replace (a : Absolute) (bytes : Bytes) : FileTree :=
  let file : File :=
    { bytes, born := t.clock, written := t.clock, executable := (t.file? a).any (·.executable) }
  { nodes := t.nodes.set a (.file file), clock := t.clock + 1 }

/-- The tree without what stood at a place and below it. -/
def remove (a : Absolute) : FileTree :=
  { t with nodes := t.nodes.filter fun p => !a.isPrefixOf p.1 }

/-! ## Looking below a place -/

/-- The files below a place, with the names that lead to them from there. -/
def filesBelow (a : Absolute) : List (List Text × File) :=
  t.nodes.filterMap fun (place, _) =>
    if a.isPrefixOf place then (t.file? place).map (place.drop a.length, ·) else none

/-- The names of what stands in a directory. -/
def namesIn (a : Absolute) : List Text :=
  t.nodes.filterMap fun (place, _) =>
    if place.dropLast = a ∧ place ≠ [] then place.getLast? else none

/-! ## Laws -/

theorem node?_of_ne_nil {a : Absolute} (h : a ≠ []) : t.node? a = t.nodes.get? a := by
  simp [node?, h]

theorem node?_addDirectory_of_some {a b : Absolute} {n : Node} (h : t.node? b = some n) :
    (t.addDirectory a).node? b = some n := by
  unfold addDirectory
  split
  · rename_i ha
    by_cases hb : b = []
    · simpa [node?, hb] using h
    · have hne : b ≠ a := by rintro rfl; rw [ha] at h; cases h
      rw [node?_of_ne_nil _ hb] at h ⊢
      rw [Keyed.get?_set_of_ne _ _ hne, h]
  · exact h

theorem node?_addDirectories_of_some {a b : Absolute} {n : Node} (h : t.node? b = some n) :
    (t.addDirectories a).node? b = some n := by
  unfold addDirectories
  generalize way a = l
  induction l generalizing t with
  | nil => exact h
  | cons x l ih => exact ih _ (node?_addDirectory_of_some t h)

/-- **A file that was written is there.** -/
theorem node?_put_self {a : Absolute} (h : a ≠ []) (bytes : Bytes) :
    ((t.put a bytes).file? a).map (·.bytes) = some bytes := by
  simp only [put, file?, node?, h, if_false, Keyed.get?_set_self]
  split <;> simp

/-- **Writing a file leaves what stood elsewhere.** -/
theorem node?_put_of_ne {a b : Absolute} {n : Node} (hne : b ≠ a) (h : t.node? b = some n)
    (bytes : Bytes) : (t.put a bytes).node? b = some n := by
  by_cases hb : b = []
  · simpa [node?, hb] using h
  · have h' := node?_addDirectories_of_some t (a := a.dropLast) h
    rw [node?_of_ne_nil _ hb] at h' ⊢
    simpa only [put, Keyed.get?_set_of_ne _ _ hne] using h'

end FileTree

end Fenceline
