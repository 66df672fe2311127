import Fenceline.Files.Tree

/-!
# Documents

A document is a file that is read as text and written as a whole. It is written only if it is still the
file that was looked at before it was read: the same file, of the same size, last written at the same
time.

**The law.** `ensureSame_eq_ok_iff`: nothing stands in the way of writing just if the document has the stamp that
it had.
-/

namespace Fenceline

/-- What tells whether a file is still the same. -/
structure Stamp where
  /-- Which file it is on its device. -/
  inode : Option Int
  device : Option Int
  size : Int
  /-- When it was last written. -/
  written : Int
  deriving DecidableEq, Repr

namespace Stamp

/-- Nothing, unless the file at a path has another stamp than before. -/
def ensureSame (before after : Stamp) (p : Path) : Except Failure Unit :=
  if before = after then .ok () else .error (.changed p)

/-- **A document is the same just if its stamp is.** -/
theorem ensureSame_eq_ok_iff {before after : Stamp} {p : Path} {u : Unit} :
    ensureSame before after p = .ok u ↔ before = after := by
  rw [ensureSame]
  split <;> simp_all

end Stamp

namespace FileTree

variable (t : FileTree) (cwd : Absolute)

/-- The stamp of a file. -/
def File.stamp (f : File) : Stamp :=
  ⟨some f.born, none, f.bytes.length, f.written⟩

/-- What stands where a path leads, or why it cannot be told. -/
def access (p : Path) : Except Failure Node :=
  if p.hasNull then .error .nullInPath
  else
    match t.look cwd p with
    | .ok node => .ok node
    | .error fault => .error (.inaccessible p fault)

/-- The stamp of the file at a path. -/
def stamp (p : Path) : Except Failure Stamp := do
  match ← t.access cwd p with
  | .file f => return f.stamp
  | .directory => .error (.notRegular p)

/-- The text of the document at a path. Nothing is added to the refusal of a name that is too long. -/
def read (p : Path) : Except Failure Text :=
  match t.access cwd p with
  | .error (.inaccessible p .nameTooLong) => .error (.refused p .nameTooLong)
  | .error failure => .error failure
  | .ok .directory => .error (.inaccessible p .isDirectory)
  | .ok (.file f) =>
    match Utf8.decode? f.bytes with
    | some text => .ok text
    | none => .error .malformedText

/-- The text of the document at a path, if something is there. -/
def read? (p : Path) : Except Failure (Option Text) :=
  match t.read cwd p with
  | .ok text => .ok (some text)
  | .error (.inaccessible _ .noEntry) => .ok none
  | .error failure => .error failure

/-- The place that a path leads to. -/
def placeOf (p : Path) : Except Failure Absolute :=
  match t.follow cwd p with
  | .ok a => .ok a
  | .error fault => .error (.inaccessible p fault)

/-- The tree with another text in a document that still has the stamp it had. -/
def write (p : Path) (text : Text) (before : Stamp) : Except Failure FileTree := do
  Stamp.ensureSame before (← t.stamp cwd p) p
  return t.replace (← t.placeOf cwd p) (Utf8.encode text)

end FileTree

end Fenceline
