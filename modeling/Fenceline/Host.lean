import Fenceline.Files.Document

/-!
# Hosts

A host is where a program runs: a file tree, the working directory, the environment, and a directory
for temporary files, whose names are numbered. A number whose name is taken is passed over.

**The law.** `next_le_fresh`: no number is used a second time.
-/

namespace Fenceline

/-- Where a program runs. -/
structure Host where
  tree : FileTree
  /-- The working directory. -/
  cwd : Absolute
  /-- The directory of temporary files. -/
  temporary : Absolute
  environment : Keyed Text Text := []
  /-- The number of the next temporary name. -/
  next : Nat := 0

namespace Host

variable (h : Host)

/-- The last name of a spelled path, which is empty behind a slash at its end. -/
def lastName (name : Text) : Text :=
  ((name.cutAt '/').getLast?).getD []

/-- Whether a spelled path leads to an executable file. -/
def isExecutable (name : Text) : Bool :=
  let p := Path.ofText name
  match h.tree.look h.cwd p with
  | .ok (.file f) =>
    f.executable && !p.hasNull && lastName name != [] && lastName name != ['.'] &&
      FileTree.fits FileTree.maxPath name
  | _ => false

/-- A name in a directory, both spelled. -/
def inDirectory (directory name : Text) : Text :=
  if directory.isEmpty || directory.getLast? == some '/' then directory ++ name
  else directory ++ '/' :: name

/-- The directories in which executables are searched. -/
def searchPath : List Text :=
  match h.environment.get? "PATH".toList with
  | some path => if path.isEmpty then [] else path.cutAt ':'
  | none => ["/bin".toList, "/usr/bin".toList]

/-- The spelled path of an executable, which is searched only if its name has no directory. -/
def which? (name : Text) : Option Text :=
  if name.contains '/' then if h.isExecutable name then some name else none
  else (h.searchPath.map fun directory => inDirectory directory name).find? h.isExecutable

/-- The name of a temporary file or directory with this number. -/
def numbered (label ending : Text) (n : Nat) : Text :=
  label ++ Text.ofNat n ++ ending

/-- The numbers from the next one on, one more than there are names in the tree. -/
def numbers : List Nat :=
  (List.range (h.tree.nodes.length + 1)).map (h.next + ·)

/-- The first number from the next one on whose name is not taken in a directory. -/
def fresh (directory : Absolute) (label ending : Text) : Nat :=
  (h.numbers.find? fun n => (h.tree.node? (directory ++ [numbered label ending n])).isNone).getD
    (h.next + h.tree.nodes.length + 1)

theorem next_le_of_mem_numbers {n : Nat} (hn : n ∈ h.numbers) : h.next ≤ n := by
  obtain ⟨k, _, rfl⟩ := List.mem_map.1 hn
  exact Nat.le_add_right ..

/-- **No number is used a second time.** -/
theorem next_le_fresh (directory : Absolute) (label ending : Text) :
    h.next ≤ h.fresh directory label ending := by
  rw [fresh]
  generalize hf : List.find? _ h.numbers = found
  cases found with
  | none => exact Nat.le_trans (Nat.le_add_right ..) (Nat.le_add_right ..)
  | some n => exact h.next_le_of_mem_numbers (List.mem_of_find?_eq_some hf)

/-- A new temporary directory with `label` before its number. -/
def addDirectory (label : Text) : Absolute × Host :=
  let n := h.fresh h.temporary label []
  let place := h.temporary ++ [numbered label [] n]
  (place, { h with tree := h.tree.addDirectories place, next := n + 1 })

/-- What stands before the number in the name of a temporary file. -/
def fileLabel : Text :=
  "tmp".toList

/-- A new file in a directory, with `ending` behind the number of its name. -/
def addFile (directory : Absolute) (ending : Text) (bytes : Bytes) : Absolute × Host :=
  let n := h.fresh directory fileLabel ending
  let place := directory ++ [numbered fileLabel ending n]
  (place, { h with tree := h.tree.put place bytes, next := n + 1 })

/-- Another text in a document that still has the stamp it had. The text is written to a temporary file
beside the document, which then takes the document's place. -/
def write (p : Path) (text : Text) (before : Stamp) : Except Failure Host := do
  let tree ← h.tree.write h.cwd p text before
  let directory := (← h.tree.placeOf h.cwd p).dropLast
  return { h with tree, next := h.fresh directory fileLabel [] + 1 }

end Host

end Fenceline
