import Fenceline.Host

/-!
# Finding files

A directory stands for the files below it, those in hidden directories left out; every other path stands
for itself. What is found is spelled as the path under which it was found, each spelling once, in the
order of the texts. A path with a name that is too long is refused, and a directory below whose spelling
is too long is passed over.

**The law.** `mem_matching_iff`: a spelling is found if and only if one of the paths stands for it and its
extension is wanted, so neither order nor repetition of the paths matters.
-/

namespace Fenceline

namespace FileTree

variable (t : FileTree) (cwd : Absolute)

/-- Whether a name is one of a hidden file or directory. -/
def isHidden (name : Text) : Bool :=
  name.head? == some '.'

/-- Whether names lead from a directory, whose path is spelled so, to something without a directory on the
way that is hidden or spelled with too many bytes. -/
def isOpenWay (spelled : Text) (a : Absolute) : List Text → Bool
  | [] => false
  | [_] => true
  | name :: rest =>
    let below := Host.inDirectory spelled name
    !isHidden name && t.isDirectory (a ++ [name]) && fits maxPath below &&
      isOpenWay below (a ++ [name]) rest

/-- The names that lead from a directory to the files below it that are found. -/
def openFiles (spelled : Text) (a : Absolute) : List (List Text) :=
  ((t.filesBelow a).map (·.1)).filter (t.isOpenWay spelled a)

/-- The paths that a path stands for. -/
def expand (p : Path) : List Path :=
  if t.leadsToDirectory cwd p then
    match t.follow cwd p with
    | .ok a => (t.openFiles p.toText a).map fun names => { p with names := p.names ++ names }
    | .error _ => [p]
  else [p]

/-- Whether a path has one of the extensions, any extension if none are given. -/
def isWanted (extensions : Option (List Text)) (p : Path) : Bool :=
  extensions.all (·.contains p.extension)

/-- The files that spelled paths stand for. -/
def matching (paths : List Text) (extensions : Option (List Text)) : List Text :=
  let found := (paths.flatMap fun text => t.expand cwd (.ofText text)).filter (isWanted extensions)
  (found.map Path.toText).eraseDups.mergeSort Text.le

/-- Nothing, unless a path is refused before it is known what it leads to. -/
def reach (p : Path) : Except Failure Unit :=
  match p.hasNull, t.look cwd p with
  | false, .error .nameTooLong => .error (.refused p .nameTooLong)
  | _, _ => .ok ()

/-- The files that spelled paths stand for, if none of the paths is refused. -/
def find (paths : List Text) (extensions : Option (List Text)) : Except Failure (List Text) := do
  paths.forM fun text => t.reach cwd (.ofText text)
  return t.matching cwd paths extensions

/-- **What is found.** -/
theorem mem_matching_iff {paths : List Text} {extensions : Option (List Text)} {text : Text} :
    text ∈ t.matching cwd paths extensions ↔
      ∃ spelled ∈ paths, ∃ p ∈ t.expand cwd (.ofText spelled),
        isWanted extensions p = true ∧ p.toText = text := by
  simp only [matching, List.mem_mergeSort, List.mem_eraseDups, List.mem_map, List.mem_filter,
    List.mem_flatMap]
  constructor
  · rintro ⟨p, ⟨⟨spelled, hs, hp⟩, hw⟩, ht⟩
    exact ⟨spelled, hs, p, hp, hw, ht⟩
  · rintro ⟨spelled, hs, p, hp, hw, ht⟩
    exact ⟨p, ⟨⟨spelled, hs, hp⟩, hw⟩, ht⟩

end FileTree

end Fenceline
