import Fenceline.Proofs.Files.Fresh
import Fenceline.Proofs.Files.Readable

/-!
# Writing a document aside

A document is written to a temporary file beside it, which then takes the document's place
(`FileTree.create`, `FileTree.move`). The system may refuse any of this (`Hitch`): to make the temporary file, to
fill it, or to put it in the document's place. Whatever came of it, the temporary file is not there afterwards
(`FileTree.unlink`).

**The laws.** `Host.write_eq_writeAside`: where the system refuses nothing, writing a document aside is writing
it. `Host.writeAside_cases`: a document is written, or everything stands as it stood and only time has passed
(`Host.Later`).

**What it does not establish.** What stands on a host between the steps, for somebody who looks at it then; and
that the temporary file goes away if the system refuses even that.
-/

namespace Fenceline

namespace FileTree

variable (t : FileTree)

/-- The tree with a new file of this content at a place where nothing stood. -/
def create (a : Absolute) (bytes : Bytes) (executable : Bool) : FileTree :=
  { nodes := t.nodes.set a (.file { bytes, born := t.clock, written := t.clock, executable })
    clock := t.clock + 1 }

/-- The tree in which the file at one place has come to stand at another one. -/
def move (source target : Absolute) : FileTree :=
  match t.file? source with
  | some f => { t with nodes := Keyed.set (t.nodes.filter (·.1 ≠ source)) target (.file f) }
  | none => t

/-- The tree without the file at a place, if there is one. -/
def unlink (a : Absolute) : FileTree :=
  { t with nodes := t.nodes.filter (·.1 ≠ a) }

variable {t} {a aside : Absolute}

theorem get?_of_free (hfree : t.node? aside = none) : t.nodes.get? aside = none := by
  rwa [node?_of_ne_nil] at hfree
  rintro rfl
  simp [node?] at hfree

/-- **A new file that takes the place of another one** replaces it, and nothing is left where it was made. -/
theorem move_create (hfree : t.node? aside = none) (a : Absolute) (bytes : Bytes) :
    (t.create aside bytes ((t.file? a).any (·.executable))).move aside a = t.replace a bytes := by
  have hne : aside ≠ [] := by
    rintro rfl
    simp [node?] at hfree
  have hfile : (t.create aside bytes ((t.file? a).any (·.executable))).file? aside =
      some { bytes, born := t.clock, written := t.clock, executable := (t.file? a).any (·.executable) } := by
    simp [create, file?, node?, hne]
  rw [move, hfile]
  simp only [create, replace, Keyed.filter_set_of_get?_eq_none (get?_of_free hfree)]

/-- Where no file stands, there is nothing to take away. -/
theorem unlink_of_free (hfree : t.node? aside = none) : t.unlink aside = t := by
  rw [unlink, Keyed.filter_of_get?_eq_none (get?_of_free hfree)]

/-- A new file that is taken away has only taken time. -/
theorem unlink_create (hfree : t.node? aside = none) (bytes : Bytes) (executable : Bool) :
    (t.create aside bytes executable).unlink aside = { t with clock := t.clock + 1 } := by
  simp only [unlink, create, Keyed.filter_set_of_get?_eq_none (get?_of_free hfree)]

end FileTree

/-- **What the system may refuse** while a document is written, with its words for it. -/
inductive Hitch where
  /-- No temporary file can be made. -/
  | making (words : Text)
  /-- The temporary file cannot be filled, or be given the permissions of the document. This much was written. -/
  | filling (bytes : Bytes) (words : Text)
  /-- The temporary file cannot take the document's place. -/
  | moving (words : Text)

namespace Hitch

/-- What the system says. -/
def words : Hitch → Text
  | making words | filling _ words | moving words => words

/-- The failure to write a document. -/
def failure (hitch : Hitch) (p : Path) : Failure :=
  .unreadable ("Error writing ".toList ++ p.toText ++ ": ".toList ++ hitch.words)

end Hitch

namespace Host

variable (h : Host)

/-- **A host on which everything stands as it stood**, and only time has passed: on its clock, and in the numbers
of temporary names. -/
def Later (h after : Host) : Prop :=
  ∃ clock next, after = { h with tree := { h.tree with clock }, next }

theorem later_self : h.Later h :=
  ⟨_, _, rfl⟩

/-- The place of a document that still has the stamp it had. -/
def placeUnchanged (p : Path) (before : Stamp) : Except Failure Absolute := do
  Stamp.ensureSame before (← h.tree.stamp h.cwd p) p
  h.tree.placeOf h.cwd p

/-- The place of the temporary file for a document in a directory. -/
def aside (directory : Absolute) : Absolute :=
  directory ++ [numbered fileLabel [] (h.fresh directory fileLabel [])]

/-- The host with this tree, from which the temporary file for the document at a place was taken away. -/
def cleared (a : Absolute) (tree : FileTree) : Host :=
  { h with tree := tree.unlink (h.aside a.dropLast), next := h.fresh a.dropLast fileLabel [] + 1 }

/-- Another text in a document that still has the stamp it had, by way of a temporary file beside it, and the
host afterwards. -/
def writeAside (hitch : Option Hitch) (p : Path) (text : Text) (before : Stamp) : Except Failure Unit × Host :=
  match h.placeUnchanged p before with
  | .error failure => (.error failure, h)
  | .ok a =>
    let made (bytes : Bytes) := h.tree.create (h.aside a.dropLast) bytes ((h.tree.file? a).any (·.executable))
    match hitch with
    | none => (.ok (), h.cleared a ((made (Utf8.encode text)).move (h.aside a.dropLast) a))
    | some hitch =>
      let left :=
        match hitch with
        | .making _ => h.tree
        | .filling bytes _ => made bytes
        | .moving _ => made (Utf8.encode text)
      (.error (hitch.failure p), h.cleared a left)

theorem node?_aside (directory : Absolute) : h.tree.node? (h.aside directory) = none :=
  h.node?_fresh directory fileLabel []

variable {h} {p : Path} {text : Text} {before : Stamp} {a : Absolute}

theorem placeUnchanged_eq_ok_iff :
    h.placeUnchanged p before = .ok a ↔ h.tree.stamp h.cwd p = .ok before ∧ h.tree.follow h.cwd p = .ok a := by
  simp only [placeUnchanged, bind_eq_ok, Stamp.ensureSame_eq_ok_iff, FileTree.placeOf_eq_ok_iff]
  constructor
  · rintro ⟨now, hnow, _, rfl, hfollow⟩
    exact ⟨hnow, hfollow⟩
  · rintro ⟨hstamp, hfollow⟩
    exact ⟨before, hstamp, (), rfl, hfollow⟩

/-- A document stands at its place, so no temporary file does. -/
theorem aside_ne_of_placeUnchanged (hplace : h.placeUnchanged p before = .ok a) (directory : Absolute) :
    h.aside directory ≠ a := by
  obtain ⟨hstamp, hfollow⟩ := placeUnchanged_eq_ok_iff.1 hplace
  obtain ⟨-, b, f, hthere, hnode, -⟩ := FileTree.stamp_eq_ok_iff.1 hstamp
  obtain rfl : b = a := Except.ok.inj (hthere.symm.trans hfollow)
  intro heq
  rw [← heq, node?_aside] at hnode
  cases hnode

/-- Where nothing stands beside the document, nothing is taken away but the time that has passed. -/
theorem later_cleared {tree : FileTree} (a : Absolute) {clock : Nat}
    (htree : tree.unlink (h.aside a.dropLast) = { h.tree with clock }) : h.Later (h.cleared a tree) :=
  ⟨clock, _, by rw [cleared, htree]⟩

/-- **Where the system refuses nothing, writing a document aside is writing it.** -/
theorem write_eq_writeAside (h : Host) (p : Path) (text : Text) (before : Stamp) :
    h.writeAside none p text before =
      match h.write p text before with
      | .ok after => (.ok (), after)
      | .error failure => (.error failure, h) := by
  have hwrite : h.write p text before = (h.placeUnchanged p before).map fun a =>
      { h with tree := h.tree.replace a (Utf8.encode text), next := h.fresh a.dropLast fileLabel [] + 1 } := by
    simp only [write, FileTree.write, placeUnchanged, bind_assoc, pure_bind]
    cases h.tree.stamp h.cwd p with
    | error failure => rfl
    | ok now =>
      cases hsame : Stamp.ensureSame before now p <;>
        cases hplace : h.tree.placeOf h.cwd p <;>
          simp [hsame, bind, Except.bind, Except.map, pure, Except.pure]
  rw [hwrite, writeAside]
  cases hplace : h.placeUnchanged p before with
  | error failure => rfl
  | ok a =>
    have hfree := h.node?_aside a.dropLast
    have hmoved : (h.tree.replace a (Utf8.encode text)).node? (h.aside a.dropLast) = none := by
      rw [FileTree.node?_replace_of_ne (aside_ne_of_placeUnchanged hplace _), hfree]
    simp only [cleared, Except.map, FileTree.move_create hfree, FileTree.unlink_of_free hmoved]

/-- **A document is written, or everything stands as it stood**, whatever the system refuses and when. -/
theorem writeAside_cases {hitch : Option Hitch} {result : Except Failure Unit} {after : Host}
    (hdone : h.writeAside hitch p text before = (result, after)) :
    (hitch = none ∧ result = .ok () ∧ h.write p text before = .ok after) ∨
      ((∃ failure, result = .error failure) ∧ h.Later after ∧ (hitch = none → after = h)) := by
  cases hitch with
  | none =>
    rw [write_eq_writeAside] at hdone
    cases hwrite : h.write p text before with
    | error failure =>
      rw [hwrite] at hdone
      cases hdone
      exact .inr ⟨⟨failure, rfl⟩, h.later_self, fun _ => rfl⟩
    | ok written =>
      rw [hwrite] at hdone
      cases hdone
      exact .inl ⟨rfl, rfl, rfl⟩
  | some hitch =>
    rw [writeAside] at hdone
    cases hplace : h.placeUnchanged p before with
    | error failure =>
      rw [hplace] at hdone
      cases hdone
      exact .inr ⟨⟨failure, rfl⟩, h.later_self, fun _ => rfl⟩
    | ok a =>
      rw [hplace] at hdone
      have hfree := h.node?_aside a.dropLast
      cases hitch with
      | making words =>
        cases hdone
        exact .inr ⟨⟨_, rfl⟩, later_cleared a (FileTree.unlink_of_free hfree), by simp⟩
      | filling bytes words | moving words =>
        cases hdone
        exact .inr ⟨⟨_, rfl⟩, later_cleared a (FileTree.unlink_create hfree _ _), by simp⟩

end Host

end Fenceline
