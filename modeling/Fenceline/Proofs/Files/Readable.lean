import Fenceline.Host
import Fenceline.Proofs.Line.Encoding
import Fenceline.Proofs.Outcome

/-!
# Documents that can be read

A document can be read when its path leads to a file and the bytes of the file are those of a text
(`read_eq_ok_iff`). Such a document can be written, and then every other one can still be read: a text in
the place of a file leaves all paths leading where they led (`follow_replace`), and what it puts there is a
text again.

**The law** (`readable_write`): writing a document that can be read leaves readable what was readable.
-/

namespace Fenceline

namespace FileTree

variable {t : FileTree} {cwd a b : Absolute} {p q : Path} {text : Text} {bytes : Bytes}

/-! ## Looking -/

theorem file?_eq_some_iff {f : File} : t.file? a = some f ↔ t.node? a = some (.file f) := by
  rw [file?]
  split <;> simp_all

theorem look_eq_ok_iff {node : Node} :
    t.look cwd p = .ok node ↔ ∃ a, t.follow cwd p = .ok a ∧ t.node? a = some node := by
  rw [look, bind_eq_ok]
  refine exists_congr fun a => and_congr_right fun _ => ?_
  cases t.node? a <;> simp

/-- Names lead where they led while the directories on their way stand. -/
theorem walk_of_directories {u : FileTree} {names : List Text}
    (h : ∀ a, t.node? a = some .directory → u.node? a = some .directory) (hwalk : t.walk a names = .ok b) :
    u.walk a names = .ok b := by
  induction names generalizing a with
  | nil => exact hwalk
  | cons name rest ih =>
    rw [walk] at hwalk ⊢
    cases hnode : t.node? a with
    | none => simp [hnode] at hwalk
    | some node =>
      cases node with
      | file f => simp [hnode] at hwalk
      | directory =>
        rw [hnode] at hwalk
        rw [h a hnode]
        dsimp only at hwalk ⊢
        split at hwalk
        · rename_i hfits
          rw [if_pos hfits]
          exact ih hwalk
        · cases hwalk

theorem follow_of_directories {u : FileTree}
    (h : ∀ a, t.node? a = some .directory → u.node? a = some .directory) (hfollow : t.follow cwd p = .ok a) :
    u.follow cwd p = .ok a := by
  unfold follow at hfollow ⊢
  split at hfollow
  · rename_i hfits
    rw [if_pos hfits]
    exact walk_of_directories h hfollow
  · cases hfollow

/-! ## Reading -/

/-- **What it takes to read a document.** -/
theorem read_eq_ok_iff :
    t.read cwd p = .ok text ↔ p.hasNull = false ∧ ∃ a f, t.follow cwd p = .ok a ∧
      t.node? a = some (.file f) ∧ Utf8.decode? f.bytes = some text := by
  unfold read access
  cases hnull : p.hasNull with
  | true => simp
  | false =>
    simp only [Bool.false_eq_true, if_false, true_and]
    unfold look
    cases hfollow : t.follow cwd p with
    | error fault => cases fault <;> simp [bind, Except.bind]
    | ok a =>
      simp only [bind, Except.bind, Except.ok.injEq, exists_and_left, exists_eq_left']
      cases hnode : t.node? a with
      | none => simp
      | some node =>
        cases node with
        | directory => simp
        | file f =>
          simp only [Option.some.injEq, Node.file.injEq, exists_eq_left']
          cases Utf8.decode? f.bytes <;> simp

/-- **What it takes to look at a document.** -/
theorem stamp_eq_ok_iff {stamp : Stamp} :
    t.stamp cwd p = .ok stamp ↔ p.hasNull = false ∧ ∃ a f, t.follow cwd p = .ok a ∧
      t.node? a = some (.file f) ∧ f.stamp = stamp := by
  unfold FileTree.stamp access
  cases hnull : p.hasNull with
  | true => simp [bind, Except.bind]
  | false =>
    simp only [Bool.false_eq_true, if_false, true_and]
    unfold look
    cases hfollow : t.follow cwd p with
    | error fault => simp [bind, Except.bind]
    | ok a =>
      simp only [bind, Except.bind, Except.ok.injEq, exists_and_left, exists_eq_left']
      cases hnode : t.node? a with
      | none => simp
      | some node => cases node <;> simp [pure, Except.pure]

section congr

variable {u : FileTree} (hfollow : u.follow cwd p = t.follow cwd p)
  (hnode : ∀ a, t.follow cwd p = .ok a → u.node? a = t.node? a)

include hfollow hnode

/-- A path that leads to the same place leads to the same if the same stands there. -/
theorem access_congr : u.access cwd p = t.access cwd p := by
  have hlook : u.look cwd p = t.look cwd p := by
    rw [look, look, hfollow]
    cases hplace : t.follow cwd p with
    | error fault => rfl
    | ok a => simp only [bind, Except.bind, hnode a hplace]
  rw [access, access, hlook]

theorem read_congr : u.read cwd p = t.read cwd p := by
  rw [read, read, access_congr hfollow hnode]

theorem stamp_congr : u.stamp cwd p = t.stamp cwd p := by
  rw [FileTree.stamp, FileTree.stamp, access_congr hfollow hnode]

end congr

/-! ## A text in the place of a file -/

theorem ne_nil_of_file {f : File} (h : t.node? a = some (.file f)) : a ≠ [] := by
  rintro rfl
  simp [node?] at h

theorem node?_replace_self (t : FileTree) (ha : a ≠ []) (bytes : Bytes) :
    ∃ f : File, (t.replace a bytes).node? a = some (.file f) ∧ f.bytes = bytes := by
  simp only [replace, node?, ha, if_false, Keyed.get?_set_self]
  exact ⟨_, rfl, rfl⟩

theorem node?_replace_of_ne (h : b ≠ a) : (t.replace a bytes).node? b = t.node? b := by
  by_cases hb : b = []
  · simp [node?, hb]
  · rw [node?_of_ne_nil _ hb, node?_of_ne_nil _ hb]
    exact Keyed.get?_set_of_ne _ _ h

/-- A file in the place of a file is not on any way. -/
theorem walk_replace {f : File} (hfile : t.node? a = some (.file f)) (b : Absolute) (names : List Text) :
    (t.replace a bytes).walk b names = t.walk b names := by
  induction names generalizing b with
  | nil => rfl
  | cons name rest ih =>
    rw [walk, walk]
    by_cases hb : b = a
    · subst hb
      obtain ⟨g, hg, _⟩ := t.node?_replace_self (ne_nil_of_file hfile) bytes
      rw [hg, hfile]
    · rw [node?_replace_of_ne hb, ih]

/-- **All paths lead where they led.** -/
theorem follow_replace {f : File} (hfile : t.node? a = some (.file f)) (cwd : Absolute) (p : Path) :
    (t.replace a bytes).follow cwd p = t.follow cwd p := by
  unfold follow
  rw [walk_replace hfile]

/-- A path that leads elsewhere reads what it read. -/
theorem read_replace_of_ne {f : File} (hfile : t.node? a = some (.file f))
    (h : t.follow cwd p ≠ .ok a) : (t.replace a bytes).read cwd p = t.read cwd p :=
  read_congr (follow_replace hfile cwd p) fun _ hb =>
    node?_replace_of_ne fun heq => h (heq ▸ hb)

/-- A path that leads to the file reads the new text. -/
theorem read_replace_self {f : File} (hfile : t.node? a = some (.file f)) (hnull : p.hasNull = false)
    (h : t.follow cwd p = .ok a) (text : Text) : (t.replace a (Utf8.encode text)).read cwd p = .ok text := by
  obtain ⟨new, hnew, hbytes⟩ := t.node?_replace_self (ne_nil_of_file hfile) (Utf8.encode text)
  refine read_eq_ok_iff.2 ⟨hnull, a, new, ?_, hnew, by rw [hbytes, Utf8.decode?_encode]⟩
  rw [follow_replace hfile, h]

theorem readable_replace {f : File} (hfile : t.node? a = some (.file f)) (text : Text)
    (h : Succeeds (t.read cwd p)) : Succeeds ((t.replace a (Utf8.encode text)).read cwd p) := by
  by_cases hplace : t.follow cwd p = .ok a
  · obtain ⟨before, hbefore⟩ := h
    exact ⟨text, read_replace_self hfile (read_eq_ok_iff.1 hbefore).1 hplace text⟩
  · rwa [read_replace_of_ne hfile hplace]

/-! ## Writing -/

theorem stamp_of_readable (h : Succeeds (t.read cwd p)) : Succeeds (t.stamp cwd p) := by
  obtain ⟨text, htext⟩ := h
  obtain ⟨hnull, a, f, hfollow, hnode, _⟩ := read_eq_ok_iff.1 htext
  exact ⟨f.stamp, stamp_eq_ok_iff.2 ⟨hnull, a, f, hfollow, hnode, rfl⟩⟩

theorem placeOf_eq_ok_iff : t.placeOf cwd p = .ok a ↔ t.follow cwd p = .ok a := by
  rw [placeOf]
  cases t.follow cwd p <;> simp

/-- **What it takes to write a document**: that it still has the stamp that it had. -/
theorem write_eq_ok_iff {u : FileTree} {before : Stamp} :
    t.write cwd p text before = .ok u ↔ t.stamp cwd p = .ok before ∧
      ∃ a, t.follow cwd p = .ok a ∧ u = t.replace a (Utf8.encode text) := by
  simp only [FileTree.write, bind_eq_ok, Stamp.ensureSame_eq_ok_iff, placeOf_eq_ok_iff]
  constructor
  · rintro ⟨now, hnow, _, rfl, a, hfollow, hdone⟩
    exact ⟨hnow, a, hfollow, (Except.ok.inj hdone).symm⟩
  · rintro ⟨hstamp, a, hfollow, rfl⟩
    exact ⟨before, hstamp, (), rfl, a, hfollow, rfl⟩

end FileTree

open FileTree

/-- The host on which a document was written. -/
theorem Host.write_eq_ok_iff {h after : Host} {p : Path} {text : Text} {before : Stamp} :
    h.write p text before = .ok after ↔ h.tree.stamp h.cwd p = .ok before ∧
      ∃ a, h.tree.follow h.cwd p = .ok a ∧
        after = { h with
          tree := h.tree.replace a (Utf8.encode text)
          next := h.fresh a.dropLast fileLabel [] + 1 } := by
  simp only [Host.write, bind_eq_ok, FileTree.write_eq_ok_iff]
  constructor
  · rintro ⟨tree, ⟨hstamp, a, hfollow, rfl⟩, place, hplace, hdone⟩
    obtain rfl : a = place := Except.ok.inj (hfollow.symm.trans (placeOf_eq_ok_iff.1 hplace))
    exact ⟨hstamp, a, hfollow, (Except.ok.inj hdone).symm⟩
  · rintro ⟨hstamp, a, hfollow, rfl⟩
    exact ⟨_, ⟨hstamp, a, hfollow, rfl⟩, a, placeOf_eq_ok_iff.2 hfollow, rfl⟩

/-- A document that still has the stamp that it had can be written. -/
theorem Host.succeeds_write {h : Host} {p : Path} {stamp : Stamp} (text : Text)
    (hstamp : h.tree.stamp h.cwd p = .ok stamp) : Succeeds (h.write p text stamp) := by
  obtain ⟨-, a, -, hfollow, -⟩ := stamp_eq_ok_iff.1 hstamp
  exact ⟨_, Host.write_eq_ok_iff.2 ⟨hstamp, a, hfollow, rfl⟩⟩

/-- **Writing a document that can be read** leaves readable what was readable. -/
theorem Host.readable_write {h : Host} {p : Path} {stamp : Stamp} (text : Text)
    (hread : Succeeds (h.tree.read h.cwd p)) (hstamp : h.tree.stamp h.cwd p = .ok stamp) :
    ∃ after, h.write p text stamp = .ok after ∧ after.cwd = h.cwd ∧
      ∀ q, Succeeds (h.tree.read h.cwd q) → Succeeds (after.tree.read h.cwd q) := by
  obtain ⟨before, hbefore⟩ := hread
  obtain ⟨_, a, f, hfollow, hnode, _⟩ := read_eq_ok_iff.1 hbefore
  exact ⟨_, Host.write_eq_ok_iff.2 ⟨hstamp, a, hfollow, rfl⟩, rfl, fun q hq => readable_replace hnode text hq⟩

end Fenceline
