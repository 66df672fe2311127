import Fenceline.Files.Document
import Mathlib.Data.List.Induction

/-!
# Files put into a directory that stands

A file put into a directory that stands, with all the directories above it (`Stands`), is the only thing
that changes (`node?_put_of_stands`). What a path reads depends on the places that its names lead through and
on nothing else (`read?_congr`).

**The law** (`read?_of_not_enters`): a path that does not lead into the directory reads what it read before,
also if that was nothing.
-/

namespace Fenceline

/-- A rooted path whose names lead through a directory and on into it. -/
def Path.Enters (p : Path) (directory : Absolute) : Prop :=
  ∃ front name back, p.names = front ++ name :: back ∧ front.foldl step [] = directory

/-- The names of a path that does not enter a directory lead to nothing in it. -/
theorem Path.not_prefix_of_not_enters {p : Path} {directory : Absolute} (h : ¬ p.Enters directory)
    (name : Text) {front : List Text} (hfront : front <+: p.names) :
    ¬ directory ++ [name] <+: front.foldl step [] := by
  induction front using List.reverseRecOn with
  | nil =>
    intro hprefix
    exact absurd (List.prefix_nil.1 hprefix) (by simp)
  | append_singleton front last ih =>
    have hbefore := ih ((List.prefix_append front [last]).trans hfront)
    rw [List.foldl_append, List.foldl_cons, List.foldl_nil, step]
    split
    · exact fun hinside => hbefore (hinside.trans (List.dropLast_prefix _))
    · intro hprefix
      rcases List.prefix_concat_iff.1 hprefix with heq | hprefix
      · obtain ⟨back, hback⟩ := hfront
        refine h ⟨front, last, back, ?_, (List.append_inj_left' heq rfl).symm⟩
        rw [← hback, List.append_assoc]
        rfl
      · exact hbefore hprefix

namespace FileTree

variable {t u : FileTree} {cwd a b directory : Absolute} {name : Text} {p : Path} {bytes : Bytes}

/-! ## A directory that stands -/

/-- **A directory that stands**, with all the directories above it. -/
def Stands (t : FileTree) (directory : Absolute) : Prop :=
  ∀ a, a <+: directory → t.node? a = some .directory

/-- Nothing is to be added for a directory that stands. -/
theorem Stands.addDirectories (h : t.Stands directory) : t.addDirectories directory = t := by
  have hway : ∀ a ∈ way directory, t.addDirectory a = t := by
    intro a ha
    obtain ⟨n, _, rfl⟩ := List.mem_map.1 ha
    rw [addDirectory, h _ (List.take_prefix ..)]
  unfold FileTree.addDirectories
  generalize way directory = places at hway
  induction places with
  | nil => rfl
  | cons a places ih =>
    obtain ⟨ha, hrest⟩ := List.forall_mem_cons.1 hway
    rw [List.foldl_cons, ha, ih hrest]

/-- **A file put into a directory that stands changes nothing else.** -/
theorem node?_put_of_stands (h : t.Stands directory) (hb : b ≠ directory ++ [name]) (bytes : Bytes) :
    (t.put (directory ++ [name]) bytes).node? b = t.node? b := by
  by_cases hroot : b = []
  · simp [node?, hroot]
  · rw [node?_of_ne_nil _ hroot, node?_of_ne_nil _ hroot, put]
    simp only [List.dropLast_concat, h.addDirectories]
    exact Keyed.get?_set_of_ne _ _ hb

/-! ## What reading depends on -/

/-- The names of a path lead where they lead. -/
theorem walk_eq_ok {names : List Text} (h : t.walk a names = .ok b) : b = names.foldl Path.step a := by
  induction names generalizing a with
  | nil => exact (Except.ok.inj h).symm
  | cons name rest ih =>
    rw [walk] at h
    split at h
    · cases h
    · cases h
    · split at h
      · exact ih h
      · cases h

/-- Names lead to the same place if the same stands at every place on their way. -/
theorem walk_congr {names : List Text}
    (h : ∀ front, front <+: names → u.node? (front.foldl Path.step a) = t.node? (front.foldl Path.step a)) :
    u.walk a names = t.walk a names := by
  induction names generalizing a with
  | nil => rfl
  | cons name rest ih =>
    have hhere : u.node? a = t.node? a := h [] List.nil_prefix
    have hrest := ih fun front hfront => h (name :: front) (List.cons_prefix_cons.2 ⟨rfl, hfront⟩)
    rw [walk, walk, hhere, hrest]

/-- **A path reads the same if the same stands at every place that its names lead through.** -/
theorem read?_congr (hrooted : p.root ≠ .relative)
    (h : ∀ front, front <+: p.names → u.node? (front.foldl Path.step []) = t.node? (front.foldl Path.step [])) :
    u.read? cwd p = t.read? cwd p := by
  have hfollow : u.follow cwd p = t.follow cwd p := by
    rw [follow, follow, if_neg hrooted, walk_congr h]
  have hlook : u.look cwd p = t.look cwd p := by
    rw [look, look, hfollow]
    cases hplace : t.follow cwd p with
    | error fault => rfl
    | ok a =>
      rw [follow, if_neg hrooted] at hplace
      split at hplace
      · rw [walk_eq_ok hplace]
        simp only [bind, Except.bind, h p.names List.prefix_rfl]
      · cases hplace
  rw [read?, read?, read, read, access, access, hlook]

/-- **What does not lead into a directory reads the same** where nothing but the files of the directory
changed. -/
theorem read?_of_not_enters (hrooted : p.root ≠ .relative) (h : ¬ p.Enters directory)
    (helsewhere : ∀ a, (∀ name, a ≠ directory ++ [name]) → u.node? a = t.node? a) :
    u.read? cwd p = t.read? cwd p := by
  refine read?_congr hrooted fun front hfront => helsewhere _ fun name hplace => ?_
  exact p.not_prefix_of_not_enters h name hfront (hplace ▸ List.prefix_rfl)

end FileTree

end Fenceline
