import Fenceline.Files.Find
import Fenceline.Proofs.Files.Fresh
import Fenceline.Proofs.Files.Readable
import Fenceline.Proofs.Path.Spelling
import Fenceline.Proofs.Text.Order

/-!
# What is found

A directory stands for the files that are reached below it (`Reached`): name by name, through directories that
are not hidden and that the file system can list under the path by which they are reached. The walk and the
relation agree in both directions (`mem_openFiles_iff`).

**The law** (`finds_exactly`): what is found is strictly increasing, and is just what the paths stand for,
whatever their order and repetition.

**What it does not establish** (`find_refused`). A path that the file system refuses as too long is no path to
nothing: finding then fails for the first such path.
-/

namespace Fenceline

namespace FileTree

variable {t : FileTree} {cwd a : Absolute} {spelled : Text} {p q : Path} {names : List Text}

/-! ## Below a directory -/

/-- **What is reached below a directory**: names lead from the directory at a place, whose path is spelled so, to
a file, through directories that are not hidden and whose spelling is not too long. -/
inductive Reached (t : FileTree) : Text → Absolute → List Text → Prop
  | file {spelled : Text} {a : Absolute} {name : Text} {f : File} (hfile : t.file? (a ++ [name]) = some f) :
    Reached t spelled a [name]
  | enter {spelled : Text} {a : Absolute} {name : Text} {rest : List Text} (hopen : isHidden name = false)
    (hdirectory : t.isDirectory (a ++ [name]) = true)
    (hfits : fits maxPath (Host.inDirectory spelled name) = true)
    (hrest : Reached t (Host.inDirectory spelled name) (a ++ [name]) rest) : Reached t spelled a (name :: rest)

/-- The files below a place are those whose place begins with it. -/
theorem exists_mem_filesBelow_iff :
    names ∈ (t.filesBelow a).map (·.1) ↔ ∃ f, t.file? (a ++ names) = some f := by
  simp only [filesBelow, List.mem_map, List.mem_filterMap]
  constructor
  · rintro ⟨_, ⟨⟨place, node⟩, _, hfound⟩, rfl⟩
    split at hfound
    · rename_i hbelow
      obtain ⟨f, hfile, rfl⟩ := Option.map_eq_some_iff.1 hfound
      refine ⟨f, ?_⟩
      rw [List.prefix_iff_eq_append.1 (List.isPrefixOf_iff_prefix.1 hbelow)]
      exact hfile
    · cases hfound
  · rintro ⟨f, hfile⟩
    have hnode := file?_eq_some_iff.1 hfile
    rw [node?_of_ne_nil _ (ne_nil_of_file hnode)] at hnode
    obtain ⟨⟨place, node⟩, hmem, rfl⟩ := List.mem_map.1 (Keyed.key_mem_of_get? hnode)
    refine ⟨(names, f), ⟨(a ++ names, node), hmem, ?_⟩, rfl⟩
    have hbelow : a.isPrefixOf (a ++ names) = true := List.isPrefixOf_iff_prefix.2 (List.prefix_append ..)
    simp [hbelow, hfile]

/-- The way to a file is open just if the file is reached. -/
theorem isOpenWay_iff_reached {f : File} (hfile : t.file? (a ++ names) = some f) (hne : names ≠ []) :
    t.isOpenWay spelled a names = true ↔ Reached t spelled a names := by
  induction names generalizing a spelled with
  | nil => exact absurd rfl hne
  | cons name rest ih =>
    cases rest with
    | nil => exact iff_of_true rfl (.file hfile)
    | cons next rest =>
      have hrest : t.file? ((a ++ [name]) ++ next :: rest) = some f := by
        rwa [List.append_assoc, List.singleton_append]
      simp only [isOpenWay, Bool.and_eq_true, Bool.not_eq_true']
      rw [ih hrest (List.cons_ne_nil next rest)]
      constructor
      · rintro ⟨⟨⟨hopen, hdirectory⟩, hfits⟩, hreached⟩
        exact .enter hopen hdirectory hfits hreached
      · rintro (_ | ⟨hopen, hdirectory, hfits, hreached⟩)
        exact ⟨⟨⟨hopen, hdirectory⟩, hfits⟩, hreached⟩

theorem Reached.exists_file (h : Reached t spelled a names) :
    names ≠ [] ∧ ∃ f, t.file? (a ++ names) = some f := by
  induction h with
  | file hfile => exact ⟨List.cons_ne_nil _ _, _, hfile⟩
  | enter _ _ _ _ ih =>
    obtain ⟨_, f, hfile⟩ := ih
    refine ⟨List.cons_ne_nil _ _, f, ?_⟩
    rwa [List.append_assoc, List.singleton_append] at hfile

/-- **The walk below a directory finds what is reached.** -/
theorem mem_openFiles_iff : names ∈ t.openFiles spelled a ↔ Reached t spelled a names := by
  rw [openFiles, List.mem_filter, exists_mem_filesBelow_iff]
  constructor
  · rintro ⟨⟨f, hfile⟩, hopen⟩
    refine (isOpenWay_iff_reached hfile ?_).1 hopen
    rintro rfl
    cases hopen
  · intro h
    obtain ⟨hne, f, hfile⟩ := h.exists_file
    exact ⟨⟨f, hfile⟩, (isOpenWay_iff_reached hfile hne).2 h⟩

/-! ## Of one path -/

theorem leadsToDirectory_iff : t.leadsToDirectory cwd p = true ↔
    p.hasNull = false ∧ ∃ a, t.follow cwd p = .ok a ∧ t.node? a = some .directory := by
  rw [← look_eq_ok_iff, leadsToDirectory]
  split
  · simp_all
  · rename_i hother
    exact iff_of_false Bool.false_ne_true fun h => hother h.2

/-- **What a path stands for**: itself, or if it leads to a directory, the files that are reached below. -/
inductive StandsFor (t : FileTree) (cwd : Absolute) (p : Path) : Path → Prop
  | itself (hother : t.leadsToDirectory cwd p = false) : StandsFor t cwd p p
  | below {a : Absolute} {names : List Text} (hdirectory : t.leadsToDirectory cwd p = true)
    (hfollow : t.follow cwd p = .ok a) (hreached : Reached t p.toText a names) :
    StandsFor t cwd p (p.join ⟨.relative, names⟩)

theorem mem_expand_iff : q ∈ t.expand cwd p ↔ StandsFor t cwd p q := by
  rw [expand]
  cases hdirectory : t.leadsToDirectory cwd p with
  | false =>
    rw [if_neg Bool.false_ne_true, List.mem_singleton]
    constructor
    · rintro rfl
      exact .itself hdirectory
    · rintro (_ | ⟨hother, _, _⟩)
      · rfl
      · cases hdirectory.symm.trans hother
  | true =>
    obtain ⟨_, a, hfollow, _⟩ := leadsToDirectory_iff.1 hdirectory
    rw [if_pos rfl, hfollow]
    dsimp only
    rw [List.mem_map]
    constructor
    · rintro ⟨names, hnames, rfl⟩
      exact .below hdirectory hfollow (mem_openFiles_iff.1 hnames)
    · rintro (hother | ⟨_, hfollow', hreached⟩)
      · cases hdirectory.symm.trans hother
      · obtain rfl := Except.ok.inj (hfollow.symm.trans hfollow')
        exact ⟨_, mem_openFiles_iff.2 hreached, rfl⟩

/-! ## Of all paths -/

/-- **A path that the file system refuses as too long**, as a whole or for a name in a directory. -/
def TooLong (t : FileTree) (cwd : Absolute) (p : Path) : Prop :=
  p.hasNull = false ∧ t.look cwd p = .error .nameTooLong

instance (t : FileTree) (cwd : Absolute) (p : Path) : Decidable (t.TooLong cwd p) :=
  inferInstanceAs (Decidable (_ ∧ _))

/-- What is too long stays so with more names behind it. -/
theorem walk_append_of_tooLong (hwalk : t.walk a names = .error .nameTooLong) (more : List Text) :
    t.walk a (names ++ more) = .error .nameTooLong := by
  induction names generalizing a with
  | nil => cases hwalk
  | cons name names ih =>
    rw [List.cons_append]
    unfold walk at hwalk ⊢
    split at hwalk
    · cases hwalk
    · cases hwalk
    · split at hwalk
      · rename_i hfits
        rw [if_pos hfits]
        exact ih hwalk
      · rename_i hfits
        rw [if_neg hfits]

theorem look_eq_tooLong_iff : t.look cwd p = .error .nameTooLong ↔ t.follow cwd p = .error .nameTooLong := by
  unfold look
  cases t.follow cwd p with
  | error fault => simp [bind, Except.bind]
  | ok a => cases hnode : t.node? a <;> simp [bind, Except.bind, hnode]

theorem fits_of_append {n : Nat} {s u : Text} (h : fits n (s ++ u) = true) : fits n s = true := by
  rw [fits, decide_eq_true_eq] at h ⊢
  rw [Utf8.encode_append, List.length_append] at h
  omega

/-- A name in a directory whose path is too long is too long. -/
theorem look_append_of_tooLong (hlook : t.look [] (.ofAbsolute a) = .error .nameTooLong) (name : Text) :
    t.look [] (.ofAbsolute (a ++ [name])) = .error .nameTooLong := by
  rw [look_eq_tooLong_iff] at hlook ⊢
  unfold follow at hlook ⊢
  split at hlook
  · split
    · exact walk_append_of_tooLong hlook [name]
    · rfl
  · rename_i hlong
    rw [if_neg]
    intro hfits
    -- the root alone is not too long
    have hne : a ≠ [] := by
      rintro rfl
      exact hlong (by decide)
    rw [Path.toText_append hne] at hfits
    exact hlong (fits_of_append hfits)

theorem reach_eq : (¬ t.TooLong cwd p ∧ t.reach cwd p = .ok ()) ∨
    t.TooLong cwd p ∧ t.reach cwd p = .error (.refused p .nameTooLong) := by
  unfold reach TooLong
  split
  · rename_i hnull hlook
    exact .inr ⟨⟨hnull, hlook⟩, rfl⟩
  · rename_i hother
    exact .inl ⟨fun h => hother h.1 h.2, rfl⟩

variable {paths : List Text} {extensions : Option (List Text)}

theorem find_of_fit (h : ∀ text ∈ paths, ¬ t.TooLong cwd (.ofText text)) :
    t.find cwd paths extensions = .ok (t.matching cwd paths extensions) := by
  have hreach : (paths.forM fun text => t.reach cwd (.ofText text)) = .ok () := by
    induction paths with
    | nil => rfl
    | cons text paths ih =>
      obtain ⟨htext, hpaths⟩ := List.forall_mem_cons.1 h
      rw [List.forM, (reach_eq.resolve_right fun hlong => htext hlong.1).2]
      exact ih hpaths
  rw [find, hreach]
  rfl

/-- **Finding fails for the first path that is too long.** -/
theorem find_of_tooLong {before after : List Text} {text : Text} (h : t.TooLong cwd (.ofText text))
    (hfirst : ∀ other ∈ before, ¬ t.TooLong cwd (.ofText other)) :
    t.find cwd (before ++ text :: after) extensions = .error (.refused (.ofText text) .nameTooLong) := by
  have hreach : ((before ++ text :: after).forM fun text => t.reach cwd (.ofText text)) =
      .error (.refused (.ofText text) .nameTooLong) := by
    induction before with
    | nil =>
      rw [List.nil_append, List.forM, (reach_eq.resolve_left fun hfits => hfits.1 h).2]
      rfl
    | cons other before ih =>
      obtain ⟨hother, hbefore⟩ := List.forall_mem_cons.1 hfirst
      rw [List.cons_append, List.forM, (reach_eq.resolve_right fun hlong => hother hlong.1).2]
      exact ih hbefore
  rw [find, hreach]
  rfl

theorem mem_matching_iff_standsFor {text : Text} : text ∈ t.matching cwd paths extensions ↔
    ∃ input ∈ paths, ∃ p, StandsFor t cwd (.ofText input) p ∧
      (∀ wanted, extensions = some wanted → p.extension ∈ wanted) ∧ p.toText = text := by
  rw [mem_matching_iff]
  refine exists_congr fun input => and_congr_right fun _ => exists_congr fun p => ?_
  rw [mem_expand_iff]
  refine and_congr_right fun _ => and_congr_left fun _ => ?_
  cases extensions with
  | none => simp [isWanted]
  | some wanted => simp [isWanted]

theorem pairwise_lt_matching (t : FileTree) (cwd : Absolute) (paths : List Text) (extensions : Option (List Text)) :
    (t.matching cwd paths extensions).Pairwise (· < ·) :=
  Text.pairwise_lt_sorted _

/-- Neither order nor repetition of the paths matters. -/
theorem matching_congr {others : List Text} (h : ∀ text, text ∈ others ↔ text ∈ paths) :
    t.matching cwd others extensions = t.matching cwd paths extensions := by
  refine (pairwise_lt_matching ..).eq_of_mem_iff (pairwise_lt_matching ..) fun {text} => ?_
  simp only [mem_matching_iff, h]

/-- **What is found**: if no path is too long, a strictly increasing list of just what the paths stand for, of the
extensions that are wanted, and the same for all lists of the same paths. -/
theorem finds_exactly (t : FileTree) (cwd : Absolute) (paths : List Text) (extensions : Option (List Text)) :
    ((∀ text ∈ paths, ¬ t.TooLong cwd (.ofText text)) →
      ∃ found, t.find cwd paths extensions = .ok found ∧ found.Pairwise (· < ·) ∧
        (∀ text, text ∈ found ↔ ∃ input ∈ paths, ∃ p, StandsFor t cwd (.ofText input) p ∧
          (∀ wanted, extensions = some wanted → p.extension ∈ wanted) ∧ p.toText = text) ∧
        ∀ others : List Text, (∀ text, text ∈ others ↔ text ∈ paths) →
          t.find cwd others extensions = .ok found) ∧
      ∀ before text after, paths = before ++ text :: after → t.TooLong cwd (.ofText text) →
        (∀ other ∈ before, ¬ t.TooLong cwd (.ofText other)) →
        t.find cwd paths extensions = .error (.refused (.ofText text) .nameTooLong) := by
  refine ⟨fun hfit => ⟨_, find_of_fit hfit, pairwise_lt_matching .., fun _ => mem_matching_iff_standsFor,
    fun others hothers => ?_⟩, ?_⟩
  · rw [find_of_fit fun text htext => hfit text ((hothers text).1 htext), matching_congr hothers]
  · rintro before text after rfl hlong hfirst
    exact find_of_tooLong hlong hfirst

/-- Two files and a hidden directory in a directory, and a file beside it. -/
def docs : FileTree :=
  ((({} : FileTree).put ["docs".toList, ".env.ts".toList] []).put ["docs".toList, "b".toList, "c.TS".toList] []).put
    ["docs".toList, ".git".toList, "d.ts".toList] []

/-- A name of more bytes than a name may have. -/
def longName : Text :=
  List.replicate 256 'a'

/-- Overlapping paths, one of them a hidden directory; and a path that is too long among others. -/
theorem finds_exactly_docs :
    let paths := ["docs", "./docs/b", "docs//.git", "docs/b/../b", "gone.ts"].map String.toList
    (∃ found, docs.find [] paths (some ["ts".toList]) = .ok found ∧
        docs.find [] paths.reverse (some ["ts".toList]) = .ok found ∧
        found = ["docs/.env.ts", "docs/.git/d.ts", "docs/b/../b/c.TS", "docs/b/c.TS", "gone.ts"].map String.toList) ∧
      docs.find [] (paths ++ [longName]) none = .error (.refused (.ofText longName) .nameTooLong) := by
  intro paths
  have hfit : ∀ text ∈ paths, ¬ docs.TooLong [] (.ofText text) := by decide +kernel
  have hlong : docs.TooLong [] (.ofText longName) := by decide +kernel
  obtain ⟨found, hfound, hsorted, hmem, hothers⟩ := (finds_exactly docs [] paths (some ["ts".toList])).1 hfit
  refine ⟨⟨found, hfound, hothers _ fun text => List.mem_reverse, ?_⟩,
    (finds_exactly docs [] (paths ++ [longName]) none).2 paths longName [] rfl hlong hfit⟩
  refine hsorted.eq_of_mem_iff (by decide +kernel) fun {text} => ?_
  rw [hmem, ← mem_matching_iff_standsFor, matching, List.mem_mergeSort]
  exact List.Perm.mem_iff (by decide +kernel)

/-- A path that leads to no directory but is too long: nothing is found, not even the path itself. -/
theorem find_refused : ¬ ∃ found, docs.find [] [longName] none = .ok found := by
  rintro ⟨found, hfound⟩
  have hrefused : docs.find [] [longName] none = .error (.refused (.ofText longName) .nameTooLong) := by
    decide +kernel
  cases hfound.symm.trans hrefused

end FileTree

end Fenceline
