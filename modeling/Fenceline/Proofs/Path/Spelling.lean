import Fenceline.Path.Basic
import Fenceline.Proofs.Text.Cut

/-!
# Places come back from their spelling

A place is spelled with a slash before each of its names. The spelling leads back to the place if its
names are spellable: none is empty or a dot, and none holds a slash. Names without a slash before them are
spelled likewise.

**The laws.** `ofText_toText`: the path that is spelled as a place is that place. `isPlace_resolve`: where a path
leads from a place is a place.
-/

namespace Fenceline.Path

/-- **Names that a path can spell.** -/
def Spellable (names : List Text) : Prop :=
  ∀ name ∈ names, name ≠ [] ∧ name ≠ ['.'] ∧ '/' ∉ name

instance (names : List Text) : Decidable (Spellable names) :=
  List.decidableBAll _ names

variable {names : List Text}

/-- The names of a path go on behind a slash. -/
theorem components_append (t u : Text) : components (t ++ '/' :: u) = components t ++ components u := by
  rw [components, Text.cutAt_append_sep, List.filter_append]
  rfl

theorem toText_ofAbsolute (names : Absolute) :
    (ofAbsolute names).toText = '/' :: Text.joinWith ['/'] names := rfl

theorem rootOf_eq_relative_iff (t : Text) : rootOf t = .relative ↔ t.head? ≠ some '/' := by
  unfold rootOf
  split
  · simp
  · split <;> simp
  · simp
  · rename_i hroot
    refine ⟨fun _ hhead => ?_, fun _ => rfl⟩
    obtain ⟨rest, rfl⟩ := List.head?_eq_some_iff.1 hhead
    exact hroot rest rfl

/-- The names of a path that is read are spellable. -/
theorem spellable_components (t : Text) : Spellable (components t) := by
  intro name hname
  obtain ⟨hne, hdot⟩ := components_ne_dot hname
  exact ⟨hne, hdot, Text.not_mem_of_mem_cutAt (List.mem_filter.1 hname).1⟩

theorem components_joinWith (h : Spellable names) : components (Text.joinWith ['/'] names) = names := by
  cases names with
  | nil => rfl
  | cons name names =>
    rw [components, Text.cutAt_joinWith (List.cons_ne_nil name names) fun n hn => (h n hn).2.2, List.filter_eq_self]
    intro n hn
    obtain ⟨hne, hdot, _⟩ := h n hn
    simp [hne, hdot]

theorem components_toText (h : Spellable names) : components (ofAbsolute names).toText = names := by
  rw [toText_ofAbsolute, ← List.nil_append ('/' :: _), components_append, components_joinWith h]
  rfl

theorem exists_joinWith_cons (c : Char) (r : Text) (names : List Text) :
    ∃ rest, Text.joinWith ['/'] ((c :: r) :: names) = c :: rest := by
  cases names with
  | nil => exact ⟨r, rfl⟩
  | cons other names => exact ⟨_, rfl⟩

theorem rootOf_toText (h : Spellable names) : rootOf (ofAbsolute names).toText = .slash := by
  rw [toText_ofAbsolute]
  cases names with
  | nil => rfl
  | cons name names =>
    -- the first name begins with no slash, so there is one slash only
    obtain ⟨hne, _, hslash⟩ := h name List.mem_cons_self
    obtain ⟨c, r, rfl⟩ := List.exists_cons_of_ne_nil hne
    have hc : c ≠ '/' := fun he => hslash (he ▸ List.mem_cons_self)
    obtain ⟨rest, hrest⟩ := exists_joinWith_cons c r names
    rw [hrest]
    unfold rootOf
    split <;> simp_all

/-- **The path that is spelled as a place is that place.** -/
theorem ofText_toText (h : Spellable names) :
    ofText (ofAbsolute names).toText = ofAbsolute names := by
  rw [ofText, rootOf_toText h, components_toText h]
  rfl

/-- **Names come back from their spelling.** -/
theorem ofText_toText_relative (h : Spellable names) :
    ofText (⟨.relative, names⟩ : Path).toText = ⟨.relative, names⟩ := by
  cases names with
  | nil => rfl
  | cons name names =>
    have hspelled : (⟨.relative, name :: names⟩ : Path).toText = Text.joinWith ['/'] (name :: names) := rfl
    have hroot : rootOf (Text.joinWith ['/'] (name :: names)) = .relative := by
      rw [rootOf_eq_relative_iff]
      obtain ⟨hne, _, hslash⟩ := h name List.mem_cons_self
      obtain ⟨c, r, rfl⟩ := List.exists_cons_of_ne_nil hne
      obtain ⟨rest, hrest⟩ := exists_joinWith_cons c r names
      rw [hrest, List.head?_cons, ne_eq, Option.some.injEq]
      exact fun hc => hslash (hc ▸ List.mem_cons_self)
    rw [ofText, hspelled, hroot, components_joinWith h]

/-- No two slashes stand together in the spelling of a place. -/
theorem not_infix_toText (h : Spellable names) : ¬ ['/', '/'] <:+: (ofAbsolute names).toText := by
  rintro ⟨a, b, heq⟩
  have hboth : Text.cutAt '/' (ofAbsolute names).toText = Text.cutAt '/' a ++ [] :: Text.cutAt '/' b := by
    rw [← heq, List.append_assoc]
    exact (Text.cutAt_append_sep '/' a ('/' :: b)).trans (by rw [Text.cutAt, if_pos rfl])
  have hcut : (ofAbsolute names).toText.cutAt '/' = [] :: (Text.joinWith ['/'] names).cutAt '/' := by
    rw [toText_ofAbsolute, Text.cutAt, if_pos rfl]
  rw [hcut] at hboth
  obtain ⟨first, others, ha⟩ := List.exists_cons_of_ne_nil (Text.cutAt_ne_nil '/' a)
  rw [ha, List.cons_append] at hboth
  have hrest := (List.cons.inj hboth).2
  cases names with
  | nil =>
    obtain ⟨p, ps, hb⟩ := List.exists_cons_of_ne_nil (Text.cutAt_ne_nil '/' b)
    have hlength := congrArg List.length hrest
    rw [hb] at hlength
    simp [Text.joinWith, Text.cutAt] at hlength
    omega
  | cons name names =>
    rw [Text.cutAt_joinWith (List.cons_ne_nil name names) fun n hn => (h n hn).2.2] at hrest
    exact (h [] (hrest ▸ List.mem_append_right others List.mem_cons_self)).1 rfl

/-- One more name stands behind a slash. -/
theorem toText_append {directory : Absolute} (hne : directory ≠ []) (name : Text) :
    (ofAbsolute (directory ++ [name])).toText = (ofAbsolute directory).toText ++ '/' :: name := by
  rw [toText_ofAbsolute, toText_ofAbsolute, Text.joinWith_concat hne, List.append_assoc,
    List.singleton_append, List.cons_append]

/-- The spelling of a place goes on with its last name. -/
theorem toText_append_ending (directory : Absolute) (name ending : Text) :
    (ofAbsolute (directory ++ [name ++ ending])).toText = (ofAbsolute (directory ++ [name])).toText ++ ending := by
  by_cases hne : directory = []
  · rw [hne]
    rfl
  · rw [toText_append hne, toText_append hne, List.append_assoc, List.cons_append]

/-- The characters of a place's spelling are slashes and those of its names. -/
theorem mem_toText {x : Char} (h : x ∈ (ofAbsolute names).toText) :
    x = '/' ∨ ∃ name ∈ names, x ∈ name := by
  rw [toText_ofAbsolute] at h
  rcases List.mem_cons.1 h with h | h
  · exact .inl h
  · exact (Text.mem_joinWith h).imp_left List.mem_singleton.1

/-- The characters of any spelling are slashes, dots and those of the names it leads through. -/
theorem mem_components {t : Text} {x : Char} (h : x ∈ t) :
    x = '/' ∨ x = '.' ∨ ∃ name ∈ components t, x ∈ name := by
  rw [← Text.joinWith_cutAt '/' t] at h
  obtain hx | ⟨name, hname, hx⟩ := Text.mem_joinWith h
  · exact .inl (List.mem_singleton.1 hx)
  · by_cases hdot : name = ['.']
    · rw [hdot, List.mem_singleton] at hx
      exact .inr (.inl hx)
    · have hne : name ≠ [] := List.ne_nil_of_mem hx
      exact .inr (.inr ⟨name, List.mem_filter.2 ⟨hname, by simp [hne, hdot]⟩, hx⟩)

/-- **A character that the spelling of a path does not hold** is none of another spelling of it, but for slashes and
dots. -/
theorem not_mem_of_toText {file : Text} {x : Char} (hslash : x ≠ '/') (hdot : x ≠ '.')
    (h : x ∉ (ofText file).toText) : x ∉ file := by
  intro hmem
  obtain ⟨name, hname, hin⟩ := ((mem_components hmem).resolve_left hslash).resolve_left hdot
  have hjoin : x ∈ Text.joinWith ['/'] (components file) := Text.subset_joinWith hname hin
  refine h ?_
  unfold toText ofText
  cases rootOf file with
  | relative =>
    have hnames : (components file).isEmpty = false := List.isEmpty_eq_false_iff.2 (List.ne_nil_of_mem hname)
    rw [hnames]
    exact hjoin
  | slash => exact List.mem_cons_of_mem _ hjoin
  | doubleSlash => exact List.mem_cons_of_mem _ (List.mem_cons_of_mem _ hjoin)

/-- Without `..`, names lead on. -/
theorem foldl_step (h : ['.', '.'] ∉ names) (base : Absolute) : names.foldl step base = base ++ names := by
  induction names generalizing base with
  | nil => exact (List.append_nil base).symm
  | cons name names ih =>
    rw [List.mem_cons, not_or] at h
    rw [List.foldl_cons, step, if_neg (Ne.symm h.1), ih h.2, List.append_assoc, List.singleton_append]

/-- Without `..`, the place of a path is made of its names. -/
theorem resolve_ofAbsolute (h : ['.', '.'] ∉ names) : resolve [] (ofAbsolute names) = names :=
  foldl_step h []

/-! ## Places -/

/-- **A resolved place**: its names can be spelled, and none leads up. -/
def IsPlace (a : Absolute) : Prop :=
  Spellable a ∧ ['.', '.'] ∉ a

instance (a : Absolute) : Decidable (IsPlace a) :=
  inferInstanceAs (Decidable (_ ∧ _))

/-- **The names of the place where a path leads** are names of the place from which it leads and its own, but none
that leads up. -/
theorem forall_mem_resolve {P : Text → Prop} {base : Absolute} {p : Path} (hbase : ∀ name ∈ base, P name)
    (hnames : ∀ name ∈ p.names, name ≠ ['.', '.'] → P name) : ∀ name ∈ p.resolve base, P name := by
  have hstep (a : Absolute) (ha : ∀ name ∈ a, P name) (name : Text) (hname : name ≠ ['.', '.'] → P name) :
      ∀ n ∈ step a name, P n := by
    intro n hn
    rw [step] at hn
    split at hn
    · exact ha n ((List.dropLast_sublist a).subset hn)
    · rcases List.mem_append.1 hn with hn | hn
      · exact ha n hn
      · exact List.mem_singleton.1 hn ▸ hname ‹_›
  have hfold (names : List Text) (hnames : ∀ name ∈ names, name ≠ ['.', '.'] → P name) (a : Absolute)
      (ha : ∀ name ∈ a, P name) : ∀ name ∈ names.foldl step a, P name := by
    induction names generalizing a with
    | nil => exact ha
    | cons name names ih =>
      obtain ⟨hname, hnames⟩ := List.forall_mem_cons.1 hnames
      exact ih hnames _ (hstep a ha name hname)
  refine hfold p.names hnames _ ?_
  split
  · exact hbase
  · exact List.forall_mem_nil _

/-- **Where a path leads from a place is a place.** -/
theorem isPlace_resolve {base : Absolute} (hbase : IsPlace base) (t : Text) : IsPlace ((ofText t).resolve base) := by
  have hnames : ∀ name ∈ (ofText t).resolve base,
      (name ≠ [] ∧ name ≠ ['.'] ∧ '/' ∉ name) ∧ name ≠ ['.', '.'] := by
    refine forall_mem_resolve (fun name hname => ⟨hbase.1 name hname, ?_⟩) fun name hname hup =>
      ⟨spellable_components t name hname, hup⟩
    rintro rfl
    exact hbase.2 hname
  exact ⟨fun name hname => (hnames name hname).1, fun hup => (hnames _ hup).2 rfl⟩

/-! ## Null characters -/

theorem hasNull_eq_false_iff {p : Path} : p.hasNull = false ↔ ∀ name ∈ p.names, '\x00' ∉ name := by
  simp [hasNull]

/-- A spelling holds no null character if no name does. -/
theorem null_not_mem_toText {p : Path} (h : ∀ name ∈ p.names, '\x00' ∉ name) : '\x00' ∉ p.toText := by
  have hjoin : '\x00' ∉ Text.joinWith ['/'] p.names := by
    intro hmem
    rcases Text.mem_joinWith hmem with hslash | ⟨name, hname, hin⟩
    · exact absurd (List.mem_singleton.1 hslash) (by decide)
    · exact h name hname hin
  unfold toText
  split
  · split
    · decide
    · exact hjoin
  · exact List.not_mem_cons_of_ne_of_not_mem (by decide) hjoin
  · exact List.not_mem_cons_of_ne_of_not_mem (by decide) (List.not_mem_cons_of_ne_of_not_mem (by decide) hjoin)

/-- The names of a path hold no null character if its spelling does not. -/
theorem null_not_mem_components {t : Text} (h : '\x00' ∉ t) : ∀ name ∈ components t, '\x00' ∉ name := by
  intro name hname hmem
  rw [← Text.joinWith_cutAt '/' t] at h
  exact h (Text.subset_joinWith (List.mem_filter.1 hname).1 hmem)

end Fenceline.Path
