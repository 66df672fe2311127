import Fenceline.Proofs.Location.Character
import Fenceline.Proofs.Location.Mark
import Fenceline.Proofs.Location.Reference
import Fenceline.Proofs.Path.Spelling
import Fenceline.Proofs.Text.Replace
import Fenceline.Sample.Extraction

/-!
# Sample files as extraction writes them

Extraction writes every sample to a file of one directory, under a name that ends in the mark of the
sample's lines and an extension (`Sample.Stored`). So the spelling of the directory stands in the file's
spelling once, at its beginning, and what is read from there up to the next colon is the file.

**The laws.** `Path.Holding.not_prefix`: the directory does not begin inside of the spelling of a file.
`unmark_of_hasParts`: a reference to a document with the mark of a sample's lines is brought back to the
sample's place.
-/

namespace Fenceline

open Pattern Reference

/-! ## The files of a directory -/

/-- The text that the spellings of all files in a directory begin with. -/
def Path.inside (directory : Absolute) : Text :=
  (ofAbsolute directory).toText ++ ['/']

/-- The spelling of a file in a directory. -/
theorem Path.toText_inside {directory : Absolute} (h : directory ≠ []) (name : Text) :
    (ofAbsolute (directory ++ [name])).toText = inside directory ++ name := by
  rw [Path.toText_append h, inside, List.append_assoc, List.singleton_append]

theorem Path.inside_append_ne_nil (directory : Absolute) (t : Text) : inside directory ++ t ≠ [] := by
  rw [inside, List.append_assoc]
  exact List.append_ne_nil_of_right_ne_nil _ (List.cons_ne_nil _ _)

/-- What stands behind the spelling of a directory leads on from there. -/
theorem Path.components_inside {directory : Absolute} (h : Spellable directory) (t : Text) :
    components (inside directory ++ t) = directory ++ components t := by
  rw [inside, List.append_assoc, List.singleton_append, components_append, components_toText h]

/-- The place that a spelling in a directory leads to. -/
theorem Path.name_eq {directory : Absolute} (h : Spellable directory) {name other : Text} (hname : '/' ∉ name)
    (heq : ofText (inside directory ++ name) = ofAbsolute (directory ++ [other])) : name = other := by
  have hnames : components (inside directory ++ name) = directory ++ [other] :=
    congrArg Path.names heq
  rw [components_inside h, List.append_cancel_left_eq, components, Text.cutAt_of_not_mem hname] at hnames
  have hmem : other ∈ [name].filter fun n => n != [] && n != ['.'] := hnames ▸ List.mem_cons_self
  exact (List.mem_singleton.1 (List.mem_filter.1 hmem).1).symm

/-- **A directory that extraction writes to**: not the root, and without a dollar sign in its spelling. -/
structure Path.Holding (directory : Absolute) : Prop where
  ne_nil : directory ≠ []
  spellable : Spellable directory
  noDollar : '$' ∉ (ofAbsolute directory).toText

namespace Path.Holding

variable {directory : Absolute}

theorem noDollar_inside (h : Holding directory) : '$' ∉ inside directory := by
  rw [inside, List.mem_append, not_or]
  exact ⟨h.noDollar, by decide⟩

/-- The spelling of a directory begins with one slash. -/
theorem inside_eq (h : Holding directory) : ∃ c w, c ≠ '/' ∧ inside directory = '/' :: c :: w := by
  obtain ⟨name, names, rfl⟩ := List.exists_cons_of_ne_nil h.ne_nil
  obtain ⟨hne, _, hslash⟩ := h.spellable name List.mem_cons_self
  obtain ⟨c, r, rfl⟩ := List.exists_cons_of_ne_nil hne
  refine ⟨c, ?_⟩
  have hc : c ≠ '/' := fun he => hslash (he ▸ List.mem_cons_self)
  cases names with
  | nil => exact ⟨_, hc, rfl⟩
  | cons other names => exact ⟨_, hc, rfl⟩

end Path.Holding

/-- **The name of a sample file**: behind its first dollar sign stands a dot. -/
structure IsSampleName (name : Text) : Prop where
  all : ∀ x ∈ name, Resolver.inSampleName x = true
  marked : ∃ stem ending, name = stem ++ '$' :: ending ∧ '$' ∉ stem ∧ '.' ∈ ending

namespace IsSampleName

variable {name : Text}

/-- What stands behind some dollar sign stands behind the first one. -/
theorem exists_stem {stem tail : Text} {x : Char} (hx : x ∈ tail) :
    ∃ a b, stem ++ '$' :: tail = a ++ '$' :: b ∧ '$' ∉ a ∧ x ∈ b := by
  obtain ⟨a, b, hab, ha⟩ := List.eq_append_cons_of_mem
    (List.mem_append_right stem (List.mem_cons_self : '$' ∈ '$' :: tail))
  refine ⟨a, b, hab, ha, ?_⟩
  rcases List.append_eq_append_iff.1 hab with ⟨c, rfl, hc⟩ | ⟨c, rfl, hc⟩
  · cases c with
    | nil => exact (List.cons.inj hc).2 ▸ hx
    | cons y c =>
      refine absurd (List.mem_append_right stem ?_) ha
      rw [(List.cons.inj hc).1]
      exact List.mem_cons_self
  · cases c with
    | nil => exact (List.cons.inj hc).2 ▸ hx
    | cons y c =>
      rw [(List.cons.inj hc).2]
      exact List.mem_append_right c (List.mem_cons_of_mem _ hx)

theorem ne_nil (h : IsSampleName name) : name ≠ [] := by
  obtain ⟨stem, ending, rfl, _, _⟩ := h.marked
  exact List.append_ne_nil_of_right_ne_nil stem (List.cons_ne_nil _ _)

theorem ne_dot (h : IsSampleName name) : name ≠ ['.'] := by
  obtain ⟨stem, ending, rfl, _, _⟩ := h.marked
  intro hdot
  have hmem : '$' ∈ stem ++ '$' :: ending := List.mem_append_right stem List.mem_cons_self
  rw [hdot] at hmem
  exact absurd hmem (by decide)

theorem not_mem_slash (h : IsSampleName name) : '/' ∉ name := fun hmem =>
  absurd (h.all '/' hmem) (by decide)

theorem not_mem_colon (h : IsSampleName name) : ':' ∉ name := fun hmem =>
  absurd (h.all ':' hmem) (by decide)

/-- The name of a sample file can be spelled in a directory that can. -/
theorem spellable {directory : Absolute} (h : IsSampleName name) (hdirectory : Path.Spellable directory) :
    Path.Spellable (directory ++ [name]) := by
  intro n hn
  rcases List.mem_append.1 hn with hn | hn
  · exact hdirectory n hn
  · rw [List.mem_singleton.1 hn]
    exact ⟨h.ne_nil, h.ne_dot, h.not_mem_slash⟩

end IsSampleName

/-- **The directory does not begin inside of the spelling of a file**: it would have too many slashes. -/
theorem Path.Holding.not_prefix {directory : Absolute} (h : Holding directory) {name next : Text}
    (hname : IsSampleName name) {v : Text} (hv : v ≠ []) (hsuffix : v <:+ inside directory ++ name)
    (hne : v ≠ inside directory ++ name) : ¬ inside directory <+: v ++ next := by
  obtain ⟨c, w, _, hinside⟩ := h.inside_eq
  intro hbegin
  rcases Text.suffix_append_cases hsuffix with hv' | ⟨u, _, ⟨z, hz⟩, rfl⟩
  · obtain ⟨x, v, rfl⟩ := List.exists_cons_of_ne_nil hv
    rw [hinside, List.cons_append, List.cons_prefix_cons] at hbegin
    exact hname.not_mem_slash (hbegin.1 ▸ hv'.subset List.mem_cons_self)
  · obtain ⟨stem, ending, rfl, _, _⟩ := hname.marked
    have hstem : '/' ∉ stem := fun hmem => hname.not_mem_slash (List.mem_append_left _ hmem)
    have hshort : inside directory <+: u ++ stem := by
      refine Text.prefix_of_not_mem (x := '$') (b := ending ++ next) h.noDollar_inside ?_
      simpa using hbegin
    have hcount := hshort.sublist.count_le '/'
    have hmore : 0 < z.count '/' := by
      cases z with
      | nil => exact absurd (by rw [← hz]; rfl) hne
      | cons y z =>
        rw [hinside, List.cons_append] at hz
        rw [(List.cons.inj hz).1, List.count_cons_self]
        exact Nat.succ_pos _
    rw [← hz, List.count_append, List.count_append, List.count_eq_zero_of_not_mem hstem] at hcount
    omega

/-! ## Samples written to the files of a directory -/

/-- The spelling of the file that a sample was written to. -/
def Sample.place (s : Sample) : Text :=
  (s.path.map Path.toText).getD []

/-- It is that of the directory with the name behind it. -/
theorem Sample.place_eq {directory : Absolute} (hdirectory : directory ≠ []) {s : Sample} {name : Text}
    (hpath : s.path = some (.ofAbsolute (directory ++ [name]))) : s.place = Path.inside directory ++ name := by
  rw [place, hpath, Option.map_some, Option.getD_some, Path.toText_inside hdirectory]

/-- **A sample is found by its file**, if no two samples have one file. -/
theorem Resolver.sampleAt?_of_name {directory : Absolute} (hdirectory : directory ≠ [])
    (hspellable : Path.Spellable directory) {s : Sample} {name : Text} (hname : IsSampleName name)
    (hpath : s.path = some (.ofAbsolute (directory ++ [name]))) {r : Resolver} (hs : s ∈ r.samples)
    (hnodup : (r.samples.map (·.path)).Nodup) : r.sampleAt? s.place = some s := by
  refine sampleAt?_of_mem hs hnodup ?_
  rw [Sample.place_eq hdirectory hpath, ← Path.toText_inside hdirectory,
    Path.ofText_toText (hname.spellable hspellable), hpath]

/-- **A sample as extraction writes it** to a file of a directory, with numbers that can be read and
written; its document is one that a message can name. -/
structure Sample.Stored (directory : Absolute) (s : Sample) : Prop where
  document : ∃ names, s.file = .ofAbsolute names ∧ Path.Spellable names ∧ ['.', '.'] ∉ names ∧
    ∀ name ∈ names, ∀ x ∈ name, Text.isBlank x = false ∧ x ≠ '$' ∧ x ≠ '\x00'
  stored : ∃ stem extension, (∀ x ∈ stem ++ extension, Resolver.inSampleName x = true) ∧
    s.path = some (.ofAbsolute (directory ++ [stem ++ s.fileEnding extension]))
  lines : 0 ≤ s.startLine ∧ 0 ≤ s.lineCount
  short : Short s.startLine ∧ Short s.column

/-- Names that a message can spell, by a check of their characters. -/
theorem Sample.plain_of_all {names : List Text}
    (h : (names.all fun name => name.all fun x => !Text.isBlank x && x != '$' && x != '\x00') = true) :
    ∀ name ∈ names, ∀ x ∈ name, Text.isBlank x = false ∧ x ≠ '$' ∧ x ≠ '\x00' := by
  intro name hname x hx
  have hcheck := List.all_eq_true.1 (List.all_eq_true.1 h name hname) x hx
  simpa [and_assoc] using hcheck

namespace Sample.Stored

variable {directory : Absolute} {s : Sample}

/-- The numbers of a stored sample's mark. -/
theorem exists_lines (h : s.Stored directory) : ∃ first last : Nat, s.startLine = first ∧ s.endLine = last := by
  obtain ⟨hstart, hcount⟩ := h.lines
  refine ⟨s.startLine.toNat, s.endLine.toNat, by omega, ?_⟩
  rw [endLine]
  omega

theorem inSampleName_of_mem_ofNat {n : Nat} {x : Char} (h : x ∈ Text.ofNat n) :
    Resolver.inSampleName x = true := by
  have hdigit := Text.isDigit_of_mem_ofNat h
  have hrange : 0x30 ≤ x.toNat ∧ x.toNat ≤ 0x39 := Char.isDigit_iff_toNat.1 hdigit
  have hblank : Text.isBlank x = false := by
    simp [Text.isBlank]
    omega
  have hother : x ≠ ':' ∧ x ≠ '/' ∧ x ≠ '\\' := by
    refine ⟨?_, ?_, ?_⟩ <;> rintro rfl <;> exact absurd hdigit (by decide)
  simp [Resolver.inSampleName, hblank, hother]

/-- A stored sample's file, by its name. -/
theorem exists_name (h : s.Stored directory) (hdirectory : directory ≠ []) :
    ∃ name, IsSampleName name ∧ s.path = some (.ofAbsolute (directory ++ [name])) ∧
      s.place = Path.inside directory ++ name := by
  obtain ⟨stem, extension, hall, hpath⟩ := h.stored
  obtain ⟨first, last, hfirst, hlast⟩ := h.exists_lines
  have hending : s.fileEnding extension =
      '$' :: (Text.ofNat first ++ '-' :: (Text.ofNat last ++ '.' :: extension)) := by
    rw [fileEnding, mark, hfirst, hlast]
    simp [Text.ofInt]
  refine ⟨_, ⟨?_, ?_⟩, hpath, ?_⟩
  · intro x hx
    rw [hending] at hx
    simp only [List.mem_append, List.mem_cons] at hx hall
    rcases hx with hx | rfl | hx | rfl | hx | rfl | hx
    · exact hall x (.inl hx)
    · decide
    · exact inSampleName_of_mem_ofNat hx
    · decide
    · exact inSampleName_of_mem_ofNat hx
    · decide
    · exact hall x (.inr hx)
  · rw [hending]
    exact IsSampleName.exists_stem (by simp)
  · exact place_eq hdirectory hpath

/-- A stored sample's document and mark, as they stand in a reference. -/
theorem exists_reference (h : s.Stored directory) :
    ∃ (run : Text) (first last : Nat), (∀ x ∈ run, notBlank x = true ∧ x ≠ '$') ∧
      s.startLine = first ∧ s.file.toText = '/' :: run ∧
      s.reference = '/' :: run ++ '$' :: (Text.ofNat first ++ '-' :: Text.ofNat last) := by
  obtain ⟨names, hfile, _, _, hplain⟩ := h.document
  obtain ⟨first, last, hfirst, hlast⟩ := h.exists_lines
  have htext : s.file.toText = '/' :: Text.joinWith ['/'] names := by rw [hfile, Path.toText_ofAbsolute]
  refine ⟨Text.joinWith ['/'] names, first, last, ?_, hfirst, htext, ?_⟩
  · intro x hx
    have hmem : x ∈ (Path.ofAbsolute names).toText := by
      rw [Path.toText_ofAbsolute]
      exact List.mem_cons_of_mem _ hx
    rcases Path.mem_toText hmem with rfl | ⟨name, hname, hx⟩
    · decide
    · obtain ⟨hblank, hdollar, _⟩ := hplain name hname x hx
      exact ⟨by rw [notBlank, hblank]; rfl, hdollar⟩
  · rw [reference, htext, mark, hfirst, hlast]
    rfl

/-- A message can name the document without a dollar sign. -/
theorem dollar_not_mem_file (h : s.Stored directory) : '$' ∉ s.file.toText := by
  obtain ⟨run, _, _, hrun, _, hfile, _⟩ := h.exists_reference
  rw [hfile, List.mem_cons, not_or]
  exact ⟨by decide, fun hmem => (hrun '$' hmem).2 rfl⟩

/-- The document of a stored sample is a place of its own. -/
theorem absolute_file (h : s.Stored directory) (r : Resolver) : r.absolute s.file.toText = .ok s.file := by
  obtain ⟨names, hfile, hspellable, hup, hplain⟩ := h.document
  have hnull : (Path.ofAbsolute names).hasNull = false := by
    rw [Path.hasNull, List.any_eq_false]
    intro name hname hmem
    rw [List.contains_iff_mem] at hmem
    exact (hplain name hname _ hmem).2.2 rfl
  have hjoin : r.cwd.join (Path.ofAbsolute names) = Path.ofAbsolute names := rfl
  rw [hfile, Resolver.absolute, Path.ofText_toText hspellable, hjoin, hnull, Path.resolve_ofAbsolute hup]
  rfl

/-- A stored sample's file is in the sample directory. -/
theorem isInSampleDir_place (h : s.Stored directory) (hdirectory : directory ≠ []) {r : Resolver}
    (hsampleDir : r.sampleDir = some (.ofAbsolute directory)) : r.isInSampleDir s.place = true := by
  obtain ⟨name, _, _, hplace⟩ := h.exists_name hdirectory
  rw [hplace, ← Path.toText_inside hdirectory]
  exact Resolver.isInSampleDir_toText hdirectory hsampleDir name

/-- **A stored sample's file leads to the sample**, if no two samples have one file. -/
theorem sampleAt?_place (h : s.Stored directory) (hdirectory : directory ≠ [])
    (hspellable : Path.Spellable directory) {r : Resolver} (hs : s ∈ r.samples)
    (hnodup : (r.samples.map (·.path)).Nodup) : r.sampleAt? s.place = some s := by
  obtain ⟨name, hname, hpath, -⟩ := h.exists_name hdirectory
  exact Resolver.sampleAt?_of_name hdirectory hspellable hname hpath hs hnodup

/-- **A reference to a stored sample is brought back to a place** in its document, by the column of the sample
that is found there. -/
theorem unmark_of_found {r : Resolver} {t : Sample} (h : s.Stored directory)
    (ht : r.sampleFrom? s.file s.startLine = some t) (hcolumn : Short t.column) {first : Nat}
    (hfirst : s.startLine = first) {m : Match} {url line column : Text}
    (hparts : HasParts m url s.file.toText (Text.ofNat first) line column)
    (hline : line.length < Text.maxDigits) (hlength : column.length < Text.maxDigits)
    (offset : Offset) (current : Option Path) :
    r.unmark offset current m = .ok (url ++ s.file.toText ++
      ':' :: Text.ofInt (Text.valueOfDigits line + s.startLine) ++
      ':' :: Text.ofInt (Text.valueOfDigits column + t.column - 1)) := by
  obtain ⟨hshort, -⟩ := h.short
  have hfound := List.find?_some ht
  rw [Bool.and_eq_true, beq_iff_eq, beq_iff_eq] at hfound
  have hread : readNumber (Text.ofNat first) = .ok first := by
    have hlength : (Text.ofNat first).length < Text.maxDigits := by
      rwa [hfirst, Short, Int.natAbs_natCast] at hshort
    rw [readNumber_of_length hlength, Text.valueOfDigits_ofNat]
  have hplace : r.placeOf m offset current =
      .ok (Text.valueOfDigits line + s.startLine, Text.valueOfDigits column + t.column - 1) := by
    rw [hfirst] at ht hfound
    simp only [Resolver.placeOf, hparts.file, hparts.line, hparts.column, hparts.start,
      readNumber_of_length hline, readNumber_of_length hlength, hread, h.absolute_file r, bind, Except.bind, ht,
      hfound.2, hfirst]
    rfl
  obtain ⟨hone, htwo, hthree, hfour⟩ := hparts.between
  simp only [Resolver.unmark, hplace, bind, Except.bind, hparts.url, hone, htwo, hthree, hfour,
    writeNumber_add (short_valueOfDigits hline) hshort (k := Text.valueOfDigits line + s.startLine) (by omega),
    writeNumber_add (short_valueOfDigits hlength) hcolumn (k := Text.valueOfDigits column + t.column - 1)
      (by omega)]
  simp [pure, Except.pure]

end Sample.Stored

/-! ## The resolver of stored samples -/

namespace Resolver

/-- **A resolver that knows the samples written to a directory**, each in a file of its own; samples of one
document that begin in the same line begin in the same column. -/
structure Extracted (r : Resolver) (directory : Absolute) : Prop where
  holding : Path.Holding directory
  sampleDir : r.sampleDir = some (.ofAbsolute directory)
  nodup : (r.samples.map (·.path)).Nodup
  stored : ∀ s ∈ r.samples, s.Stored directory
  column_eq : ∀ s ∈ r.samples, ∀ t ∈ r.samples, s.file = t.file → s.startLine = t.startLine →
    s.column = t.column

namespace Extracted

variable {r : Resolver} {directory : Absolute} {s : Sample}

theorem sampleRoot?_eq (h : r.Extracted directory) : r.sampleRoot? = some (Path.inside directory) := by
  rw [sampleRoot?, h.sampleDir]
  rfl

theorem sampleAt?_place (h : r.Extracted directory) (hs : s ∈ r.samples) :
    r.sampleAt? s.place = some s :=
  (h.stored s hs).sampleAt?_place h.holding.ne_nil h.holding.spellable hs h.nodup

/-- Samples with one file are one sample. -/
theorem sample_eq_of_place (h : r.Extracted directory) {t : Sample} (hs : s ∈ r.samples)
    (ht : t ∈ r.samples) (heq : t.place = s.place) : t = s :=
  Option.some.inj ((h.sampleAt?_place ht).symm.trans (heq ▸ h.sampleAt?_place hs))

theorem isInSampleDir_place (h : r.Extracted directory) (hs : s ∈ r.samples) :
    r.isInSampleDir s.place = true :=
  (h.stored s hs).isInSampleDir_place h.holding.ne_nil h.sampleDir

/-- No sample is known for a path whose name is none of a sample file. -/
theorem sampleAt?_eq_none (h : r.Extracted directory) {name : Text} (hslash : '/' ∉ name)
    (hname : ¬ IsSampleName name) : r.sampleAt? (Path.inside directory ++ name) = none := by
  refine List.find?_eq_none.2 fun s hs heq => hname ?_
  obtain ⟨other, hother, hpath, _⟩ := (h.stored s hs).exists_name h.holding.ne_nil
  rw [hpath, beq_iff_eq, Option.some_inj] at heq
  rw [Path.name_eq h.holding.spellable hslash heq.symm]
  exact hother

theorem absolute_file (h : r.Extracted directory) (hs : s ∈ r.samples) : r.absolute s.file.toText = .ok s.file :=
  (h.stored s hs).absolute_file r

theorem sampleFrom?_file (h : r.Extracted directory) (hs : s ∈ r.samples) :
    ∃ t, r.sampleFrom? s.file s.startLine = some t ∧ t.startLine = s.startLine ∧ t.column = s.column := by
  obtain ⟨t, ht, hfind, hfile, hline⟩ := r.exists_sampleFrom? hs
  exact ⟨t, hfind, hline, h.column_eq t ht s hs hfile hline⟩

/-- **A reference to a sample is brought back to its place** in the document. -/
theorem unmark_of_hasParts (h : r.Extracted directory) (hs : s ∈ r.samples) {first : Nat}
    (hfirst : s.startLine = first) {m : Match} {url line column : Text}
    (hparts : HasParts m url s.file.toText (Text.ofNat first) line column)
    (hline : line.length < Text.maxDigits) (hcolumn : column.length < Text.maxDigits)
    (offset : Offset) (current : Option Path) :
    r.unmark offset current m = .ok (url ++ s.file.toText ++
      ':' :: Text.ofInt (Text.valueOfDigits line + s.startLine) ++
      ':' :: Text.ofInt (Text.valueOfDigits column + s.column - 1)) := by
  obtain ⟨t, ht, -, htcolumn⟩ := h.sampleFrom?_file hs
  have hshort : Short t.column := htcolumn ▸ (h.stored s hs).short.2
  rw [← htcolumn]
  exact (h.stored s hs).unmark_of_found ht hshort hfirst hparts hline hcolumn offset current

end Extracted

end Resolver

end Fenceline
