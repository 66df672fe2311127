import Fenceline.Proofs.Location.Citation
import Fenceline.Proofs.Location.Placed
import Fenceline.Proofs.Location.Requested

/-!
# Documents with blanks in their paths

A reference in a message is read from where a path says that it begins, and without blanks. So a reference to a
document with a blank in its path is not read from the beginning of the path, but from the longest end of the path that
says where it begins, if there is one (`rootedEnd?`). What such an end leads to is a document of its own.

**The law** (`resolve_spaced`): what a place in a sample of such a document becomes. It becomes the place in the
document that the report is brought back to just if the path has such an end and the end leads to the same numbers.

**What does not hold** (`resolve_misplaced`): that it always becomes this place. The end of the path is that of another
document, for which no sample is known, so the indent of the sample does not count.
-/

namespace Fenceline

open Pattern

namespace Reference

variable {t u v w rest : Text} {b : Option Char} {m : Match}

/-- **The longest end of a text that says where it begins**, as a path without blanks and dollar signs does. -/
def rootedEnd? : Text → Option Text
  | [] => none
  | x :: t => if Rooted (x :: t) then some (x :: t) else rootedEnd? t

theorem rootedEnd?_spec (h : rootedEnd? t = some v) : v <:+ t ∧ Rooted v := by
  induction t with
  | nil => cases h
  | cons x t ih =>
    rw [rootedEnd?] at h
    split at h
    · obtain rfl := Option.some.inj h
      exact ⟨List.suffix_refl _, ‹_›⟩
    · obtain ⟨hvt, hv⟩ := ih h
      exact ⟨hvt.trans (List.suffix_cons x t), hv⟩

theorem Rooted.ne_nil (h : Rooted v) : v ≠ [] := by
  rintro rfl
  rcases h.head? with hhead | hhead <;> cases hhead

/-- It is the longest one. -/
theorem exists_rootedEnd? (hu : Rooted u) (h : u <:+ t) : ∃ v, rootedEnd? t = some v ∧ u <:+ v := by
  induction t with
  | nil => exact absurd (List.suffix_nil.1 h) hu.ne_nil
  | cons x t ih =>
    rw [rootedEnd?]
    split
    · exact ⟨_, rfl, h⟩
    · rename_i hnot
      rcases List.suffix_cons_iff.1 h with rfl | h
      · exact absurd hu hnot
      · exact ih h

/-- Whatever is read as a reference has its path in front of the first dollar sign. -/
theorem exists_rooted_of_matchAt (h : embedded.matchAt b (w ++ '$' :: rest) = some m) (hw : '$' ∉ w) :
    ∃ scheme file, (scheme = [] ∨ scheme = FileUrl.scheme) ∧ Rooted file ∧ w = scheme ++ file := by
  obtain ⟨c, hcites⟩ := exists_citation h
  refine ⟨c.scheme, c.file, c.scheme_eq, c.rooted, ?_⟩
  have htext := text_append_rest h
  rw [hcites.text] at htext
  have hcut : (c.scheme ++ c.file) ++ '$' :: (c.first ++ '-' :: (c.last ++ c.ending) ++ c.behind c.line c.column ++
      m.rest) = w ++ '$' :: rest := by
    rw [← htext]
    simp [Citation.text, Citation.mark]
  refine (Text.eq_of_append_cons ?_ hw hcut).1.symm
  rw [List.mem_append, not_or]
  exact c.dollar_not_mem

/-- **A path in which a blank stands**, as a message may spell it: no two slashes stand together in it. -/
structure Broken (t : Text) : Prop where
  blank : ∃ x ∈ t, Text.isBlank x = true
  slashes : ¬ ['/', '/'] <:+: t
  noDollar : '$' ∉ t

theorem Broken.not_rooted (h : Broken t) (u : Text) : ¬ Rooted (u ++ t) := by
  intro hrooted
  obtain ⟨x, hx, hblank⟩ := h.blank
  have hnot := (hrooted.plain x (List.mem_append_right u hx)).1
  rw [notBlank, hblank] at hnot
  cases hnot

/-- Where a part of a URL's scheme ends that a path may stand behind. -/
theorem scheme_eq_append (h : FileUrl.scheme = u ++ w) (hw : ∀ x ∈ w.head?, x = '/' ∨ x = '.') :
    u.getLast? = some '/' ∨ w = ['/', '/'] := by
  have hall : ∀ k < 8, (FileUrl.scheme.drop k).head?.all (fun x => x = '/' ∨ x = '.') = true →
      (FileUrl.scheme.take k).getLast? = some '/' ∨ FileUrl.scheme.drop k = ['/', '/'] := by
    decide
  have hshort : u.length < 8 := by
    have hlength : 7 = (u ++ w).length := congrArg List.length h
    rw [List.length_append] at hlength
    omega
  have hboth := hall u.length hshort
  rw [h, List.take_left, List.drop_left] at hboth
  exact hboth ((Option.all_eq_true ..).2 fun x hx => decide_eq_true (hw x hx))

/-- What would be read in front of the longest end that says where it begins is a URL's scheme, of which a part stands in
the end. -/
theorem Broken.exists_scheme (h : Broken t) {scheme front z : Text} (ht : t = front ++ v)
    (hscheme : scheme = [] ∨ scheme = FileUrl.scheme)
    (hlongest : ∀ u, Rooted u → u <:+ t → u <:+ v) (hv : v = [] ∨ Rooted v)
    (hz : z ≠ []) (hsuffix : z <:+ scheme ++ front) (hm : embedded.matchAt b (z ++ (v ++ '$' :: rest)) = some m) :
    ∃ w file, v = w ++ file ∧ Rooted v ∧ FileUrl.scheme = z ++ w := by
  have hin : z ++ v <:+ scheme ++ t := by
    obtain ⟨y, hy⟩ := hsuffix
    exact ⟨y, by rw [ht, ← List.append_assoc, hy, List.append_assoc]⟩
  have hdollar : '$' ∉ z ++ v := fun hmem => by
    rcases List.mem_append.1 (hin.subset hmem) with hmem | hmem
    · rcases hscheme with rfl | rfl
      · exact absurd hmem List.not_mem_nil
      · exact absurd hmem (by decide)
    · exact h.noDollar hmem
  rw [← List.append_assoc] at hm
  obtain ⟨scheme', file, hscheme', hfile, heq⟩ := exists_rooted_of_matchAt hm hdollar
  -- the path that would be read is an end of the longest one
  have hend : file <:+ v := by
    have hfileIn : file <:+ scheme ++ t := (heq ▸ List.suffix_append scheme' file).trans hin
    rcases Text.suffix_append_cases hfileIn with hfileIn | ⟨y, -, -, rfl⟩
    · exact hlongest file hfile hfileIn
    · exact absurd hfile (h.not_rooted y)
  obtain ⟨w, rfl⟩ := hend
  have hrooted : Rooted (w ++ file) := hv.resolve_left (List.append_ne_nil_of_right_ne_nil w hfile.ne_nil)
  rw [← List.append_assoc, List.append_cancel_right_eq] at heq
  refine ⟨w, file, rfl, hrooted, ?_⟩
  rw [heq]
  exact (hscheme'.resolve_left fun hnil => hz (List.append_eq_nil_iff.1 (heq.trans hnil)).1).symm

/-- **No reference begins in front of the longest end** that says where it begins. -/
theorem Broken.matchAt_eq_none (h : Broken t) {scheme front z : Text} (ht : t = front ++ v)
    (hscheme : scheme = [] ∨ scheme = FileUrl.scheme)
    (hlongest : ∀ u, Rooted u → u <:+ t → u <:+ v) (hv : v = [] ∨ Rooted v)
    (hz : z ≠ []) (hsuffix : z <:+ scheme ++ front) (rest : Text) (b : Option Char) :
    embedded.matchAt b (z ++ (v ++ '$' :: rest)) = none := by
  refine Option.eq_none_iff_forall_ne_some.2 fun m hm => ?_
  obtain ⟨w, file, rfl, hrooted, hurl⟩ := h.exists_scheme ht hscheme hlongest hv hz hsuffix hm
  have hhead : ∀ x ∈ w.head?, x = '/' ∨ x = '.' := by
    intro x hx
    cases w with
    | nil => cases hx
    | cons y w =>
      obtain rfl := Option.some.inj hx
      exact hrooted.head?.imp Option.some.inj Option.some.inj
  rcases scheme_eq_append hurl hhead with hlast | rfl
  · -- a slash in front of the longest end would belong to it
    have hfront : front ≠ [] := by
      rintro rfl
      exact h.not_rooted [] (ht ▸ hrooted)
    obtain ⟨front, x, rfl⟩ := (List.eq_nil_or_concat' front).resolve_left hfront
    obtain rfl : x = '/' := by
      obtain ⟨y, hy⟩ := hsuffix
      have hsame := congrArg List.getLast? hy
      rw [List.getLast?_append, ← List.append_assoc, List.getLast?_concat, hlast, Option.some_or] at hsame
      exact (Option.some.inj hsame).symm
    have hlonger := hlongest ('/' :: (w ++ file)) (rooted_slash hrooted.plain) ⟨front, by rw [ht]; simp⟩
    have hlength := hlonger.length_le
    rw [List.length_cons] at hlength
    omega
  · exact h.slashes ⟨front, file, by rw [ht, List.append_assoc]⟩

/-- **A reference to such a path stays**, if no end of the path says where it begins. -/
theorem Broken.substituteM_none (h : Broken t) {scheme : Text} (hscheme : scheme = [] ∨ scheme = FileUrl.scheme)
    (hnone : rootedEnd? t = none) (hrest : '$' ∉ rest) {put : Match → Except Failure Text} :
    embedded.substituteM put (scheme ++ (t ++ '$' :: rest)) = .ok (scheme ++ (t ++ '$' :: rest)) := by
  have hlongest : ∀ u, Rooted u → u <:+ t → u <:+ [] := by
    intro u hu hut
    obtain ⟨v, hv, -⟩ := exists_rootedEnd? hu hut
    rw [hnone] at hv
    cases hv
  have hafter : embedded.Turns put ('$' :: rest ++ []) ('$' :: rest ++ []) := by
    refine Turns.through (fun v hv hvr b m hm => ?_) Turns.nil
    rcases List.suffix_cons_iff.1 hvr with rfl | hvr
    · rw [List.append_nil] at hm
      obtain ⟨_, file, -, hfile, heq⟩ := exists_rooted_of_matchAt (w := []) hm List.not_mem_nil
      exact absurd (List.append_eq_nil_iff.1 heq.symm).2 hfile.ne_nil
    · rw [Mention.matchAt_embedded_of_last (fun hmem => hrest (hvr.subset hmem)) b] at hm
      cases hm
  have hturns : embedded.Turns put ((scheme ++ t) ++ '$' :: rest) ((scheme ++ t) ++ '$' :: rest) := by
    rw [List.append_nil] at hafter
    refine Turns.through (fun z hz hzt b m hm => ?_) hafter
    have hmiss := h.matchAt_eq_none (List.append_nil t).symm hscheme hlongest (.inl rfl) hz hzt rest b
    rw [List.nil_append, hm] at hmiss
    cases hmiss
  rw [← List.append_assoc]
  exact substituteM_of_turns hturns

/-- **A reference to such a path is read from the longest end** that says where it begins. -/
theorem Broken.substituteM_some (h : Broken t) {scheme first last line column : Text}
    (hscheme : scheme = [] ∨ scheme = FileUrl.scheme) (hsome : rootedEnd? t = some v) (hfirst : Digits first)
    (hlast : Digits last) (hline : Digits line) (hcolumn : Digits column) {put : Match → Except Failure Text} :
    ∃ front m, t = front ++ v ∧ HasParts m [] v first line column ∧
      embedded.substituteM put (scheme ++ (t ++ '$' :: (first ++ '-' :: (last ++ ':' :: (line ++ ':' :: column))))) =
        (put m).map ((scheme ++ front) ++ ·) := by
  obtain ⟨⟨front, rfl⟩, hv⟩ := rootedEnd?_spec hsome
  have hlongest : ∀ u, Rooted u → u <:+ front ++ v → u <:+ v := by
    intro u hu hut
    obtain ⟨v', hv', huv⟩ := exists_rootedEnd? hu hut
    rw [hsome] at hv'
    rwa [Option.some.inj hv']
  have hend : NoDigit [] := by simp [NoDigit]
  obtain ⟨m, hm, hrest, hparts⟩ := matchAt_embedded (.inl rfl) hv hfirst hlast .nothing hline hcolumn hend
    (behind none (scheme ++ front))
  simp only [List.nil_append, List.append_nil] at hm
  refine ⟨front, m, rfl, hparts, ?_⟩
  rw [List.append_assoc, ← List.append_assoc]
  exact substituteM_append (List.append_ne_nil_of_left_ne_nil hv.ne_nil _) (fun z hz hzf b =>
    h.matchAt_eq_none rfl hscheme hlongest (.inr hv) hz hzf _ b) hm hrest

end Reference

/-- **A sample of a document with a blank in its path**, as extraction writes it to a file of a directory. -/
structure Sample.Spaced (directory : Absolute) (s : Sample) : Prop where
  document : ∃ names, s.file = .ofAbsolute names ∧ Path.Spellable names
  blank : ∃ x ∈ s.file.toText, Text.isBlank x = true
  noDollar : '$' ∉ s.file.toText
  stored : ∃ name, IsSampleName name ∧ s.path = some (.ofAbsolute (directory ++ [name]))
  lines : 0 ≤ s.startLine ∧ 0 ≤ s.lineCount
  short : Reference.Short s.startLine ∧ Reference.Short s.column

theorem Sample.Spaced.broken {directory : Absolute} {s : Sample} (h : s.Spaced directory) :
    Reference.Broken s.file.toText := by
  obtain ⟨names, hfile, hnames⟩ := h.document
  exact ⟨h.blank, hfile ▸ Path.not_infix_toText hnames, h.noDollar⟩

theorem Sample.Spaced.exists_lines {directory : Absolute} {s : Sample} (h : s.Spaced directory) :
    ∃ first last : Nat, s.startLine = first ∧ s.endLine = last := by
  obtain ⟨hstart, hcount⟩ := h.lines
  refine ⟨s.startLine.toNat, s.endLine.toNat, by omega, ?_⟩
  rw [Sample.endLine]
  omega

namespace Resolver

open Reference

variable {r : Resolver} {directory : Absolute} {m : Mention} {offset : Offset} {t v : Text}

/-- **The line and the column that a place in a sample leads to**, if it is read from an end of the document's path. -/
def cited (r : Resolver) (offset : Offset) (m : Mention) (path : Text) : Int × Int :=
  let line : Int := Text.valueOfDigits m.line
  let column : Int := Text.valueOfDigits m.column
  match r.sampleFrom? (.ofAbsolute (r.place path)) m.sample.startLine with
  | some s => (line + s.startLine, column + s.column - 1)
  | none =>
    let width := if r.place path = r.place m.sample.file.toText then commentWidth path else 0
    (line + m.sample.startLine + offset.line, column + offset.embeddedColumn + width)

/-- **What a place in a sample becomes** in the message of a report on the sample. -/
def readAs (r : Resolver) (offset : Offset) (m : Mention) : Text :=
  match rootedEnd? m.sample.file.toText with
  | none => m.named Sample.reference
  | some path => m.scheme ++ m.sample.file.toText ++ ':' :: Text.ofInt (r.cited offset m path).1 ++
      ':' :: Text.ofInt (r.cited offset m path).2

theorem eq_valueOfDigits {n : Nat} (h : readNumber t = .ok n) : n = Text.valueOfDigits t := by
  unfold readNumber at h
  split at h
  · exact (Except.ok.inj h).symm
  · cases h

theorem eq_of_absolute {p : Path} (h : r.absolute t = .ok p) : p = .ofAbsolute (r.place t) :=
  Except.ok.inj (h.symm.trans (absolute_eq (succeeds_absolute_iff.1 ⟨p, h⟩)))

/-- A match with the parts of a place leads where the place does. -/
theorem eq_cited {first : Nat} (hfirst : m.sample.startLine = first) {url : Text} {found : Match}
    (hparts : HasParts found url v (Text.ofNat first) m.line m.column) {numbers : Int × Int}
    (h : r.placeOf found offset (some (.ofAbsolute (r.place m.sample.file.toText))) = .ok numbers) :
    numbers = r.cited offset m v := by
  unfold placeOf at h
  rw [hparts.file, hparts.line, hparts.column, hparts.start] at h
  obtain ⟨line, hline, h⟩ := bind_eq_ok.1 h
  obtain ⟨column, hcolumn, h⟩ := bind_eq_ok.1 h
  obtain ⟨start, hstart, h⟩ := bind_eq_ok.1 h
  obtain ⟨document, hdocument, h⟩ := bind_eq_ok.1 h
  obtain rfl := eq_valueOfDigits hline
  obtain rfl := eq_valueOfDigits hcolumn
  obtain rfl := eq_of_absolute hdocument
  have hsame : (start : Int) = m.sample.startLine := by
    rw [eq_valueOfDigits hstart, Text.valueOfDigits_ofNat, hfirst]
  dsimp only at h
  rw [hsame] at h
  rw [cited]
  cases hfind : r.sampleFrom? (.ofAbsolute (r.place v)) m.sample.startLine with
  | some s =>
    rw [hfind] at h
    exact (Except.ok.inj h).symm
  | none =>
    rw [hfind] at h
    refine (Except.ok.inj h).symm.trans ?_
    simp only [Option.some_inj, Path.ofAbsolute, Path.mk.injEq, true_and]

/-- What is put for such a match. -/
theorem eq_of_unmark {first : Nat} (hfirst : m.sample.startLine = first) {found : Match}
    (hparts : HasParts found [] v (Text.ofNat first) m.line m.column)
    (h : r.unmark offset (some (.ofAbsolute (r.place m.sample.file.toText))) found = .ok t) :
    t = v ++ ':' :: Text.ofInt (r.cited offset m v).1 ++ ':' :: Text.ofInt (r.cited offset m v).2 := by
  obtain ⟨numbers, hnumbers, h⟩ := bind_eq_ok.1 h
  obtain ⟨line, hline, h⟩ := bind_eq_ok.1 h
  obtain ⟨column, hcolumn, h⟩ := bind_eq_ok.1 h
  obtain ⟨h1, h2, h3, h4⟩ := hparts.between
  rw [← Except.ok.inj h, hparts.url, h1, h2, h3, h4, eq_ofInt_of_writeNumber hline, eq_ofInt_of_writeNumber hcolumn,
    eq_cited hfirst hparts hnumbers]
  simp

/-- In the place that a report is on, the file becomes a reference in one place only. -/
theorem replaceAll_named (hne : directory ≠ []) (hholding : Path.Holding directory)
    (hspaced : m.sample.Spaced directory) (hnumbered : m.Numbered) :
    (m.named Sample.place).replaceAll m.sample.place m.sample.reference = m.named Sample.reference := by
  obtain ⟨name, -, hpath⟩ := hspaced.stored
  obtain ⟨c, w, -, hinside⟩ := hholding.inside_eq
  have hplace : m.sample.place = '/' :: (c :: w ++ name) := by
    rw [Sample.place_eq hne hpath, hinside]
    rfl
  have hscheme : Text.Misses m.sample.place m.scheme (m.sample.place ++ m.numbers) := by
    have hmiss := (Mention.misses_scheme hholding m (c :: w ++ name ++ m.numbers)).append_right name
    rw [hplace]
    rwa [hinside] at hmiss
  have hnumbers : Text.Misses m.sample.place m.numbers [] := by
    rw [hplace]
    exact Text.misses_of_not_mem (Mention.numbers_not_mem hnumbered (by decide) (by decide)) _ _
  have hplaceNe : m.sample.place ≠ [] := by
    rw [hplace]
    exact List.cons_ne_nil _ _
  rw [Mention.named, List.append_assoc, Text.replaceAll_append_of_misses hscheme, Text.replaceAll_append hplaceNe,
    Text.replaceAll_of_misses hnumbers, Mention.named, List.append_assoc]

/-- **The place that a report is on becomes a place in the document**, as its path is read. -/
theorem eq_readAs_of_lineOf (h : r.Knows directory) (hholding : Path.Holding directory)
    (hspaced : m.sample.Spaced directory) (hnumbered : m.Numbered)
    (ht : r.lineOf m.sample offset (m.named Sample.place) = .ok t) : t = r.readAs offset m := by
  have hbroken := hspaced.broken
  obtain ⟨first, last, hfirst, hlast⟩ := hspaced.exists_lines
  let rest := Text.ofNat first ++ '-' :: (Text.ofNat last ++ m.numbers)
  have htext : m.named Sample.reference = m.scheme ++ (m.sample.file.toText ++ '$' :: rest) := by
    rw [Mention.named, Sample.reference, Sample.mark, hfirst, hlast]
    simp [rest, Text.ofInt]
  have hrest : '$' ∉ rest ∧ '.' ∉ rest := by
    have hdollar : '$' ∉ m.numbers := Mention.numbers_not_mem hnumbered (by decide) (by decide)
    have hdot : '.' ∉ m.numbers := Mention.numbers_not_mem hnumbered (by decide) (by decide)
    simp [rest, Text.not_mem_ofNat, hdollar, hdot]
  have hnamed : r.nameSamples (m.named Sample.reference) = m.named Sample.reference := by
    refine h.nameSamples_of_undotted ?_
    rw [htext, undotted_append (Mention.scheme_not_mem_dollar m), undotted_append hspaced.noDollar,
      undotted_cons_dollar]
    exact ⟨fun hdot => hrest.2 ((List.takeWhile_prefix _).subset hdot), undotted_of_not_mem hrest.1⟩
  rw [lineOf, replaceAll_named h.ne_nil hholding hspaced hnumbered] at ht
  obtain ⟨current, hcurrent, ht⟩ := bind_eq_ok.1 ht
  obtain ⟨document, hdocument, hcurrent⟩ := bind_eq_ok.1 hcurrent
  obtain rfl := eq_of_absolute hdocument
  obtain rfl := Except.ok.inj hcurrent
  rw [hnamed, htext] at ht
  rw [readAs]
  cases hend : rootedEnd? m.sample.file.toText with
  | none =>
    rw [hbroken.substituteM_none m.scheme_eq hend hrest.1] at ht
    exact (Except.ok.inj ht).symm.trans htext.symm
  | some v =>
    have hnumbers : rest = Text.ofNat first ++ '-' :: (Text.ofNat last ++ ':' :: (m.line ++ ':' :: m.column)) := by
      simp [rest, Mention.numbers]
    obtain ⟨front, found, hfront, hparts, hput⟩ := hbroken.substituteM_some m.scheme_eq hend (digits_ofNat first)
      (digits_ofNat last) hnumbered.line hnumbered.column
    rw [hnumbers, hput] at ht
    obtain ⟨u, hu, rfl⟩ := map_eq_ok.1 ht
    obtain rfl := eq_of_unmark hfirst hparts hu
    simp [hfront]

/-- **When a place in a sample becomes the place in the document** that the report is brought back to. -/
theorem readAs_eq_inDocument_iff (hdollar : '$' ∉ m.sample.file.toText) : r.readAs offset m = m.inDocument ↔
    ∃ path, rootedEnd? m.sample.file.toText = some path ∧ r.cited offset m path =
      (Text.valueOfDigits m.line + m.sample.startLine, Text.valueOfDigits m.column + m.sample.column - 1) := by
  have hint : ∀ n, '$' ∉ Text.ofInt n ∧ ':' ∉ Text.ofInt n := fun n =>
    ⟨Text.not_mem_ofInt (by decide) (by decide), Text.not_mem_ofInt (by decide) (by decide)⟩
  rw [readAs]
  cases rootedEnd? m.sample.file.toText with
  | none =>
    refine iff_of_false (fun hsame => ?_) (by simp)
    have hmem : '$' ∈ m.named Sample.reference := by simp [Mention.named, Sample.reference, Sample.mark]
    dsimp only at hsame
    rw [hsame, Mention.inDocument] at hmem
    simp [Mention.scheme_not_mem_dollar, hdollar, hint] at hmem
  | some path =>
    simp only [Option.some_inj, exists_eq_left']
    constructor
    · intro hsame
      rw [Mention.inDocument, List.append_assoc, List.append_assoc _ (_ :: _), List.append_cancel_left_eq] at hsame
      obtain ⟨hline, hcolumn⟩ := Text.eq_of_append_cons (hint _).2 (hint _).2 (List.cons.inj hsame).2
      exact Prod.ext (Text.ofInt_inj hline) (Text.ofInt_inj hcolumn)
    · intro hsame
      rw [hsame, Mention.inDocument]

section

variable (h : r.Knows directory) (hspaced : m.sample.Spaced directory)
include h hspaced

/-- What stands on both sides of a blank is brought back by itself, if the directory is spelled without it. -/
theorem lineOf_append_cons_of_spaced {x : Char} (hx : Text.isBlank x = true) (hroot : x ∉ Path.inside directory)
    (t u : Text) : r.lineOf m.sample offset (t ++ x :: u) = do
      let t' ← r.lineOf m.sample offset t
      let u' ← r.lineOf m.sample offset u
      return t' ++ x :: u' := by
  obtain ⟨name, hname, hpath⟩ := hspaced.stored
  have hplace := Sample.place_eq h.ne_nil hpath
  refine lineOf_append_cons hx (fun root hr => ?_) ?_ ?_ _ _ _
  · rw [h.sampleRoot?_eq] at hr
    rwa [← Option.some.inj hr]
  · rw [hplace]
    exact Path.inside_append_ne_nil directory name
  · rw [hplace, List.mem_append, not_or]
    refine ⟨hroot, fun hmem => ?_⟩
    have hall := hname.all x hmem
    rw [inSampleName, hx] at hall
    cases hall

/-- **A message becomes what its parts become**: what stands in front of the place, the place, and the lines behind. -/
theorem eq_of_lineOf (hholding : Path.Holding directory) (hnumbered : m.Numbered)
    (hafter : m.after = [] ∨ ∃ rest, m.after = '\n' :: rest) {x : Char} (hx : Text.isBlank x = true)
    (hplain : x ∉ Path.inside directory ∧ '\n' ∉ Path.inside directory) {before : Text}
    (ht : r.lineOf m.sample offset (before ++ x :: (m.named Sample.place ++ m.after)) = .ok t) :
    ∃ before' after', r.lineOf m.sample offset before = .ok before' ∧ r.lineOf m.sample offset m.after = .ok after' ∧
      t = before' ++ x :: (r.readAs offset m ++ after') := by
  rw [lineOf_append_cons_of_spaced h hspaced hx hplain.1] at ht
  obtain ⟨before', hbefore, ht⟩ := bind_eq_ok.1 ht
  obtain ⟨behind', hbehind, ht⟩ := bind_eq_ok.1 ht
  obtain ⟨current, hcurrent, -⟩ := bind_eq_ok.1 hbehind
  have hnothing : r.lineOf m.sample offset [] = .ok [] := by
    rw [lineOf, Text.replaceAll]
    exact h.resolveMessage_of_not_mem List.not_mem_nil hcurrent
  refine ⟨before', ?_⟩
  rw [← Except.ok.inj ht]
  rcases hafter with hnil | ⟨rest, hnewline⟩
  · rw [hnil, List.append_nil] at hbehind
    obtain rfl := eq_readAs_of_lineOf h hholding hspaced hnumbered hbehind
    exact ⟨[], hbefore, hnil ▸ hnothing, by rw [List.append_nil]⟩
  · rw [hnewline, lineOf_append_cons_of_spaced h hspaced (by decide) hplain.2] at hbehind
    obtain ⟨placed, hplaced, hbehind⟩ := bind_eq_ok.1 hbehind
    obtain ⟨rest', hrest, hbehind⟩ := bind_eq_ok.1 hbehind
    obtain rfl := eq_readAs_of_lineOf h hholding hspaced hnumbered hplaced
    refine ⟨'\n' :: rest', hbefore, ?_, by rw [← Except.ok.inj hbehind]⟩
    have hlines : r.lineOf m.sample offset ([] ++ '\n' :: rest) = _ :=
      lineOf_append_cons_of_spaced h hspaced (by decide) hplain.2 [] rest
    rw [hnothing, hrest] at hlines
    rwa [hnewline]

end

/-- **What becomes of a report on a sample of a document with a blank in its path.** Its line and its column are those
of the document; and a place in the sample that ends a line of its message, behind a blank, is put as the document's
path is read. It is put as the place that the report is brought back to just if the path has an end that says where it
begins and this end leads to the same numbers. -/
theorem resolve_spaced (h : r.Knows directory) (hholding : Path.Holding directory) (hm : m.sample ∈ r.samples)
    (hspaced : m.sample.Spaced directory) (hnumbered : m.Numbered)
    (hafter : m.after = [] ∨ ∃ rest, m.after = '\n' :: rest) {x : Char} (hx : Text.isBlank x = true)
    (hplain : x ∉ Path.inside directory ∧ '\n' ∉ Path.inside directory) {d e : Draft} {before value : Text}
    (hsaid : d.message = .ok (before ++ x :: (m.named Sample.place ++ m.after)))
    (hfile : d.get? "file" = some value) (hvalue : FileUrl.path value = .ok m.sample.place)
    (hline : d.get? "line" = some m.line) (hcolumn : d.get? "column" = some m.column) (he : r.resolve d = .ok e) :
    let line : Int := Text.valueOfDigits m.line + m.sample.startLine
    let column : Int := Text.valueOfDigits m.column + m.sample.column - 1
    e.get? "line" = some (Text.ofInt line) ∧ e.get? "column" = some (Text.ofInt column) ∧
      ∃ kind before' after', d.kind = .ok kind ∧ r.lineOf m.sample (r.offset kind) before = .ok before' ∧
        r.lineOf m.sample (r.offset kind) m.after = .ok after' ∧
        e.message = .ok (before' ++ x :: (r.readAs (r.offset kind) m ++ after')) ∧
        (r.readAs (r.offset kind) m = m.inDocument ↔ ∃ path, rootedEnd? m.sample.file.toText = some path ∧
          r.cited (r.offset kind) m path = (line, column)) := by
  intro line column
  obtain ⟨name, hname, hpath⟩ := hspaced.stored
  obtain ⟨kind, hkind, -⟩ := bind_eq_ok.1 he
  have hinside : r.isInSampleDir m.sample.place = true := by
    rw [Sample.place_eq h.ne_nil hpath, ← Path.toText_inside h.ne_nil]
    exact isInSampleDir_toText h.ne_nil h.sampleDir name
  have hsample := sampleAt?_of_name h.ne_nil h.spellable hname hpath hm h.nodup
  have hinteger : ∀ {key : String} {t : Text}, d.get? key = some t → Digits t → t.length < Text.maxDigits →
      integer? d key = some (Text.valueOfDigits t : Int) := fun hget hdigits hshort => by
    rw [integer?, hget, Option.bind_some,
      Text.readInt?_valueOfDigits hdigits.ne_nil hdigits.isDecimal (Nat.le_of_lt hshort)]
  obtain ⟨hstart, hwidth⟩ := hspaced.short
  have hfirst := writeNumber_add (short_valueOfDigits hnumbered.short.1) hstart (k := line) (by omega)
  have hsecond := writeNumber_add (short_valueOfDigits hnumbered.short.2) hwidth (k := column) (by omega)
  have hl := hinteger hline hnumbered.line hnumbered.short.1
  have hc := hinteger hcolumn hnumbered.column hnumbered.short.2
  obtain ⟨hfields, -⟩ := resolve_sample hkind hsaid hfile hvalue hinside hsample hl hc hfirst hsecond
  obtain ⟨hgotLine, hgotColumn⟩ := hfields e he
  have hresolve := resolve_eq_bind hkind hsaid hfile hvalue hinside hsample hl hc hfirst hsecond
  dsimp only at hresolve
  rw [hresolve, unmarked_of_not_mem hspaced.noDollar] at he
  obtain ⟨text, htext, he⟩ := bind_eq_ok.1 he
  obtain ⟨shown, -, he⟩ := bind_eq_ok.1 he
  obtain ⟨before', after', hbefore, hrest, rfl⟩ := eq_of_lineOf h hspaced hholding hnumbered hafter hx hplain htext
  refine ⟨hgotLine, hgotColumn, kind, before', after', hkind, hbefore, hrest, ?_,
    readAs_eq_inDocument_iff hspaced.noDollar⟩
  rw [← Except.ok.inj he]
  refine Draft.message_of_get? ?_
  rw [Keyed.get?_set_of_ne _ _ (by decide), Keyed.get?_set_self]

/-- A sample in a comment whose document's path has an end that leads to a sample of another document, in the same line
and column; the message names it by a URL. -/
theorem resolve_spaced_beside :
    let directory : Absolute := ["t".toList]
    let s : Sample := ⟨.ofAbsolute ["my docs".toList, "a.ts".toList], 1, 2, 4, " * ".toList, some "ts".toList,
      "x\ny\n".toList, some (.ofAbsolute ["t".toList, "x$1-4.ts".toList])⟩
    let u : Sample := ⟨.ofAbsolute ["a.ts".toList], 1, 1, 4, " * ".toList, some "ts".toList, "x\n".toList,
      some (.ofAbsolute ["t".toList, "y$1-3.ts".toList])⟩
    let r : Resolver :=
      { cwd := .ofAbsolute ["w".toList], samples := [s, u], sampleDir := some (.ofAbsolute directory) }
    let m : Mention := ⟨true, s, ['2'], ['3'], "\nin /w".toList⟩
    let d : Draft := [("kind", "check".toList), ("message", "bad\n  at file:///t/x$1-4.ts:2:3\nin /w".toList),
      ("file", "/t/x$1-4.ts".toList), ("line", ['2']), ("column", ['3'])]
    r.Knows directory ∧ Path.Holding directory ∧ s.Spaced directory ∧ m.Numbered ∧
      ∃ e before' after', r.resolve d = .ok e ∧ e.get? "line" = some ['3'] ∧ e.get? "column" = some ['6'] ∧
        e.message = .ok (before' ++ ' ' :: (m.inDocument ++ after')) := by
  intro directory s u r m d
  have hnames : IsSampleName "x$1-4.ts".toList :=
    ⟨List.all_eq_true.1 (by decide), ['x'], "1-4.ts".toList, rfl, by decide, by decide⟩
  have hknows : r.Knows directory :=
    { ne_nil := by decide
      spellable := by decide
      sampleDir := rfl
      nodup := by decide
      marked := by
        intro v hv
        rcases List.mem_cons.1 hv with rfl | hv
        · exact ⟨['x'], "1-4.ts".toList, rfl, by decide⟩
        · rw [List.mem_singleton.1 hv]
          exact ⟨['y'], "1-3.ts".toList, rfl, by decide⟩
      short := by decide }
  have hholding : Path.Holding directory := ⟨by decide, by decide, by decide⟩
  have hspaced : s.Spaced directory :=
    ⟨⟨_, rfl, by decide⟩, ⟨' ', by decide, by decide⟩, by decide, ⟨_, hnames, rfl⟩, by decide, by decide⟩
  have hnumbered : m.Numbered := ⟨by decide, by decide, by decide, noDigit_cons (by decide) _⟩
  obtain ⟨e, he⟩ : Succeeds (r.resolve d) := by decide +kernel
  have hsaid : d.message = .ok ("bad\n  at".toList ++ ' ' :: (m.named Sample.place ++ m.after)) := rfl
  obtain ⟨hline, hcolumn, kind, before', after', hkind, -, -, hmessage, hsame⟩ :=
    resolve_spaced hknows hholding List.mem_cons_self hspaced hnumbered (.inr ⟨_, rfl⟩) (by decide) (by decide) hsaid
      rfl rfl rfl rfl he
  obtain rfl := Except.ok.inj hkind
  rw [hsame.2 ⟨"/a.ts".toList, by decide +kernel, by decide +kernel⟩] at hmessage
  have hthree : Text.ofInt (Text.valueOfDigits m.line + s.startLine) = ['3'] := by decide +kernel
  have hsix : Text.ofInt (Text.valueOfDigits m.column + s.column - 1) = ['6'] := by decide +kernel
  exact ⟨hknows, hholding, hspaced, hnumbered, e, before', after', he, hline.trans (congrArg some hthree),
    hcolumn.trans (congrArg some hsix), hmessage⟩

/-- A report on a sample in a comment of a document in a directory with a blank in its name: the place in its message
is not the one that it is brought back to. -/
theorem resolve_misplaced :
    let s : Sample := ⟨.ofAbsolute ["my docs".toList, "mod.ts".toList], 1, 2, 4, " * ".toList, some "ts".toList,
      "a\nb\n".toList, some (.ofAbsolute ["t".toList, "x$1-4.ts".toList])⟩
    let r : Resolver := { cwd := .ofAbsolute [], samples := [s], sampleDir := some (.ofAbsolute ["t".toList]) }
    let d : Draft := [("kind", "check".toList), ("message", "bad\n  at /t/x$1-4.ts:2:3".toList),
      ("file", "/t/x$1-4.ts".toList), ("line", ['2']), ("column", ['3'])]
    ∃ e, r.resolve d = .ok e ∧ e.get? "line" = some ['3'] ∧ e.get? "column" = some ['6'] ∧
      e.message = .ok "bad\n  at /my docs/mod.ts:3:3".toList := by
  intro s r d
  obtain ⟨e, he⟩ : Succeeds (r.resolve d) := by decide +kernel
  have hfields : (r.resolve d).toOption.map (fun e => (e.get? "line", e.get? "column", e.get? "message")) =
      some (some ['3'], some ['6'], some "bad\n  at /my docs/mod.ts:3:3".toList) := by
    decide +kernel
  rw [he] at hfields
  obtain ⟨hline, hboth⟩ := Prod.mk.inj (Option.some.inj hfields)
  obtain ⟨hcolumn, hmessage⟩ := Prod.mk.inj hboth
  exact ⟨e, he, hline, hcolumn, Draft.message_of_get? hmessage⟩

end Resolver

end Fenceline
