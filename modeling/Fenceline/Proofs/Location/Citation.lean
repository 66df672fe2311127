import Fenceline.Proofs.Location.Lines
import Fenceline.Proofs.Location.Mark
import Fenceline.Proofs.Pattern.Parts

/-!
# References as they are read in a message

Whatever is read as a reference in a message is put together from its parts (`Citation`): perhaps the scheme of a
file URL, a path that says where it begins, the mark of a sample's lines, and behind it a line and a column, each
behind a colon, with no blank between any of them.

**The laws.** `exists_citation`: a match is the text of a citation, and its parts are those of the citation.
`eq_placedAt_of_unmark`: what is put in its place is the citation without its mark, with another line and column.
-/

namespace Fenceline.Reference

open Pattern

/-- **A reference as it is read**, with all that stands between its parts. -/
structure Citation where
  scheme : Text
  file : Text
  first : Text
  last : Text
  ending : Text
  /-- What stands before and behind the colon of the line. -/
  beforeLine : Text × Text
  line : Text
  /-- What stands before and behind the colon of the column. -/
  beforeColumn : Text × Text
  column : Text
  scheme_eq : scheme = [] ∨ scheme = FileUrl.scheme
  rooted : Rooted file
  digits : Digits first ∧ Digits last ∧ Digits line ∧ Digits column
  ending_spec : Ending ending
  solid : ∀ x ∈ beforeLine.1 ++ beforeLine.2 ++ (beforeColumn.1 ++ beforeColumn.2), notBlank x = true

namespace Citation

/-- What stands behind the mark, with a line and a column. -/
def behind (c : Citation) (line column : Text) : Text :=
  c.beforeLine.1 ++ ':' :: (c.beforeLine.2 ++ (line ++ (c.beforeColumn.1 ++ ':' :: (c.beforeColumn.2 ++ column))))

/-- The mark of the sample's lines. -/
def mark (c : Citation) : Text :=
  '$' :: (c.first ++ '-' :: (c.last ++ c.ending))

/-- The text of the reference. -/
def text (c : Citation) : Text :=
  c.scheme ++ (c.file ++ (c.mark ++ c.behind c.line c.column))

/-- The reference without its mark, with another line and column. -/
def placedAt (c : Citation) (line column : Text) : Text :=
  c.scheme ++ (c.file ++ c.behind line column)

/-- **No blank stands in a reference**, nor in what is put in its place. -/
theorem blank_not_mem (c : Citation) {x : Char} (hx : Text.isBlank x = true) :
    x ∉ c.text ∧ ∀ line column, x ∉ c.placedAt (Text.ofInt line) (Text.ofInt column) := by
  have hsolid : ∀ {t : Text}, (∀ y ∈ t, notBlank y = true) → x ∉ t := fun ht hmem => by
    have hnot := ht x hmem
    rw [notBlank, hx] at hnot
    cases hnot
  have hdigits : ∀ {t : Text}, Digits t → x ∉ t := fun ht hmem => by
    have hdecimal := ht.isDecimal x hmem
    rw [Text.isDecimal_of_isBlank hx] at hdecimal
    cases hdecimal
  have hscheme : x ∉ c.scheme := by
    rcases c.scheme_eq with heq | heq
    · rw [heq]
      exact List.not_mem_nil
    · rw [heq]
      exact hsolid (List.all_eq_true.1 (by decide))
  have hfile : x ∉ c.file := hsolid fun y hy => (c.rooted.plain y hy).1
  have hending : x ∉ c.ending := hsolid c.ending_spec.notBlank
  have hbetween := hsolid c.solid
  simp only [List.mem_append, not_or] at hbetween
  obtain ⟨hfirst, hlast, hline, hcolumn⟩ := c.digits
  simp [text, placedAt, mark, behind, hscheme, hfile, hending, hbetween, hdigits hfirst, hdigits hlast, hdigits hline,
    hdigits hcolumn, Text.not_mem_ofInt_of_isBlank hx, Text.ne_of_isBlank (x := '$') hx (by decide),
    Text.ne_of_isBlank (x := '-') hx (by decide), Text.ne_of_isBlank (x := ':') hx (by decide)]

/-- No dollar sign stands in front of the mark. -/
theorem dollar_not_mem (c : Citation) : '$' ∉ c.scheme ∧ '$' ∉ c.file := by
  refine ⟨?_, fun hmem => (c.rooted.plain '$' hmem).2 rfl⟩
  rcases c.scheme_eq with heq | heq <;> rw [heq]
  · exact List.not_mem_nil
  · decide

end Citation

/-- **A match that is read so**, its parts named. -/
structure Cites (m : Match) (c : Citation) : Prop where
  text : m.text = c.text
  url : m.get "url" = c.scheme ++ c.file
  file : m.get "file" = c.file
  start : m.get "start" = c.first
  line : m.get "line" = c.line
  column : m.get "column" = c.column
  between : m.get "a1" = c.beforeLine.1 ∧ m.get "a2" = c.beforeLine.2 ∧ m.get "a3" = c.beforeColumn.1 ∧
    m.get "a4" = c.beforeColumn.2

variable {t : Text} {parts : List (String × Text)} {m : Match} {b : Option Char}

/-! ## The pieces -/

theorem parses_lit {s : String} (h : (lit s).Parses t parts) : t = s.toList ∧ parts = [] :=
  h

theorem parses_digits {name : String} (h : (group name digits).Parses t parts) : Digits t ∧ parts = [(name, t)] := by
  obtain ⟨inside, hinside, rfl⟩ := h
  rw [parts_eq_nil rfl hinside]
  exact ⟨spells_digits_iff.1 (spells_of_parses hinside), rfl⟩

theorem parses_solid {name : String} (h : (group name upToBlank).Parses t parts) :
    (∀ x ∈ t, notBlank x = true) ∧ parts = [(name, t)] := by
  obtain ⟨inside, hinside, rfl⟩ := h
  rw [parts_eq_nil rfl hinside]
  exact ⟨spells_of_parses hinside, rfl⟩

theorem parses_extension (h : extension.Parses t parts) : Ending t ∧ parts = [] := by
  refine ⟨?_, parts_eq_nil rfl h⟩
  rcases spells_of_parses h with ⟨_, word, rfl, hword, rfl⟩ | rfl
  · obtain ⟨hne, hall⟩ := (spells_some1_iff .greedy Text.isWord word).1 hword
    exact .extension hne hall
  · exact .nothing

theorem parses_number {name : String} (h : (number name).Parses t parts) : Digits t ∧ parts = [(name, t)] := by
  obtain ⟨_, u, _, _, ⟨rfl, rfl⟩, hu, rfl, rfl⟩ := h
  obtain ⟨hdigits, rfl⟩ := parses_digits hu
  exact ⟨hdigits, rfl⟩

theorem parses_rooted (h : rooted.Parses t parts) : Rooted t ∧ parts = [] := by
  refine ⟨?_, parts_eq_nil rfl h⟩
  obtain ⟨start, run, hstart, hrun, rfl⟩ := spells_of_parses h
  have hplain : ∀ x ∈ run, notBlank x = true ∧ x ≠ '$' := fun x hx => by simpa using hrun x hx
  have hbegin : ∃ s ∈ ["/", "./", "../"], s.toList = start := by
    rcases hstart with rfl | rfl | rfl <;> simp
  obtain ⟨s, hs, rfl⟩ := hbegin
  refine ⟨⟨s, hs, List.prefix_append _ _⟩, fun x hx => ?_⟩
  have hstarts : ∀ s ∈ ["/", "./", "../"], s.toList.all (fun x => notBlank x && x != '$') = true := by decide +kernel
  have hstart : ∀ x ∈ s.toList, notBlank x = true ∧ x ≠ '$' := by simpa using hstarts s hs
  exact (List.mem_append.1 hx).elim (hstart x) (hplain x)

theorem parses_path (h : path.Parses t parts) :
    ∃ scheme file, (scheme = [] ∨ scheme = FileUrl.scheme) ∧ Rooted file ∧ t = scheme ++ file ∧
      parts = [("url", scheme ++ file), ("file", file)] := by
  obtain ⟨_, ⟨scheme, file, _, _, hscheme, ⟨_, hfile, rfl⟩, rfl, rfl⟩, rfl⟩ := h
  obtain ⟨hrooted, rfl⟩ := parses_rooted hfile
  have hnothing := parts_eq_nil rfl hscheme
  subst hnothing
  exact ⟨scheme, file, (spells_of_parses hscheme).symm, hrooted, rfl, rfl⟩

/-- What stands behind the mark: twice a colon and a number, each with something before it. -/
theorem parses_place (h : place.Parses t parts) : ∃ a1 a2 line a3 a4 column,
    Digits line ∧ Digits column ∧ (∀ x ∈ a1 ++ a2 ++ (a3 ++ a4), notBlank x = true) ∧
      t = a1 ++ ':' :: (a2 ++ (line ++ (a3 ++ ':' :: (a4 ++ column)))) ∧
      parts = [("column", column), ("a4", a4), ("a3", a3), ("line", line), ("a2", a2), ("a1", a1)] := by
  obtain ⟨a1, _, _, _, h1, ⟨_, _, _, _, hcolon, ⟨a2, _, _, _, h2, ⟨line, _, _, _, hline, ⟨a3, _, _, _, h3,
    ⟨_, _, _, _, hcolon', ⟨a4, column, _, _, h4, hcolumn, rfl, rfl⟩, rfl, rfl⟩, rfl, rfl⟩, rfl, rfl⟩, rfl, rfl⟩,
    rfl, rfl⟩, rfl, rfl⟩ := h
  obtain ⟨hsolid1, rfl⟩ := parses_solid h1
  obtain ⟨hsolid2, rfl⟩ := parses_solid h2
  obtain ⟨hsolid3, rfl⟩ := parses_solid h3
  obtain ⟨hsolid4, rfl⟩ := parses_solid h4
  obtain ⟨hlineDigits, rfl⟩ := parses_number hline
  obtain ⟨hcolumnDigits, rfl⟩ := parses_number hcolumn
  obtain ⟨rfl, rfl⟩ := parses_lit hcolon
  obtain ⟨rfl, rfl⟩ := parses_lit hcolon'
  refine ⟨a1, a2, line, a3, a4, column, hlineDigits, hcolumnDigits, ?_, rfl, rfl⟩
  simp only [List.forall_mem_append]
  exact ⟨⟨hsolid1, hsolid2⟩, hsolid3, hsolid4⟩

/-! ## The whole -/

/-- **Whatever is read as a reference is a citation.** -/
theorem exists_citation (h : embedded.matchAt b t = some m) : ∃ c, Cites m c := by
  obtain ⟨parts, hparts, hget⟩ := parses_of_matchAt h
  rw [embedded_eq] at hparts
  obtain ⟨_, _, _, _, hpath, ⟨_, _, _, _, hdollar, ⟨first, _, _, _, hfirst, ⟨_, _, _, _, hdash, ⟨last, _, _, _, hlast,
    ⟨ending, _, _, _, hending, hplace, rfl, rfl⟩, rfl, rfl⟩, rfl, rfl⟩, rfl, rfl⟩, rfl, rfl⟩, htext, rfl⟩ := hparts
  obtain ⟨scheme, file, hscheme, hfile, rfl, rfl⟩ := parses_path hpath
  obtain ⟨rfl, rfl⟩ := parses_lit hdollar
  obtain ⟨rfl, rfl⟩ := parses_lit hdash
  obtain ⟨hfirstDigits, rfl⟩ := parses_digits hfirst
  obtain ⟨hlastDigits, rfl⟩ := parses_digits hlast
  obtain ⟨hendingSpec, rfl⟩ := parses_extension hending
  obtain ⟨a1, a2, line, a3, a4, column, hline, hcolumn, hsolid, rfl, rfl⟩ := parses_place hplace
  refine ⟨⟨scheme, file, first, last, ending, (a1, a2), line, (a3, a4), column, hscheme, hfile,
    ⟨hfirstDigits, hlastDigits, hline, hcolumn⟩, hendingSpec, hsolid⟩, ?_, hget _, hget _, hget _, hget _, hget _,
    hget _, hget _, hget _, hget _⟩
  rw [htext]
  simp [Citation.text, Citation.mark, Citation.behind]

end Fenceline.Reference

namespace Fenceline.Resolver

open Pattern Reference

variable {r : Resolver} {offset : Offset} {current : Option Path} {m : Match} {c : Citation} {t : Text}

/-- **What is put in the place of a reference** is the reference without its mark, with the place that it stands for. -/
theorem eq_placedAt_of_unmark (h : Cites m c) (ht : r.unmark offset current m = .ok t) : ∃ place,
    r.placeOf m offset current = .ok place ∧ t = c.placedAt (Text.ofInt place.1) (Text.ofInt place.2) := by
  obtain ⟨place, hplace, ht⟩ := bind_eq_ok.1 ht
  obtain ⟨line, hline, ht⟩ := bind_eq_ok.1 ht
  obtain ⟨column, hcolumn, ht⟩ := bind_eq_ok.1 ht
  obtain ⟨h1, h2, h3, h4⟩ := h.between
  refine ⟨place, hplace, ?_⟩
  rw [← Except.ok.inj ht, h.url, h1, h2, h3, h4, eq_ofInt_of_writeNumber hline, eq_ofInt_of_writeNumber hcolumn]
  simp [Citation.placedAt, Citation.behind]

/-- A text without a colon holds no reference. -/
theorem substituteM_embedded_of_colon_not_mem {put : Match → Except Failure Text} (ht : ':' ∉ t) :
    embedded.substituteM put t = .ok t := by
  have hturns : embedded.Turns put (t ++ []) (t ++ []) := by
    refine Turns.through (fun v _ hvt b m hm => absurd ?_ ht) Turns.nil
    obtain ⟨c, hcites⟩ := exists_citation hm
    have hv : ':' ∈ v ++ [] := by
      rw [← text_append_rest hm, hcites.text]
      simp [Citation.text, Citation.behind]
    rw [List.append_nil] at hv
    exact hvt.subset hv
  rw [List.append_nil] at hturns
  exact substituteM_of_turns hturns

/-- **What becomes of the references in a message**: each loses its mark and gets another line and column. -/
def Unmarks (w u : Text) : Prop :=
  ∃ c : Citation, ∃ line column : Int, w = c.text ∧ u = c.placedAt (Text.ofInt line) (Text.ofInt column)

/-- **A message changes in the references only**, once the sample files in it are named. -/
theorem rewritten_of_resolveMessage {current : Option Text} {message : Text}
    (h : r.resolveMessage message offset current = .ok t) : Rewritten Unmarks (r.nameSamples message) t := by
  obtain ⟨place, _, h⟩ := bind_eq_ok.1 h
  refine rewritten_of_substituteM (fun b t m u hm hu => ?_) h
  obtain ⟨c, hcites⟩ := exists_citation hm
  obtain ⟨numbers, _, rfl⟩ := eq_placedAt_of_unmark hcites hu
  exact ⟨c, numbers.1, numbers.2, hcites.text, rfl⟩

end Fenceline.Resolver
