import Fenceline.Proofs.Location.Character
import Fenceline.Proofs.Sample.Opening

/-!
# What is cut off the lines of a sample

A block admits the lines that begin with the lead, and the whole width of the indent is cut off each of
them. Between the two stand the columns in which the opening fence has the spaces at the end of its
indent (`gap`), and nothing asks what a line has there.

**The law** (`content_line`): a line of a sample is the indent and the content line, or it is blank behind
the lead, if and only if its gap holds the spaces of the indent or all behind the lead is blank; and what
is cut off it is the indent and blanks if and only if its gap is blank. An indent that ends in no space
leaves no gap, so there nothing but the indent is cut off (`kept_of_lead_eq`).

**What it does not establish.** That a gap is blank: it may hold code, which the content then lacks
(`content_line_short`).
-/

namespace Fenceline

namespace Sample

/-- The indent without the spaces at its end. -/
def lead (s : Sample) : Text :=
  s.indent.dropEndWhile Fence.isSpace

/-- What a line has in the columns of the spaces at the end of the indent. -/
def gap (s : Sample) (line : Text) : Text :=
  (line.take s.indent.length).drop s.lead.length

/-- A line of the document is the indent and a line of the content, or the lead and nothing but blanks. -/
def Kept (s : Sample) (line piece : Text) : Prop :=
  line = s.indent ++ piece ∨ ∃ blanks, (∀ c ∈ blanks, Text.isBlank c = true) ∧ line = s.lead ++ blanks

/-- Whatever is cut off a line is blank or belongs to the indent. -/
def CutsIndent (s : Sample) (t : Text) : Prop :=
  ∀ i < s.indent.length, ∀ c, t[i]? = some c → Text.isBlank c = false → s.indent[i]? = some c

variable {s : Sample} {line piece rest : Text}

/-- The indent is the lead and spaces. -/
theorem exists_indent (s : Sample) :
    ∃ k, s.indent = s.lead ++ List.replicate k ' ' := by
  obtain ⟨run, hrun, hindent⟩ := Text.exists_run Fence.isSpace s.indent
  refine ⟨run.length, ?_⟩
  rw [← List.eq_replicate_length.2 fun x hx => Fence.eq_space_of_isSpace (hrun x hx)]
  exact hindent

/-- The indent is as wide as the lead and its spaces. -/
theorem length_indent {k : Nat} (hindent : s.indent = s.lead ++ List.replicate k ' ') :
    s.indent.length = s.lead.length + k := by
  have hlength := congrArg List.length hindent
  rwa [List.length_append, List.length_replicate] at hlength

/-- The gap of a line is what stands behind the lead, as far as the indent has spaces. -/
theorem gap_append {k : Nat} (hindent : s.indent = s.lead ++ List.replicate k ' ') (rest : Text) :
    s.gap (s.lead ++ rest) = rest.take k := by
  rw [gap, length_indent hindent, List.take_length_add_append, List.drop_left]

/-- A space is blank. -/
theorem isBlank_of_mem_replicate {k : Nat} {c : Char} (hc : c ∈ List.replicate k ' ') :
    Text.isBlank c = true := by
  rw [List.eq_of_mem_replicate hc]
  rfl

/-- **A line is kept if its gap is that of the indent, or all of it is blank.** -/
theorem kept_iff {k : Nat} (hindent : s.indent = s.lead ++ List.replicate k ' ') (rest : Text) :
    s.Kept (s.lead ++ rest) ((s.lead ++ rest).drop s.indent.length) ↔
      s.gap (s.lead ++ rest) = List.replicate k ' ' ∨ ∀ c ∈ rest, Text.isBlank c = true := by
  rw [gap_append hindent, Kept, length_indent hindent, List.drop_length_add_append]
  refine or_congr ?_ ?_
  · constructor
    · intro hline
      have hline : s.lead ++ rest = s.lead ++ (List.replicate k ' ' ++ rest.drop k) := by
        rw [← List.append_assoc, ← hindent]
        exact hline
      rw [List.append_cancel_left hline, List.take_left' List.length_replicate]
    · intro hgap
      conv_rhs => rw [hindent, List.append_assoc, ← hgap, List.take_append_drop]
  · constructor
    · rintro ⟨blanks, hblanks, hline⟩
      rwa [List.append_cancel_left hline]
    · exact fun hblank => ⟨rest, hblank, rfl⟩

/-- **Nothing but the indent is cut off a line just if its gap is blank.** -/
theorem cutsIndent_iff {k : Nat} (hindent : s.indent = s.lead ++ List.replicate k ' ') (rest : Text) :
    s.CutsIndent (s.lead ++ rest) ↔ ∀ c ∈ s.gap (s.lead ++ rest), Text.isBlank c = true := by
  have hlength := length_indent hindent
  rw [gap_append hindent]
  constructor
  · intro hcuts c hc
    by_contra hblank
    obtain ⟨j, hj⟩ := List.mem_iff_getElem?.1 hc
    have hlt : j < k := by
      have := (List.getElem?_eq_some_iff.1 hj).1
      rw [List.length_take] at this
      omega
    rw [List.getElem?_take_of_lt hlt] at hj
    have hstands : (s.lead ++ rest)[s.lead.length + j]? = some c := by
      rw [List.getElem?_append_right (Nat.le_add_right ..), Nat.add_sub_cancel_left, hj]
    have hspace := hcuts (s.lead.length + j) (by omega) c hstands (Bool.eq_false_iff.2 hblank)
    rw [hindent, List.getElem?_append_right (Nat.le_add_right ..)] at hspace
    exact hblank (isBlank_of_mem_replicate (List.mem_of_getElem? hspace))
  · intro hblank i hi c hc hnot
    by_cases hlead : i < s.lead.length
    · rw [List.getElem?_append_left hlead] at hc
      rw [hindent, List.getElem?_append_left hlead, hc]
    · rw [List.getElem?_append_right (by omega)] at hc
      have hmem : c ∈ rest.take k := by
        refine List.mem_of_getElem? (i := i - s.lead.length) ?_
        rw [List.getElem?_take_of_lt (by omega), hc]
      rw [hblank c hmem] at hnot
      cases hnot

/-- A line that is kept loses nothing but the indent. -/
theorem Kept.cutsIndent (h : s.Kept line piece) : s.CutsIndent line := by
  intro i hi c hc hnot
  rcases h with rfl | ⟨blanks, hblanks, rfl⟩
  · rwa [List.getElem?_append_left hi] at hc
  · obtain ⟨k, hindent⟩ := s.exists_indent
    by_cases hlead : i < s.lead.length
    · rw [List.getElem?_append_left hlead] at hc
      rw [hindent, List.getElem?_append_left hlead, hc]
    · rw [List.getElem?_append_right (by omega)] at hc
      rw [hblanks c (List.mem_of_getElem? hc)] at hnot
      cases hnot

/-- **Where the indent ends in no space, every line is kept.** -/
theorem kept_of_lead_eq (h : s.lead = s.indent) (rest : Text) :
    s.Kept (s.lead ++ rest) ((s.lead ++ rest).drop s.indent.length) := by
  refine .inl ?_
  rw [h, List.drop_left]

/-- The lead of a sample is that of the fence that was read. -/
theorem lead_ofBlock {text : Text} {n : Nat} {fence : Fence} {lines : List Text}
    (h : IsBlock text.documentLines n fence lines) (file : Path) :
    (ofBlock file fence n lines).lead = fence.lead := by
  obtain ⟨_, _, hbegun, _⟩ := h.begun
  obtain ⟨opening, hopening, hread⟩ := hbegun.opened
  exact ((Fence.read?_eq_some_iff (Text.newline_not_mem_documentLines hopening)).1 hread).lead.symm

/-- **What the lines of a sample are to those of its document.** Each line of a sample begins with the
lead and lost as many characters as the indent has. It is the indent and the content line, or blank behind
the lead, if and only if its gap holds what the indent has there or all behind the lead is blank; and
what it lost is the indent and blanks if and only if its gap is blank. -/
theorem content_line {text : Text} {file : Path} {s : Sample} (hs : s ∈ findAll text file) {i : Nat}
    (hi : (i : Int) < s.lineCount) :
    ∃ rest, text.documentLines[s.startLine.toNat + i]? = some (s.lead ++ rest) ∧
      (s.content.cutAt '\n')[i]? = some ((s.lead ++ rest).drop s.indent.length) ∧
      (s.Kept (s.lead ++ rest) ((s.lead ++ rest).drop s.indent.length) ↔
        s.gap (s.lead ++ rest) = s.indent.drop s.lead.length ∨ ∀ c ∈ rest, Text.isBlank c = true) ∧
      (s.CutsIndent (s.lead ++ rest) ↔ ∀ c ∈ s.gap (s.lead ++ rest), Text.isBlank c = true) := by
  obtain ⟨k, hindent⟩ := s.exists_indent
  have hspaces : s.indent.drop s.lead.length = List.replicate k ' ' := by
    conv_lhs => rw [hindent, List.drop_left]
  obtain ⟨n, fence, lines, hblock, rfl⟩ := isBlock_of_mem_findAll hs
  have hi : i < lines.length := Int.ofNat_lt.1 hi
  obtain ⟨_, _, hbegun, _⟩ := hblock.begun
  have hadmits := (hbegun.inside _ (List.getElem_mem hi)).2
  obtain ⟨rest, hrest⟩ := List.isPrefixOf_iff_prefix.1 hadmits
  rw [← lead_ofBlock hblock file] at hrest
  refine ⟨rest, ?_, ?_, ?_, cutsIndent_iff hindent rest⟩
  · have hstart : (ofBlock file fence n lines).startLine.toNat = n + 1 := Int.toNat_natCast (n + 1)
    rw [hstart, hblock.getElem?_inside hi, List.getElem?_eq_getElem hi, hrest]
  · rw [cutAt_content hblock, List.getElem?_append_left (by rwa [List.length_map]), List.getElem?_map,
      List.getElem?_eq_getElem hi, Option.map_some, hrest]
    rfl
  · rw [hspaces]
    exact kept_iff hindent rest

/-- In a comment, a line that repeats the whole indent is kept and one that only repeats the lead and has
a tab behind it is not, though nothing else is cut off it. -/
theorem content_line_comment :
    let text : Text := " * ```ts\n * ab\n *\tcd\n * ```\n".toList
    let s : Sample :=
      ⟨.ofAbsolute ["a.ts".toList], 1, 2, 4, " * ".toList, some "ts".toList, "ab\ncd\n".toList, none⟩
    s ∈ findAll text (.ofAbsolute ["a.ts".toList]) ∧ s.Kept " * ab".toList "ab".toList ∧
      ¬ s.Kept " *\tcd".toList "cd".toList ∧ s.CutsIndent " *\tcd".toList := by
  intro text s
  have hlines : text.documentLines = [" * ```ts", " * ab", " *\tcd", " * ```"].map String.toList := by
    decide +kernel
  have hall : findAll text (.ofAbsolute ["a.ts".toList]) = [s] :=
    findAll_eq_of_scanWithin 5 (by decide +kernel)
  have hs : s ∈ findAll text (.ofAbsolute ["a.ts".toList]) := hall ▸ List.mem_singleton_self s
  have hlead : s.lead = " *".toList := by decide
  obtain ⟨first, hfirst, -, hfirstKept, -⟩ := content_line (i := 0) hs (by decide)
  obtain ⟨second, hsecond, -, hsecondKept, hsecondCuts⟩ := content_line (i := 1) hs (by decide)
  rw [hlines, hlead] at hfirst hsecond
  rw [hlead] at hfirstKept hsecondKept hsecondCuts
  have hfirst : " *".toList ++ " ab".toList = " *".toList ++ first := Option.some.inj hfirst
  have hsecond : " *".toList ++ "\tcd".toList = " *".toList ++ second := Option.some.inj hsecond
  obtain rfl := List.append_cancel_left hfirst
  obtain rfl := List.append_cancel_left hsecond
  refine ⟨hs, ?_, ?_, ?_⟩
  · exact hfirstKept.2 (.inl (by decide))
  · intro hkept
    rcases hsecondKept.1 hkept with hgap | hblank
    · exact absurd hgap (by decide)
    · exact absurd (hblank 'c' (by simp)) (by decide)
  · exact hsecondCuts.2 (List.all_eq_true.1 (by decide))

/-- **Code is cut off where a line of an indented sample is not indented.** Two characters of the second
line are lost, which is neither the indent and the content line nor blank. -/
theorem content_line_short :
    let text : Text := "  ```ts\n  f()\ng()\n  ```\n".toList
    let s : Sample :=
      ⟨.ofAbsolute ["a.md".toList], 1, 2, 3, "  ".toList, some "ts".toList, "f()\n)\n".toList, none⟩
    s ∈ findAll text (.ofAbsolute ["a.md".toList]) ∧
      text.documentLines[s.startLine.toNat + 1]? = some "g()".toList ∧
      (s.content.cutAt '\n')[1]? = some ")".toList ∧
      ¬ s.Kept "g()".toList ")".toList ∧ ¬ s.CutsIndent "g()".toList := by
  intro text s
  have hall : findAll text (.ofAbsolute ["a.md".toList]) = [s] :=
    findAll_eq_of_scanWithin 5 (by decide +kernel)
  have hs : s ∈ findAll text (.ofAbsolute ["a.md".toList]) := hall ▸ List.mem_singleton_self s
  have hcuts : ¬ s.CutsIndent "g()".toList := by
    intro h
    exact absurd (h 0 (by decide) 'g' rfl (by decide)) (by decide)
  refine ⟨hs, by decide +kernel, by decide +kernel, ?_, hcuts⟩
  exact fun h => hcuts h.cutsIndent

end Sample

end Fenceline
