import Fenceline.Proofs.Location.Character
import Fenceline.Proofs.Sample.RoundTrip

/-!
# Which blocks are rendered as they stand

A block is read by cutting the width of the indent off its lines, and rendered by putting the indent back
and dropping the blanks at every end. The two undo each other on a line that keeps the indent and ends in no
blank, and on one that is nothing but the indent without the blanks at its end (`contentLine_drop_iff`). A
content that ends in blank lines loses them, unless there is one line only (`tidyLines_unlines`); and a
block without lines is rendered with one.

**The law** (`block_eq_standing_iff`): the block of a sample's own content is what stands in the lines of the
sample if and only if these lines are `Verbatim`.
-/

namespace Fenceline

namespace Text

variable {t u : Text} {c : Char} {lines : List Text}

/-- A text without blanks at its end. -/
def Trimmed (t : Text) : Prop :=
  ∀ c ∈ t.getLast?, isBlank c = false

instance (t : Text) : Decidable t.Trimmed :=
  Option.decidableForallMem t.getLast?

theorem trimEnd_eq_self_iff : trimEnd t = t ↔ t.Trimmed := by
  refine ⟨fun h c hc => ?_, dropEndWhile_of_getLast?⟩
  rw [← h] at hc
  exact getLast?_dropEndWhile hc

/-- A text is blank just if nothing of it is left. -/
theorem trimEnd_eq_nil_iff : trimEnd t = [] ↔ ∀ c ∈ t, isBlank c = true := by
  constructor
  · intro h
    obtain ⟨run, hrun, hrest⟩ := exists_run isBlank t
    rw [← trimEnd, h, List.nil_append] at hrest
    rwa [hrest]
  · intro h
    have hall : trimEnd ([] ++ t) = trimEnd [] := dropEndWhile_append_of_all h []
    exact hall

/-- The beginning of a text has no more pieces than the text. -/
theorem length_cutAt_le_of_prefix (h : t <+: u) : (cutAt c t).length ≤ (cutAt c u).length := by
  obtain ⟨more, rfl⟩ := h
  induction t with
  | nil => exact List.length_pos_iff.2 (cutAt_ne_nil c _)
  | cons x t ih =>
    rcases cutAt_cons c x t with ⟨rfl, hcut⟩ | ⟨p, ps, hne, hrest, hcut⟩
    · rw [List.cons_append, hcut, cutAt, if_pos rfl, List.length_cons, List.length_cons]
      exact Nat.succ_le_succ ih
    · rw [hrest] at ih
      rcases cutAt_cons c x (t ++ more) with ⟨rfl, -⟩ | ⟨q, qs, -, hlonger, hall⟩
      · exact absurd rfl hne
      · rw [hlonger] at ih
        rwa [hcut, List.cons_append, hall]

/-- The line feed behind the last line of a content is trimmed. -/
theorem trimEnd_unlines (hne : lines ≠ []) : trimEnd (unlines lines) = trimEnd (joinWith ['\n'] lines) := by
  rw [unlines, ← joinWith_append_end hne, trimEnd_append_of_nil rfl]

/-- A content of one line is written as one line. -/
theorem tidyLines_unlines_single (h : '\n' ∉ t) : tidyLines (unlines [t]) = [trimEnd t] := by
  rw [tidyLines, trimEnd_unlines (List.cons_ne_nil _ _)]
  show (cutAt '\n' (trimEnd t)).map trimEnd = [trimEnd t]
  rw [cutAt_of_not_mem (newline_not_mem_trimEnd h), List.map_singleton, trimEnd_trimEnd]

theorem trimEnd_joinWith_concat (hne : lines ≠ []) (ht : trimEnd t ≠ []) :
    trimEnd (joinWith ['\n'] (lines ++ [t])) = joinWith ['\n'] (lines ++ [trimEnd t]) := by
  rw [joinWith_concat hne, joinWith_concat hne, trimEnd, dropEndWhile_append_of_ne_nil ht]
  rfl

/-- A last line that is not blank is written, and so are those above it. -/
theorem tidyLines_unlines_concat (hlines : ∀ l ∈ lines ++ [t], '\n' ∉ l) (ht : trimEnd t ≠ []) :
    tidyLines (unlines (lines ++ [t])) = (lines ++ [t]).map trimEnd := by
  obtain ⟨hbefore, hlast⟩ := List.forall_mem_append.1 hlines
  specialize hlast t (List.mem_singleton_self t)
  by_cases hne : lines = []
  · subst hne
    exact tidyLines_unlines_single hlast
  · rw [tidyLines, trimEnd_unlines (by simp), trimEnd_joinWith_concat hne ht, cutAt_joinWith (by simp)]
    · rw [List.map_append, List.map_append, List.map_singleton, List.map_singleton, trimEnd_trimEnd]
    · intro l hl
      rcases List.mem_append.1 hl with hl | hl
      · exact hbefore l hl
      · rw [List.mem_singleton.1 hl]
        exact newline_not_mem_trimEnd hlast

/-- Blank lines at the end of a content are not written. -/
theorem length_tidyLines_unlines_lt (hlines : ∀ l ∈ lines, '\n' ∉ l) (hne : lines ≠ []) (ht : trimEnd t = []) :
    (tidyLines (unlines (lines ++ [t]))).length < (lines ++ [t]).length := by
  have hall : trimEnd (joinWith ['\n'] (lines ++ [t])) = trimEnd (joinWith ['\n'] lines) := by
    have hend : trimEnd ('\n' :: t) = [] :=
      trimEnd_eq_nil_iff.2 (List.forall_mem_cons.2 ⟨rfl, trimEnd_eq_nil_iff.1 ht⟩)
    rw [joinWith_concat hne, List.append_assoc, List.singleton_append, trimEnd_append_of_nil hend]
  rw [tidyLines, List.length_map, trimEnd_unlines (by simp), hall, List.length_append]
  refine Nat.lt_succ_of_le ?_
  calc (cutAt '\n' (trimEnd (joinWith ['\n'] lines))).length
      ≤ (cutAt '\n' (joinWith ['\n'] lines)).length :=
        length_cutAt_le_of_prefix (dropEndWhile_isPrefix _ _)
    _ = lines.length := by rw [cutAt_joinWith hne hlines]

/-- There is a line, and the last one is not blank or is the only one. -/
def EndsWritten (lines : List Text) : Prop :=
  lines ≠ [] ∧ ∀ l ∈ lines.getLast?, (∃ c ∈ l, isBlank c = false) ∨ lines.length = 1

instance (lines : List Text) : Decidable (EndsWritten lines) :=
  haveI (l : Text) : Decidable (∃ c ∈ l, isBlank c = false) := List.decidableBEx _ l
  inferInstanceAs (Decidable (lines ≠ [] ∧
    ∀ l ∈ lines.getLast?, (∃ c ∈ l, isBlank c = false) ∨ lines.length = 1))

theorem endsWritten_concat_iff (lines : List Text) (t : Text) :
    EndsWritten (lines ++ [t]) ↔ trimEnd t ≠ [] ∨ lines = [] := by
  have hblank : trimEnd t ≠ [] ↔ ∃ c ∈ t, isBlank c = false := by
    rw [ne_eq, trimEnd_eq_nil_iff]
    simp
  rw [EndsWritten, hblank, List.getLast?_concat]
  simp

/-- **A content is written line by line** if its last line is not blank or its only one. -/
theorem tidyLines_unlines_of_endsWritten (hlines : ∀ l ∈ lines, '\n' ∉ l) (h : EndsWritten lines) :
    tidyLines (unlines lines) = lines.map trimEnd := by
  obtain ⟨before, last, rfl⟩ := (List.eq_nil_or_concat' lines).resolve_left h.1
  rw [endsWritten_concat_iff] at h
  by_cases hblank : trimEnd last = []
  · obtain rfl := h.resolve_left (not_not_intro hblank)
    exact tidyLines_unlines_single (hlines last (List.mem_singleton_self last))
  · exact tidyLines_unlines_concat hlines hblank

/-- Any other content is not: no line is written as one, and a blank line at the end is left out. -/
theorem endsWritten_of_length (hlines : ∀ l ∈ lines, '\n' ∉ l)
    (hlength : (tidyLines (unlines lines)).length = lines.length) : EndsWritten lines := by
  rcases List.eq_nil_or_concat' lines with rfl | ⟨before, last, rfl⟩
  · cases hlength
  · rw [endsWritten_concat_iff]
    by_contra hnot
    rw [not_or, not_not] at hnot
    have hbefore : ∀ l ∈ before, '\n' ∉ l := fun l hl => hlines l (List.mem_append_left _ hl)
    exact absurd hlength (Nat.ne_of_lt (length_tidyLines_unlines_lt hbefore hnot.2 hnot.1))

/-- Lines are known from what they are joined to. -/
theorem joinWith_inj {ps qs : List Text} (hp : ps ≠ []) (hq : qs ≠ []) (hps : ∀ p ∈ ps, '\n' ∉ p)
    (hqs : ∀ q ∈ qs, '\n' ∉ q) : joinWith ['\n'] ps = joinWith ['\n'] qs ↔ ps = qs := by
  refine ⟨fun h => ?_, congrArg _⟩
  rw [← cutAt_joinWith hp hps, h, cutAt_joinWith hq hqs]

/-- Where every line ends in a line feed only, the lines of a document are the pieces of its text. -/
theorem LfOnly.documentLines_prefix (h : t.LfOnly) : t.documentLines <+: t.cutAt '\n' := by
  have hpieces : (t.cutAt '\n').map dropReturn = t.cutAt '\n' :=
    (List.map_congr_left fun piece hpiece => dropReturn_of_getLast? (h piece hpiece)).trans (List.map_id _)
  rw [documentLines, hpieces]
  split
  · exact List.dropLast_prefix _
  · exact List.prefix_refl _

end Text

namespace Sample

variable {s : Sample} {line opening closing : Text} {inside : List Text}

/-- The lines of a text in which a sample was found, its fences and what stands between them. -/
def standing (s : Sample) (text : Text) : List Text :=
  ((text.cutAt '\n').take s.endLine.toNat).drop (s.startLine - 1).toNat

/-- A line that keeps the indent and ends in no blank, or is the indent without the blanks at its end. -/
def KeepsLine (s : Sample) (line : Text) : Prop :=
  (s.indent <+: line ∧ line.Trimmed) ∨ line = Text.trimEnd s.indent

instance (s : Sample) (line : Text) : Decidable (s.KeepsLine line) :=
  inferInstanceAs (Decidable ((s.indent <+: line ∧ line.Trimmed) ∨ line = Text.trimEnd s.indent))

/-- **Lines that are rendered as they stand.** -/
structure Verbatim (s : Sample) (first : Text) (inside : List Text) (last : Text) : Prop where
  /-- No spaces stand behind the opening fence. -/
  opening : first.getLast? ≠ some ' '
  /-- No spaces stand behind the closing fence. -/
  closing : last.getLast? ≠ some ' '
  /-- There is a line between the fences. -/
  nonempty : inside ≠ []
  /-- The last of them is not blank behind the width of the indent, or it is the only one. -/
  written : ∀ line ∈ inside.getLast?,
    (∃ c ∈ line.drop s.indent.length, Text.isBlank c = false) ∨ inside.length = 1
  /-- Each keeps the indent and ends in no blank, or is the indent without the blanks at its end. -/
  kept : ∀ line ∈ inside, s.KeepsLine line

/-- **A line comes back as it was** if it keeps the indent and ends in no blank, or is nothing but the indent
without the blanks at its end. -/
theorem contentLine_drop_iff (s : Sample) (line : Text) :
    Text.trimEnd (s.indent ++ line.drop s.indent.length) = line ↔ s.KeepsLine line := by
  rw [KeepsLine]
  generalize s.indent = indent
  constructor
  · intro h
    by_cases hblank : Text.trimEnd (line.drop indent.length) = []
    · rw [Text.trimEnd_append_of_nil hblank] at h
      exact .inr h.symm
    · refine .inl ⟨?_, Text.trimEnd_eq_self_iff.1 ?_⟩
      · rw [Text.trimEnd, Text.dropEndWhile_append_of_ne_nil hblank] at h
        exact ⟨_, h⟩
      · rw [← h, Text.trimEnd_trimEnd]
  · rintro (⟨⟨rest, rfl⟩, htrimmed⟩ | rfl)
    · rw [List.drop_left]
      exact Text.trimEnd_eq_self_iff.2 htrimmed
    · have hshort : (Text.trimEnd indent).drop indent.length = [] :=
        List.drop_eq_nil_of_le (Text.dropEndWhile_isPrefix Text.isBlank indent).length_le
      rw [hshort, List.append_nil]

/-- Spaces behind a text that ends in none show at its end. -/
theorem append_spaces_eq_iff {t spaces : Text} (ht : t.getLast? ≠ some ' ') (hspaces : ∀ x ∈ spaces, x = ' ') :
    t = t ++ spaces ↔ (t ++ spaces).getLast? ≠ some ' ' := by
  rw [List.self_eq_append_right]
  constructor
  · rintro rfl
    rwa [List.append_nil]
  · intro h
    by_contra hne
    obtain ⟨x, hx⟩ := Option.ne_none_iff_exists'.1 (List.getLast?_eq_none_iff.not.2 hne)
    rw [List.getLast?_append, hx, hspaces x (List.mem_of_getLast? hx)] at h
    exact h rfl

/-- The opening fence is rendered as it stands if no spaces stand behind it. -/
theorem openingLine_eq_iff {fence : Fence} (h : fence.Opens opening) (hindent : fence.indent = s.indent)
    (hlanguage : fence.language = s.language) : s.openingLine = opening ↔ opening.getLast? ≠ some ' ' := by
  obtain ⟨word, spaces, hword, hspaces, hname, rfl⟩ := h.parts
  have hnamed : s.language.getD [] = word := by
    rw [← hlanguage, hname]
    split
    · rename_i hempty
      rw [hempty]
      rfl
    · rfl
  obtain ⟨c, hlast, hblank⟩ := exists_getLast_openingLine (s := s) (by rwa [hnamed])
  have hline : fence.indent ++ (Fence.marker ++ (word ++ spaces)) = s.openingLine ++ spaces := by
    rw [openingLine, hnamed, hindent]
    simp
  rw [hline]
  refine append_spaces_eq_iff ?_ hspaces
  rw [hlast]
  rintro ⟨rfl⟩
  cases hblank

/-- So is the closing one. -/
theorem closingLine_eq_iff {fence : Fence} (h : fence.Closes closing) (hindent : fence.indent = s.indent) :
    s.closingLine = closing ↔ closing.getLast? ≠ some ' ' := by
  obtain ⟨n, rfl⟩ := h
  rw [hindent]
  refine append_spaces_eq_iff ?_ fun x hx => List.eq_of_mem_replicate hx
  rw [closingLine, List.getLast?_append]
  exact fun hspace => absurd (Option.some.inj hspace) (by decide)

/-- **The lines between the fences are rendered as they stand** if they end in one that is written and each
comes back as it was. -/
theorem contentLines_eq_iff (hlines : ∀ l ∈ inside, '\n' ∉ l) :
    (Text.tidyLines (Text.unlines (inside.map (·.drop s.indent.length)))).map s.contentLine = inside ↔
      Text.EndsWritten (inside.map (·.drop s.indent.length)) ∧
        ∀ line ∈ inside, s.KeepsLine line := by
  have hpieces : ∀ l ∈ inside.map (·.drop s.indent.length), '\n' ∉ l := by
    intro l hl
    obtain ⟨line, hline, rfl⟩ := List.mem_map.1 hl
    exact fun hmem => hlines line hline (List.mem_of_mem_drop hmem)
  have hwritten : Text.EndsWritten (inside.map (·.drop s.indent.length)) →
      (Text.tidyLines (Text.unlines (inside.map (·.drop s.indent.length)))).map s.contentLine =
        inside.map fun line => Text.trimEnd (s.indent ++ line.drop s.indent.length) := by
    intro hends
    rw [Text.tidyLines_unlines_of_endsWritten hpieces hends, List.map_map, List.map_map]
    exact List.map_congr_left fun line _ => Text.trimEnd_append_trimEnd s.indent _
  constructor
  · intro h
    have hlength := congrArg List.length h
    have hends : Text.EndsWritten (inside.map (·.drop s.indent.length)) :=
      Text.endsWritten_of_length hpieces (by simpa using hlength)
    refine ⟨hends, fun line hline => (contentLine_drop_iff s line).1 ?_⟩
    rw [hwritten hends] at h
    exact List.map_inj_left.1 (h.trans (List.map_id inside).symm) line hline
  · rintro ⟨hends, hkept⟩
    rw [hwritten hends]
    exact (List.map_congr_left fun line hline => (contentLine_drop_iff s line).2 (hkept line hline)).trans
      (List.map_id inside)

/-- Lines are rendered as they stand if the fences and what stands between them are. -/
theorem verbatim_iff (s : Sample) (first : Text) (inside : List Text) (last : Text) :
    s.Verbatim first inside last ↔ first.getLast? ≠ some ' ' ∧ last.getLast? ≠ some ' ' ∧
      Text.EndsWritten (inside.map (·.drop s.indent.length)) ∧ ∀ line ∈ inside, s.KeepsLine line := by
  have hends : Text.EndsWritten (inside.map (·.drop s.indent.length)) ↔ inside ≠ [] ∧
      ∀ line ∈ inside.getLast?,
        (∃ c ∈ line.drop s.indent.length, Text.isBlank c = false) ∨ inside.length = 1 := by
    rw [Text.EndsWritten, List.getLast?_map, List.length_map]
    simp
  rw [hends]
  exact ⟨fun h => ⟨h.opening, h.closing, ⟨h.nonempty, h.written⟩, h.kept⟩,
    fun ⟨hopening, hclosing, ⟨hnonempty, hwritten⟩, hkept⟩ =>
      ⟨hopening, hclosing, hnonempty, hwritten, hkept⟩⟩

instance (s : Sample) (first : Text) (inside : List Text) (last : Text) :
    Decidable (s.Verbatim first inside last) :=
  decidable_of_iff _ (verbatim_iff s first inside last).symm

/-- In a text whose lines end in line feeds, the lines of a block are pieces of the text. -/
theorem standing_ofBlock {text : Text} {n : Nat} {rest : List Text} (file : Path) (fence : Fence)
    (hlf : text.LfOnly) {first last : Text} (hfirst : text.documentLines[n]? = some first)
    (hbehind : text.documentLines.drop (n + 1) = inside ++ last :: rest) :
    (ofBlock file fence n inside).standing text = first :: (inside ++ [last]) := by
  obtain ⟨more, hmore⟩ := hlf.documentLines_prefix
  let above := text.documentLines.take n
  have hn : above.length = n :=
    List.length_take_of_le (Nat.le_of_lt (List.getElem?_eq_some_iff.1 hfirst).1)
  have hpieces : text.cutAt '\n' = above ++ ((first :: (inside ++ [last])) ++ (rest ++ more)) := by
    rw [← hmore]
    conv_lhs => rw [← List.take_append_drop n text.documentLines]
    rw [List.drop_eq_getElem?_toList_append, hfirst, hbehind]
    simp [above]
  have hstart : ((ofBlock file fence n inside).startLine - 1).toNat = above.length := by
    rw [hn]
    simp [ofBlock]
  have hend : (ofBlock file fence n inside).endLine.toNat =
      above.length + (first :: (inside ++ [last])).length := by
    rw [hn]
    simp only [endLine, ofBlock, List.length_cons, List.length_append, List.length_nil]
    omega
  rw [standing, hpieces, hstart, hend, List.take_length_add_append, List.drop_left, List.take_left]

/-- **Which blocks stand in their document as they are rendered.** In a text whose lines end in line feeds,
the lines of a sample are its opening fence, the lines that it counts, and its closing fence; and they are
what the block of its own content is rendered to if and only if they are verbatim. -/
theorem block_eq_standing_iff {text : Text} {document : Path} {s : Sample} (hs : s ∈ findAll text document)
    (hlf : text.LfOnly) :
    ∃ first inside last, s.standing text = first :: (inside ++ [last]) ∧
      (inside.length : Int) = s.lineCount ∧
      (s.block s.content ['\n'] = Text.joinWith ['\n'] (s.standing text) ↔ s.Verbatim first inside last) := by
  obtain ⟨n, fence, inside, hblock, rfl⟩ := isBlock_of_mem_findAll hs
  obtain ⟨last, rest, hbegun, hclosed⟩ := hblock.begun
  obtain ⟨first, hfirst, hread⟩ := hbegun.opened
  have hstanding := standing_ofBlock document fence hlf hfirst hbegun.behind
  have hopens := (Fence.read?_eq_some_iff (Text.newline_not_mem_documentLines hfirst)).1 hread
  obtain ⟨word, spaces, hword, -, hname, -⟩ := hopens.parts
  have hlanguage : ∀ c ∈ (ofBlock document fence n inside).language.getD [], Text.isWord c = true := by
    show ∀ c ∈ fence.language.getD [], Text.isWord c = true
    rw [hname]
    split
    · exact List.forall_mem_nil _
    · exact hword
  have hlines : ∀ l ∈ (ofBlock document fence n inside).standing text, '\n' ∉ l := fun l hl =>
    Text.not_mem_of_mem_cutAt (List.mem_of_mem_take (List.mem_of_mem_drop hl))
  refine ⟨first, inside, last, hstanding, rfl, ?_⟩
  rw [block, Text.joinWith_inj (blockLines_ne_nil _ _) (by rw [hstanding]; exact List.cons_ne_nil _ _)
    (fun l hl => (line_of_mem_block (newline_not_mem_indent hs) hlanguage hl).1) hlines,
    blockLines_tidyLines hlanguage, hstanding, verbatim_iff, List.cons_append, List.cons.injEq,
    openingLine_eq_iff hopens rfl rfl,
    ← closingLine_eq_iff (s := ofBlock document fence n inside) (Fence.isClosedBy_iff.1 hclosed) rfl,
    content_ofBlock]
  refine and_congr_right fun _ => ?_
  have hnewline : ∀ l ∈ inside, '\n' ∉ l := fun l hl => newline_not_mem_of_isBlock hblock hl
  have hinside := contentLines_eq_iff (s := ofBlock document fence n inside) hnewline
  rw [← hinside]
  constructor
  · intro h
    obtain ⟨hcontent, hclosing⟩ := List.append_inj' h rfl
    exact ⟨List.singleton_inj.1 hclosing, hcontent⟩
  · rintro ⟨hclosing, hcontent⟩
    rw [hclosing]
    exact congrArg (· ++ [last]) hcontent

/-- Two samples of one document: the block of the first stands there, a bare line and all, and that of the
second, which ends in a blank line, does not. -/
theorem block_eq_standing_comment :
    let text : Text := " * ```ts\n * a\n *\n * b\n * ```\n```\nx\n\n```\n".toList
    let document : Path := .ofAbsolute ["a.ts".toList]
    let s : Sample := ⟨document, 1, 3, 4, " * ".toList, some "ts".toList, "a\n\nb\n".toList, none⟩
    let t : Sample := ⟨document, 6, 2, 1, [], none, "x\n\n".toList, none⟩
    s ∈ findAll text document ∧ t ∈ findAll text document ∧ text.LfOnly ∧
      s.block s.content ['\n'] = Text.joinWith ['\n'] (s.standing text) ∧
      t.block t.content ['\n'] ≠ Text.joinWith ['\n'] (t.standing text) := by
  intro text document s t
  have hsamples : findAll text document = [s, t] := findAll_eq_of_scanWithin 10 (by decide +kernel)
  have hs : s ∈ findAll text document := by simp [hsamples]
  have ht : t ∈ findAll text document := by simp [hsamples]
  have hlf : text.LfOnly := by decide +kernel
  refine ⟨hs, ht, hlf, ?_, ?_⟩
  · obtain ⟨first, inside, last, hstanding, -, hiff⟩ := block_eq_standing_iff hs hlf
    have hown : s.standing text = " * ```ts".toList ::
        ([" * a", " *", " * b"].map String.toList ++ [" * ```".toList]) := by decide +kernel
    obtain ⟨rfl, hrest⟩ := List.cons.inj (hown.symm.trans hstanding)
    obtain ⟨rfl, hlast⟩ := List.append_inj' hrest rfl
    obtain rfl := List.singleton_inj.1 hlast
    exact hiff.2 (by decide)
  · obtain ⟨first, inside, last, hstanding, -, hiff⟩ := block_eq_standing_iff ht hlf
    have hown : t.standing text = "```".toList :: (["x", ""].map String.toList ++ ["```".toList]) := by
      decide +kernel
    obtain ⟨rfl, hrest⟩ := List.cons.inj (hown.symm.trans hstanding)
    obtain ⟨rfl, hlast⟩ := List.append_inj' hrest rfl
    obtain rfl := List.singleton_inj.1 hlast
    exact fun h => absurd (hiff.1 h) (by decide)

end Sample

end Fenceline
