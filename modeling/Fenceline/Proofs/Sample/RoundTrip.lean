import Fenceline.Proofs.Sample.Opening
import Fenceline.Proofs.Sample.Splice
import Fenceline.Proofs.Text.Numeral

/-!
# A block is read back as what was written

A block is written by one piece of code and read by another, and the writing drops the blanks at the end
of every line, those of the indent too. What comes back are the lines of the content without the blanks at
their ends (`Text.tidyLines`).

**The law** (`findAll_block`): a document that is one block is read as one sample with these lines, and so
is what a write-back makes of such a document, unless a line is three backticks, which close the fence, or
a blank line loses a part of the lead.
-/

namespace Fenceline

namespace Text

variable {t u : Text} {c : Char}

/-- **The lines that are written of a content**: none has blanks at its end, and none stands behind the
last one that is not blank. -/
def tidyLines (content : Text) : List Text :=
  ((trimEnd content).cutAt '\n').map trimEnd

/-! ## Trimmed lines -/

theorem trimEnd_of_mem_tidyLines (h : t ∈ tidyLines u) : trimEnd t = t := by
  obtain ⟨line, -, rfl⟩ := List.mem_map.1 h
  exact trimEnd_trimEnd line

theorem newline_not_mem_of_mem_tidyLines (h : t ∈ tidyLines u) : '\n' ∉ t := by
  obtain ⟨line, hline, rfl⟩ := List.mem_map.1 h
  exact newline_not_mem_trimEnd (not_mem_of_mem_cutAt hline)

theorem tidyLines_ne_nil (content : Text) : tidyLines content ≠ [] :=
  List.map_eq_nil_iff.not.2 (cutAt_ne_nil '\n' _)

/-! ## Lines that were written -/

/-- The last line of a text without blanks at its end has none either. -/
theorem trimEnd_joinWith_tidyLines (content : Text) :
    trimEnd (joinWith ['\n'] (tidyLines content)) = joinWith ['\n'] (tidyLines content) := by
  by_cases hempty : trimEnd content = []
  · rw [tidyLines, hempty]
    rfl
  · obtain ⟨start, last, hstart⟩ := List.eq_nil_or_concat' (trimEnd content) |>.resolve_left hempty
    have hlast : isBlank last = false :=
      getLast?_dropEndWhile (p := isBlank) (t := content) (by rw [← trimEnd, hstart]; simp)
    obtain ⟨pieces, piece, hpieces⟩ := exists_cutAt_eq_concat '\n' start
    have hcut := cutAt_concat hpieces (x := last) (by rintro rfl; exact absurd hlast (by decide))
    have hpiece : trimEnd (piece ++ [last]) = piece ++ [last] :=
      trimEnd_of_getLast? List.getLast?_concat hlast
    have hjoin : (joinWith ['\n'] (tidyLines content)).getLast? = some last := by
      rw [tidyLines, hstart, hcut, List.map_append, List.map_singleton, hpiece]
      by_cases hne : pieces.map trimEnd = []
      · rw [hne]
        exact List.getLast?_concat
      · rw [joinWith_concat hne, ← List.append_assoc, List.getLast?_concat]
    exact trimEnd_of_getLast? hjoin hlast

/-- **What was read back is tidy.** -/
theorem tidyLines_unlines (content : Text) :
    tidyLines (unlines (tidyLines content)) = tidyLines content := by
  have hjoin : unlines (tidyLines content) = joinWith ['\n'] (tidyLines content) ++ ['\n'] :=
    (joinWith_append_end (tidyLines_ne_nil content) ['\n']).symm
  have htrim : trimEnd (unlines (tidyLines content)) = joinWith ['\n'] (tidyLines content) := by
    rw [hjoin, trimEnd_append_of_nil rfl, trimEnd_joinWith_tidyLines]
  conv_lhs => rw [tidyLines, htrim, cutAt_joinWith (tidyLines_ne_nil content) fun _ h =>
    newline_not_mem_of_mem_tidyLines h]
  exact (List.map_congr_left fun _ h => trimEnd_of_mem_tidyLines h).trans (List.map_id _)

/-! ## Lines of a document that was written -/

/-- **The lines of a document come back**, whatever ends them. -/
theorem documentLines_joinWith {lines : List Text} (hne : lines ≠ []) (hline : ∀ l ∈ lines, '\n' ∉ l)
    (hend : ∀ l ∈ lines, l.getLast? ≠ some '\r') {newline : Text} (hnewline : newline ∈ Sample.newlines) :
    (joinWith newline lines ++ newline).documentLines = lines := by
  rcases List.mem_pair.1 hnewline with rfl | rfl
  · rw [joinWith_append_end hne, ← unlines, documentLines_unlines hline]
    exact (List.map_congr_left fun l hl => dropReturn_of_getLast? (hend l hl)).trans (List.map_id _)
  · rw [joinWith_append_return hne, documentLines_unlines (by simpa using hline), List.map_map]
    exact (List.map_congr_left fun l _ => dropReturn_concat l).trans (List.map_id _)

end Text

namespace Sample

variable {s : Sample} {file : Path} {fence : Fence} {content content' newline : Text}

/-! ## Reading a block -/

/-- Lines that a fence admits are collected, up to the one that closes it. -/
theorem scan_inside {lines : List Text} {closing : Text} (rest : List Text) (start : Int)
    (hlines : ∀ l ∈ lines, fence.isClosedBy l = false ∧ fence.admits l = true)
    (hclosing : fence.isClosedBy closing = true) (done : List Text) (index : Int) :
    scan file (.inside fence start done) index (lines ++ closing :: rest) =
      ofBlock file fence start (done ++ lines) ::
        scan file .outside (index + lines.length + 1) rest := by
  induction lines generalizing done index with
  | nil =>
    rw [List.nil_append, scan_of_isClosedBy hclosing, List.append_nil]
    simp
  | cons l lines ih =>
    obtain ⟨⟨hopen, hadmits⟩, hlines⟩ := List.forall_mem_cons.1 hlines
    have hjoins : (Scan.inside fence start done).collect? l = some (.inside fence start (done ++ [l])) :=
      if_pos hadmits
    rw [List.cons_append, scan_of_collect? hjoins hopen, ih hlines, List.append_assoc, List.singleton_append,
      List.length_cons]
    congr 2
    push_cast
    omega

/-- The fence behind which a sample was found. -/
theorem exists_fence {text : Text} {document : Path} (hs : s ∈ findAll text document) :
    ∃ fence line, Fence.Opens fence line ∧ fence.indent = s.indent ∧ fence.language = s.language := by
  obtain ⟨n, fence, lines, ⟨closing, rest, hbegun, -⟩, rfl⟩ := isBlock_of_mem_findAll hs
  obtain ⟨line, hline, hread⟩ := hbegun.opened
  rw [Fence.read?_eq_some_iff (Text.newline_not_mem_documentLines hline)] at hread
  exact ⟨fence, line, hread, rfl, rfl⟩

/-! ## Writing a block -/

/-- **Trimming a blank line leaves the lead**: without its spaces the indent does not end in a blank. -/
def KeepsLead (s : Sample) : Prop :=
  ∀ c ∈ (s.indent.dropEndWhile Fence.isSpace).getLast?, Text.isBlank c = false

/-- The opening fence of a sample, as it is written. -/
def openingLine (s : Sample) : Text :=
  s.indent ++ (Fence.marker ++ s.language.getD [])

/-- The closing fence of a sample, as it is written. -/
def closingLine (s : Sample) : Text :=
  s.indent ++ Fence.marker

/-- A line of a sample without blanks at its end, as it is written. -/
def contentLine (s : Sample) (line : Text) : Text :=
  Text.trimEnd (s.indent ++ line)

theorem exists_getLast_openingLine (hword : ∀ c ∈ s.language.getD [], Text.isWord c = true) :
    ∃ c, s.openingLine.getLast? = some c ∧ Text.isBlank c = false := by
  by_cases hlanguage : s.language.getD [] = []
  · exact ⟨'\x60', by simp [openingLine, hlanguage, Fence.marker], by decide⟩
  · obtain ⟨c, hc⟩ := Option.ne_none_iff_exists'.1 (List.getLast?_eq_none_iff.not.2 hlanguage)
    refine ⟨c, ?_, Text.isBlank_of_isWord (hword c (List.mem_of_getLast? hc))⟩
    rw [openingLine, List.getLast?_append, List.getLast?_append, hc]
    rfl

/-- The lines of a block are those of its content without the blanks at their ends. -/
theorem blockLines_tidyLines (hword : ∀ c ∈ s.language.getD [], Text.isWord c = true) (content : Text) :
    s.blockLines content =
      s.openingLine :: (Text.tidyLines content).map s.contentLine ++ [s.closingLine] := by
  have hopening : Text.trimEnd s.openingLine = s.openingLine := by
    obtain ⟨last, hlast, hblank⟩ := exists_getLast_openingLine hword
    exact Text.trimEnd_of_getLast? hlast hblank
  have hclosing : Text.trimEnd s.closingLine = s.closingLine :=
    Text.trimEnd_of_getLast? (c := '\x60') (by simp [closingLine, Fence.marker]) (by decide)
  have hlines : ((Text.trimEnd content).cutAt '\n').map (fun line => Text.trimEnd (s.indent ++ line)) =
      (Text.tidyLines content).map s.contentLine := by
    rw [Text.tidyLines, List.map_map]
    exact List.map_congr_left fun line _ => (Text.trimEnd_append_trimEnd s.indent line).symm
  rw [blockLines, List.map_append, List.map_cons, hlines, List.map_singleton]
  exact congrArg₂ (fun first last => first :: _ ++ [last]) hopening hclosing

/-- A line of the content stands behind the indent, and one without characters is the lead. -/
theorem contentLine_of_trimmed {line : Text} (htrim : Text.trimEnd line = line) (hne : line ≠ []) :
    s.contentLine line = s.indent ++ line := by
  rw [contentLine, Text.trimEnd, Text.dropEndWhile_append_of_ne_nil (by rwa [← Text.trimEnd, htrim]),
    ← Text.trimEnd, htrim]

theorem contentLine_nil (h : s.KeepsLead) :
    s.contentLine [] = s.indent.dropEndWhile Fence.isSpace := by
  obtain ⟨spaces, hspaces, hindent⟩ := Text.exists_run Fence.isSpace s.indent
  have hblank : ∀ c ∈ spaces, Text.isBlank c = true := by
    intro c hc
    rw [Fence.eq_space_of_isSpace (hspaces c hc)]
    rfl
  conv_lhs => rw [contentLine, List.append_nil, hindent]
  rw [Text.trimEnd, Text.dropEndWhile_append_of_all hblank, Text.dropEndWhile_of_getLast? h]

/-- **A line of the content is collected**, and without the indent it is what was written. -/
theorem contentLine_collected {line : Text} (hindent : fence.indent = s.indent)
    (hlead : fence.lead = fence.indent.dropEndWhile Fence.isSpace)
    (htrim : Text.trimEnd line = line) (hfence : line ≠ Fence.marker)
    (hblank : line = [] → s.KeepsLead) :
    (fence.isClosedBy (s.contentLine line) = false ∧ fence.admits (s.contentLine line) = true) ∧
      (s.contentLine line).drop fence.indent.length = line := by
  have hprefix : s.indent.dropEndWhile Fence.isSpace <+: s.indent := Text.dropEndWhile_isPrefix _ _
  have hclosed : fence.isClosedBy (s.contentLine line) = false ↔ s.contentLine line ≠ s.closingLine := by
    have hspaces : (s.contentLine line).dropEndWhile Fence.isSpace = s.contentLine line := by
      refine Text.dropEndWhile_of_getLast? fun c hc => Bool.eq_false_iff.2 fun hspace => ?_
      have hlast : Text.isBlank c = false := Text.getLast?_dropEndWhile hc
      rw [Fence.eq_space_of_isSpace hspace] at hlast
      exact absurd hlast (by decide)
    rw [Fence.isClosedBy, hspaces, hindent, beq_eq_false_iff_ne]
    rfl
  rw [hclosed, Fence.admits, List.isPrefixOf_iff_prefix, hlead, hindent]
  by_cases hempty : line = []
  · subst hempty
    rw [contentLine_nil (hblank rfl)]
    refine ⟨⟨fun heq => ?_, List.prefix_refl _⟩, List.drop_eq_nil_of_le hprefix.length_le⟩
    have hlength := congrArg List.length heq
    have hshort := hprefix.length_le
    simp only [closingLine, List.length_append, Fence.marker, List.length_cons, List.length_nil] at hlength
    omega
  · rw [contentLine_of_trimmed htrim hempty]
    exact ⟨⟨fun heq => hfence (List.append_cancel_left heq), hprefix.trans (List.prefix_append _ _)⟩,
      List.drop_left⟩

/-! ## Writing and reading -/

/-- The lines that are written stand in one line each, and none ends in a carriage return. -/
theorem line_of_mem_block {line : Text} (hindent : '\n' ∉ s.indent)
    (hword : ∀ c ∈ s.language.getD [], Text.isWord c = true) (h : line ∈ s.blockLines content) :
    '\n' ∉ line ∧ line.getLast? ≠ some '\r' := by
  have htrimmed : ∀ t : Text, (Text.trimEnd t).getLast? ≠ some '\r' := fun t ht =>
    absurd (Text.getLast?_dropEndWhile ht) (by decide)
  obtain ⟨inner, hinner, rfl⟩ := List.mem_map.1 h
  refine ⟨Text.newline_not_mem_trimEnd (List.mem_append.not.2 (not_or.2 ⟨hindent, ?_⟩)), htrimmed _⟩
  simp only [List.mem_append, List.mem_cons, List.not_mem_nil, or_false] at hinner
  rcases hinner with (rfl | hline) | rfl
  · rw [List.mem_append, not_or]
    exact ⟨by decide, fun h => absurd (Text.isBlank_of_isWord (hword _ h)) (by decide)⟩
  · exact Text.not_mem_of_mem_cutAt hline
  · decide

theorem blockLines_ne_nil (s : Sample) (content : Text) : s.blockLines content ≠ [] := by
  simp [blockLines]

/-- A block begins with its opening fence. -/
theorem exists_block_eq (hword : ∀ c ∈ s.language.getD [], Text.isWord c = true) (content newline : Text) :
    ∃ rest, s.block content newline = s.openingLine ++ newline ++ rest := by
  obtain ⟨second, rest, hrest⟩ : ∃ second rest,
      (Text.tidyLines content).map s.contentLine ++ [s.closingLine] = second :: rest :=
    List.exists_cons_of_ne_nil (by simp)
  refine ⟨Text.joinWith newline (second :: rest), ?_⟩
  rw [block, blockLines_tidyLines hword, List.cons_append, hrest, Text.joinWith_cons_cons]

/-- **A block with bare line feeds stands nowhere among lines that end in carriage returns**: its first line
feed follows the opening fence, which ends in no blank. -/
theorem block_not_infix {lines : List Text} (hne : lines ≠ []) (hlines : ∀ l ∈ lines, '\n' ∉ l)
    (hword : ∀ c ∈ s.language.getD [], Text.isWord c = true) (content : Text) :
    ¬ s.block content ['\n'] <:+: Text.joinWith ['\r', '\n'] lines ++ ['\r', '\n'] := by
  rintro ⟨a, b, hab⟩
  obtain ⟨rest, hrest⟩ := exists_block_eq hword content ['\n']
  obtain ⟨last, hlast, hblank⟩ := exists_getLast_openingLine hword
  obtain ⟨start, hstart⟩ := List.getLast?_eq_some_iff.1 hlast
  rw [hrest, hstart, Text.joinWith_append_return hne] at hab
  have hreturn := Text.eq_return_of_append (t := a ++ start) (c := last) (u := rest ++ b) hlines
    (by rw [← hab]; simp) (by rintro rfl; exact absurd hblank (by decide))
  rw [hreturn] at hblank
  exact absurd hblank (by decide)

/-- **A document that is one block is written over by another block.** -/
theorem patch_block (hindent : '\n' ∉ s.indent) (hword : ∀ c ∈ s.language.getD [], Text.isWord c = true)
    (hnewline : newline ∈ newlines) (content : Text) :
    s.patch content (s.block s.content newline ++ newline) = s.block content newline ++ newline := by
  have hlines : ∀ l ∈ s.blockLines s.content, '\n' ∉ l := fun l hl => (line_of_mem_block hindent hword hl).1
  have hfound : s.newlineIn? (s.block s.content newline ++ newline) = some newline := by
    have hhere : s.block s.content newline <:+: s.block s.content newline ++ newline := ⟨[], newline, rfl⟩
    rcases List.mem_pair.1 hnewline with rfl | rfl
    · exact newlineIn?_of_infix hhere
    · have hbare := block_not_infix (blockLines_ne_nil s s.content) hlines hword s.content
      exact newlineIn?_of_infix_returns hbare hhere
  have hlong : newline.length < (s.block s.content newline).length := by
    obtain ⟨rest, hrest⟩ := exists_block_eq hword s.content newline
    rw [hrest, openingLine]
    simp only [List.length_append, Fence.marker, List.length_cons, List.length_nil]
    omega
  have hshort : ¬ s.block s.content newline <:+: newline := fun h => Nat.not_lt.2 h.length_le hlong
  have hne : s.block s.content newline ≠ [] := List.ne_nil_of_length_pos (Nat.zero_lt_of_lt hlong)
  rw [patch, hfound]
  dsimp only
  rw [Text.replaceAll_append hne, Text.replaceAll_eq_joinWith newline, Text.around_of_not_infix hshort]
  rfl

/-- What a block is read as, if it is all that a document consists of. -/
def reread (s : Sample) (content : Text) (file : Path) : Sample where
  file := file
  startLine := 1
  lineCount := (Text.tidyLines content).length
  column := s.indent.length + 1
  indent := s.indent
  language := s.language
  content := Text.unlines (Text.tidyLines content)

/-- **A document that is one block is read as one sample**, with what was written. -/
theorem findAll_block {text : Text} {document : Path} (hs : s ∈ findAll text document)
    (hnewline : newline ∈ newlines) (hfence : Fence.marker ∉ Text.tidyLines content)
    (hblank : [] ∉ Text.tidyLines content ∨ s.KeepsLead) (file : Path) :
    findAll (s.block content newline ++ newline) file = [s.reread content file] := by
  obtain ⟨fence, line, hopens, hindent, hlanguage⟩ := exists_fence hs
  have hword : ∀ c ∈ s.language.getD [], Text.isWord c = true := hlanguage ▸ hopens.language_isWord
  have hnewlines : ∀ l ∈ s.blockLines content, '\n' ∉ l ∧ l.getLast? ≠ some '\r' := fun l =>
    line_of_mem_block (newline_not_mem_indent hs) hword
  have hread : Fence.read? s.openingLine = some fence := by
    refine (Fence.read?_eq_some_iff ?_).2 ?_
    · exact (hnewlines _ (blockLines_tidyLines hword content ▸ List.mem_cons_self)).1
    · rw [openingLine, ← hindent, ← hlanguage]
      exact hopens.bare
  have hopening : Scan.outside.open? s.openingLine 0 = some (.inside fence 0 []) :=
    Option.map_eq_some_iff.2 ⟨fence, hread, rfl⟩
  have hclosing : fence.isClosedBy s.closingLine = true := by
    have h := Fence.isClosedBy_indent fence 0
    rwa [List.replicate_zero, List.append_nil, hindent] at h
  have hinside : ∀ l ∈ Text.tidyLines content,
      (fence.isClosedBy (s.contentLine l) = false ∧ fence.admits (s.contentLine l) = true) ∧
        (s.contentLine l).drop fence.indent.length = l := fun l hl =>
    contentLine_collected hindent hopens.lead (Text.trimEnd_of_mem_tidyLines hl)
      (ne_of_mem_of_not_mem hl hfence) fun hnil => hblank.resolve_left fun h => h (hnil ▸ hl)
  have hcontent : ((Text.tidyLines content).map s.contentLine).flatMap
      (fun line => line.drop fence.indent.length ++ ['\n']) = Text.unlines (Text.tidyLines content) := by
    rw [List.flatMap_map, Text.unlines]
    exact List.flatMap_congr fun l hl => by rw [(hinside l hl).2]
  rw [findAll, block, Text.documentLines_joinWith (blockLines_ne_nil s content)
    (fun l hl => (hnewlines l hl).1) (fun l hl => (hnewlines l hl).2) hnewline,
    blockLines_tidyLines hword, List.cons_append, scan_of_open? hopening]
  rw [scan_inside [] 0 (by simpa using fun l hl => (hinside l hl).1) hclosing [] _, List.nil_append, scan,
    ofBlock, hcontent, hindent, hlanguage, List.length_map]
  rfl

/-- **What is written is read back**, also from what a write-back makes of a document; and a content that
was read back comes back as it is. -/
theorem findAll_written {text : Text} {document : Path} (hs : s ∈ findAll text document)
    (hnewline : newline ∈ newlines) (hfence : Fence.marker ∉ Text.tidyLines content)
    (hblank : [] ∉ Text.tidyLines content ∨ s.KeepsLead) (file : Path) :
    findAll (s.block content newline ++ newline) file = [s.reread content file] ∧
      findAll (s.patch content (s.block s.content newline ++ newline)) file = [s.reread content file] ∧
      ∀ written, content = Text.unlines (Text.tidyLines written) →
        (s.reread content file).content = content := by
  obtain ⟨fence, line, hopens, -, hlanguage⟩ := exists_fence hs
  have hblock := findAll_block hs hnewline hfence hblank file
  refine ⟨hblock, ?_, ?_⟩
  · rw [patch_block (newline_not_mem_indent hs) (hlanguage ▸ hopens.language_isWord) hnewline]
    exact hblock
  · rintro written rfl
    show Text.unlines (Text.tidyLines (Text.unlines (Text.tidyLines written))) = _
    rw [Text.tidyLines_unlines]

/-- A quoted sample in a document with carriage returns, and a content with a blank line that has blanks
at its ends. -/
theorem findAll_written_quoted :
    let document : Path := .ofAbsolute ["a.md".toList]
    let s : Sample := ⟨document, 1, 1, 3, "> ".toList, some "ts".toList, "a\n".toList, none⟩
    let written : Sample := ⟨document, 1, 3, 3, "> ".toList, some "ts".toList, "b\n\nc\n".toList, none⟩
    s ∈ findAll "> ```ts\r\n> a\r\n> ```\r\n".toList document ∧
      s.block "b \n\t\nc\n\n".toList "\r\n".toList = "> ```ts\r\n> b\r\n>\r\n> c\r\n> ```".toList ∧
      findAll (s.block "b \n\t\nc\n\n".toList "\r\n".toList ++ "\r\n".toList) document = [written] := by
  intro document s written
  have hall : findAll "> ```ts\r\n> a\r\n> ```\r\n".toList document = [s] :=
    findAll_eq_of_scanWithin 4 (by decide +kernel)
  have hs : s ∈ findAll "> ```ts\r\n> a\r\n> ```\r\n".toList document :=
    hall ▸ List.mem_singleton_self s
  have hnewline : "\r\n".toList ∈ newlines := by decide +kernel
  have hfence : Fence.marker ∉ Text.tidyLines "b \n\t\nc\n\n".toList := by decide +kernel
  have hlead : s.KeepsLead := by
    have hlast : (s.indent.dropEndWhile Fence.isSpace).getLast? = some '>' := by decide +kernel
    intro c hc
    rw [hlast] at hc
    obtain rfl := Option.some.inj hc
    decide
  have hreread : s.reread "b \n\t\nc\n\n".toList document = written := by decide +kernel
  refine ⟨hs, by decide +kernel, ?_⟩
  rw [← hreread]
  exact (findAll_written hs hnewline hfence (.inr hlead) document).1

end Sample

end Fenceline
