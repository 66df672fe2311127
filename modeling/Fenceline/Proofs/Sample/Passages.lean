import Fenceline.Proofs.Sample.RoundTrip

/-!
# A document of passages is read back

A document is written passage by passage: some lines of text, or a block with a fence before and a fence
behind its lines. Before every line stands the same prefix, as in a quotation or a comment, and every line
has its line feed. Only three things are asked of a line (`Passage.Plain`): that it is one line, that it
does not end in a carriage return, and that no three backticks stand in it.

**The law** (`findAll_render`): the samples of such a document are its blocks, in their order, each with
the lines that it was written with, and its fences stand in the lines that the sample names.

**What it does not establish.** That a document whose lines hold backticks is read so: a line of text that
ends in a fence begins a block, and behind it the passages are read in another way.
-/

namespace Fenceline

/-- A passage of a document: lines of text, or the lines of a block and the name of their language. -/
inductive Passage where
  | text (lines : List Text)
  | block (language : Text) (lines : List Text)
  deriving DecidableEq, Repr

namespace Passage

/-- **A line that may stand in a passage.** -/
structure Plain (line : Text) : Prop where
  single : '\n' ∉ line
  ending : line.getLast? ≠ some '\r'
  unfenced : ¬ Fence.marker <:+: line

instance (line : Text) : Decidable (Plain line) :=
  decidable_of_iff ('\n' ∉ line ∧ line.getLast? ≠ some '\r' ∧ ¬ Text.occursIn Fence.marker line = true)
    ⟨fun ⟨hsingle, hending, hunfenced⟩ => ⟨hsingle, hending, fun h => hunfenced (Text.occursIn_iff.2 h)⟩,
      fun h => ⟨h.single, h.ending, fun hin => h.unfenced (Text.occursIn_iff.1 hin)⟩⟩

/-- A passage that may stand in a document. -/
def WellFormed : Passage → Prop
  | text lines => ∀ l ∈ lines, Plain l
  | block language lines => (∀ c ∈ language, Text.isWord c = true) ∧ ∀ l ∈ lines, Plain l

instance : (passage : Passage) → Decidable passage.WellFormed
  | text lines => List.decidableBAll Plain lines
  | block language lines =>
    @instDecidableAnd _ _ (List.decidableBAll (Text.isWord · = true) language) (List.decidableBAll Plain lines)

/-- What may stand before every line of a document. -/
structure IsPrefix (p : Text) : Prop where
  newline : '\n' ∉ p
  carriageReturn : '\r' ∉ p
  backtick : '\x60' ∉ p

/-- The lines of a passage, each behind a prefix. -/
def rendered (p : Text) : Passage → List Text
  | text lines => lines.map (p ++ ·)
  | block language lines =>
    (p ++ (Fence.marker ++ language)) :: (lines.map (p ++ ·) ++ [p ++ Fence.marker])

/-- A document of passages. -/
def render (p : Text) (passages : List Passage) : Text :=
  Text.unlines (passages.flatMap (rendered p))

/-- What the opening fence of a block says about its language. -/
def languageOf (language : Text) : Option Text :=
  if language = [] then none else some language

/-- The samples of passages that begin at line `first` of a document, counted from one. -/
def samplesFrom (file : Path) (p : Text) : Nat → List Passage → List Sample
  | _, [] => []
  | first, text lines :: rest => samplesFrom file p (first + lines.length) rest
  | first, block language lines :: rest =>
    { file := file
      startLine := first
      lineCount := lines.length
      column := p.length + 1
      indent := p
      language := languageOf language
      content := Text.unlines lines } ::
      samplesFrom file p (first + lines.length + 2) rest

variable {file : Path} {p line language : Text} {lines rest : List Text} {passages : List Passage}

/-! ## Lines of a document of passages -/

/-- Three backticks behind a prefix without any stand behind the prefix. -/
theorem marker_infix_of_append (hp : '\x60' ∉ p) (h : Fence.marker <:+: p ++ line) :
    Fence.marker <:+: line := by
  induction p with
  | nil => exact h
  | cons c p ih =>
    obtain ⟨hc, hp⟩ := not_or.1 (List.mem_cons.not.1 hp)
    rcases List.infix_cons_iff.1 h with hfirst | hbehind
    · exact absurd (List.cons_prefix_cons.1 hfirst).1 hc
    · exact ih hp hbehind

/-- A line that opens a block or closes one holds three backticks. -/
theorem marker_infix_of_opens {fence : Fence} (h : fence.Opens line) : Fence.marker <:+: line := by
  obtain ⟨word, spaces, -, -, -, rfl⟩ := h.parts
  exact ⟨fence.indent, word ++ spaces, List.append_assoc ..⟩

theorem marker_infix_of_closes {fence : Fence} (h : fence.Closes line) : Fence.marker <:+: line := by
  obtain ⟨n, rfl⟩ := h
  exact ⟨fence.indent, List.replicate n ' ', rfl⟩

/-- **A line of a document of passages is one line**, and no carriage return ends it. -/
theorem line_of_mem_rendered {passage : Passage} (hp : IsPrefix p) (hpassage : passage.WellFormed)
    (hline : line ∈ passage.rendered p) : '\n' ∉ line ∧ line.getLast? ≠ some '\r' := by
  have hplain : ∀ l, Plain l → '\n' ∉ p ++ l ∧ (p ++ l).getLast? ≠ some '\r' := by
    intro l hl
    refine ⟨List.mem_append.not.2 (not_or.2 ⟨hp.newline, hl.single⟩), fun hlast => ?_⟩
    rw [List.getLast?_append] at hlast
    rcases Option.or_eq_some_iff.1 hlast with hlast | ⟨-, hlast⟩
    · exact hl.ending hlast
    · exact hp.carriageReturn (List.mem_of_getLast? hlast)
  have hfence : ∀ language : Text, (∀ c ∈ language, Text.isWord c = true) →
      '\n' ∉ p ++ (Fence.marker ++ language) ∧
        (p ++ (Fence.marker ++ language)).getLast? ≠ some '\r' := by
    intro language hword
    have hblank : ∀ c, Text.isBlank c = true → c ∉ language := fun c hc hmem => by
      rw [Text.isBlank_of_isWord (hword c hmem)] at hc
      cases hc
    refine ⟨?_, fun hlast => ?_⟩
    · simp only [List.mem_append, not_or]
      exact ⟨hp.newline, by decide, hblank '\n' (by decide)⟩
    · have hmem := List.mem_of_getLast? hlast
      simp only [List.mem_append] at hmem
      rcases hmem with hmem | hmem | hmem
      · exact hp.carriageReturn hmem
      · exact absurd hmem (by decide)
      · exact hblank '\r' (by decide) hmem
  cases passage with
  | text lines =>
    obtain ⟨l, hl, rfl⟩ := List.mem_map.1 hline
    exact hplain l (hpassage l hl)
  | block language lines =>
    obtain ⟨hword, hlines⟩ := hpassage
    rcases List.mem_cons.1 hline with rfl | hline
    · exact hfence language hword
    rcases List.mem_append.1 hline with hline | hline
    · obtain ⟨l, hl, rfl⟩ := List.mem_map.1 hline
      exact hplain l (hlines l hl)
    · rw [List.mem_singleton.1 hline]
      simpa using hfence [] (List.forall_mem_nil _)

/-- **The lines of a document of passages are those that were written.** -/
theorem documentLines_render (hp : IsPrefix p) (hpassages : ∀ q ∈ passages, q.WellFormed) :
    (render p passages).documentLines = passages.flatMap (rendered p) := by
  have hlines : ∀ l ∈ passages.flatMap (rendered p), '\n' ∉ l ∧ l.getLast? ≠ some '\r' := by
    intro l hl
    obtain ⟨passage, hpassage, hl⟩ := List.mem_flatMap.1 hl
    exact line_of_mem_rendered hp (hpassages passage hpassage) hl
  rw [render, Text.documentLines_unlines fun l hl => (hlines l hl).1]
  have hkept := List.map_congr_left fun l hl => Text.dropReturn_of_getLast? (hlines l hl).2
  exact hkept.trans (List.map_id _)

/-! ## Reading passage by passage -/

/-- The fence that opens a block. -/
def fenceOf (p language : Text) : Fence :=
  ⟨p, p.dropEndWhile Fence.isSpace, languageOf language⟩

/-- A line of text opens no fence. -/
theorem read?_plain (hp : IsPrefix p) (hline : Plain line) : Fence.read? (p ++ line) = none := by
  have hsingle : '\n' ∉ p ++ line := List.mem_append.not.2 (not_or.2 ⟨hp.newline, hline.single⟩)
  refine Option.eq_none_iff_forall_ne_some.2 fun fence hread => ?_
  have hopens := (Fence.read?_eq_some_iff hsingle).1 hread
  exact hline.unfenced (marker_infix_of_append hp.backtick (marker_infix_of_opens hopens))

/-- A block's first line opens its fence. -/
theorem read?_fence (hp : IsPrefix p) (hword : ∀ c ∈ language, Text.isWord c = true) :
    Fence.read? (p ++ (Fence.marker ++ language)) = some (fenceOf p language) := by
  have hline : p ++ (Fence.marker ++ language) ∈ (block language []).rendered p := List.mem_cons_self
  have hwell : (block language []).WellFormed := ⟨hword, List.forall_mem_nil _⟩
  apply (Fence.read?_eq_some_iff (line_of_mem_rendered hp hwell hline).1).2
  refine ⟨⟨language, [], hword, List.forall_mem_nil _, rfl, ?_⟩, rfl⟩
  rw [List.append_nil]
  rfl

/-- A line of a block is collected, and it closes nothing. -/
theorem admits_plain (hp : IsPrefix p) (hline : Plain line) (language : Text) :
    (fenceOf p language).isClosedBy (p ++ line) = false ∧
      (fenceOf p language).admits (p ++ line) = true := by
  constructor
  · refine Bool.eq_false_iff.2 fun hclosed => ?_
    have hcloses := Fence.isClosedBy_iff.1 hclosed
    exact hline.unfenced (marker_infix_of_append hp.backtick (marker_infix_of_closes hcloses))
  · apply List.isPrefixOf_iff_prefix.2
    exact (Text.dropEndWhile_isPrefix _ _).trans (List.prefix_append p line)

/-- What a sample keeps of a block's lines is what stands behind the prefix. -/
theorem content_of_rendered (p : Text) (lines : List Text) :
    (lines.map (p ++ ·)).flatMap (fun line => line.drop p.length ++ ['\n']) = Text.unlines lines := by
  rw [List.flatMap_map, Text.unlines]
  exact List.flatMap_congr fun line _ => by rw [List.drop_left]

/-- Lines of text are read over. -/
theorem scan_text (hp : IsPrefix p) (hlines : ∀ l ∈ lines, Plain l) (index : Int) (rest : List Text) :
    Sample.scan file .outside index (lines.map (p ++ ·) ++ rest) =
      Sample.scan file .outside (index + lines.length) rest := by
  induction lines generalizing index with
  | nil =>
    show Sample.scan file .outside index rest = Sample.scan file .outside (index + (0 : Nat)) rest
    rw [Int.natCast_zero, Int.add_zero]
  | cons line lines ih =>
    obtain ⟨hline, hlines⟩ := List.forall_mem_cons.1 hlines
    have hnext : index + 1 + lines.length = index + (line :: lines).length := by
      rw [List.length_cons]
      push_cast
      omega
    rw [List.map_cons, List.cons_append, Sample.scan, read?_plain hp hline]
    show Sample.scan file .outside (index + 1) (lines.map (p ++ ·) ++ rest) = _
    rw [ih hlines, hnext]

/-- **A block is read as one sample**, and reading goes on behind it. -/
theorem scan_block (hp : IsPrefix p) (hword : ∀ c ∈ language, Text.isWord c = true)
    (hlines : ∀ l ∈ lines, Plain l) (index : Int) (rest : List Text) :
    Sample.scan file .outside index ((block language lines).rendered p ++ rest) =
      Sample.ofBlock file (fenceOf p language) index (lines.map (p ++ ·)) ::
        Sample.scan file .outside (index + lines.length + 2) rest := by
  have hinside : ∀ l ∈ lines.map (p ++ ·),
      (fenceOf p language).isClosedBy l = false ∧ (fenceOf p language).admits l = true := by
    intro l hl
    obtain ⟨line, hline, rfl⟩ := List.mem_map.1 hl
    exact admits_plain hp (hlines line hline) language
  have hclosing : (fenceOf p language).isClosedBy (p ++ Fence.marker) = true := by
    have h := Fence.isClosedBy_indent (fenceOf p language) 0
    rwa [List.replicate_zero, List.append_nil] at h
  have hnext : index + 1 + (lines.map (p ++ ·)).length + 1 = index + lines.length + 2 := by
    rw [List.length_map]
    omega
  have hopening : Scan.outside.open? (p ++ (Fence.marker ++ language)) index =
      some (.inside (fenceOf p language) index []) :=
    Option.map_eq_some_iff.2 ⟨_, read?_fence hp hword, rfl⟩
  rw [rendered, List.cons_append, List.append_assoc, Sample.scan_of_open? hopening]
  show Sample.scan file (.inside (fenceOf p language) index []) (index + 1)
    (lines.map (p ++ ·) ++ (p ++ Fence.marker) :: rest) = _
  rw [Sample.scan_inside rest index hinside hclosing, hnext, List.nil_append]

/-- **From any line on, what is read are the samples of the passages that stand there.** -/
theorem scan_rendered (hp : IsPrefix p) (hpassages : ∀ q ∈ passages, q.WellFormed) (n : Nat) :
    Sample.scan file .outside n (passages.flatMap (rendered p)) = samplesFrom file p (n + 1) passages := by
  induction passages generalizing n with
  | nil =>
    rw [List.flatMap_nil, Sample.scan]
    rfl
  | cons passage passages ih =>
    obtain ⟨hpassage, hbehind⟩ := List.forall_mem_cons.1 hpassages
    rw [List.flatMap_cons]
    cases passage with
    | text lines =>
      have hrest := ih hbehind (n + lines.length)
      rw [rendered, scan_text hp hpassage, ← Int.natCast_add, hrest, samplesFrom, Nat.add_right_comm]
    | block language lines =>
      have hrest := ih hbehind (n + lines.length + 2)
      have hline : n + lines.length + 2 + 1 = n + 1 + lines.length + 2 := by omega
      have hsample : Sample.ofBlock file (fenceOf p language) n (lines.map (p ++ ·)) =
          { file := file
            startLine := (n + 1 : Nat)
            lineCount := lines.length
            column := p.length + 1
            indent := p
            language := languageOf language
            content := Text.unlines lines } := by
        rw [Sample.ofBlock, fenceOf, content_of_rendered, List.length_map]
        rfl
      rw [scan_block hp hpassage.1 hpassage.2, hsample, samplesFrom, ← hline, ← hrest]
      rfl

/-! ## Where the fences stand -/

/-- **The fences of a sample stand in the lines that it names**, counted from one. -/
structure Stands (doc : List Text) (s : Sample) : Prop where
  opening : ∃ n : Nat, s.startLine = n + 1 ∧ doc[n]? = some s.openingLine
  closing : ∃ n : Nat, s.endLine = n + 1 ∧ doc[n]? = some s.closingLine

/-- A block stands where it was written. -/
theorem stands_of_mem_samplesFrom {s : Sample} (before : List Text)
    (hs : s ∈ samplesFrom file p (before.length + 1) passages) :
    Stands (before ++ passages.flatMap (rendered p)) s := by
  induction passages generalizing before with
  | nil => cases hs
  | cons passage passages ih =>
    have hrest : ∀ n, (before ++ passage.rendered p).length + 1 = n →
        s ∈ samplesFrom file p n passages →
        Stands (before ++ (passage :: passages).flatMap (rendered p)) s := by
      rintro _ rfl hs
      rw [List.flatMap_cons, ← List.append_assoc]
      exact ih _ hs
    cases passage with
    | text lines =>
      apply hrest _ _ hs
      rw [List.length_append, rendered, List.length_map]
      omega
    | block language lines =>
      rcases List.mem_cons.1 hs with rfl | hs
      · have hlanguage : (languageOf language).getD [] = language := by
          by_cases hempty : language = []
          · rw [languageOf, if_pos hempty, hempty]
            rfl
          · rw [languageOf, if_neg hempty]
            rfl
        rw [List.flatMap_cons]
        refine ⟨⟨before.length, rfl, ?_⟩, ⟨before.length + lines.length + 1, ?_, ?_⟩⟩
        · rw [List.getElem?_append_right le_rfl, Nat.sub_self, Sample.openingLine, hlanguage]
          rfl
        · show ((before.length + 1 : Nat) : Int) + lines.length + 1 = _
          push_cast
          omega
        · rw [Nat.add_assoc, List.getElem?_append_right (Nat.le_add_right ..), Nat.add_sub_cancel_left,
            rendered, List.cons_append, List.getElem?_cons_succ, List.append_assoc,
            List.getElem?_append_right (by rw [List.length_map]), List.length_map, Nat.sub_self]
          rfl
      · apply hrest _ _ hs
        rw [List.length_append, rendered, List.length_cons, List.length_append, List.length_map,
          List.length_singleton]
        omega

/-! ## The whole document -/

/-- **The samples of a document of passages are its blocks**, in their order, each with the lines that it
was written with; and its fences stand in the lines that the sample names. -/
theorem findAll_render (hp : IsPrefix p) (hpassages : ∀ q ∈ passages, q.WellFormed) (file : Path) :
    Sample.findAll (render p passages) file = samplesFrom file p 1 passages ∧
      ∀ s ∈ Sample.findAll (render p passages) file, Stands (render p passages).documentLines s := by
  have hfound : Sample.findAll (render p passages) file = samplesFrom file p 1 passages := by
    rw [Sample.findAll, documentLines_render hp hpassages]
    exact scan_rendered hp hpassages 0
  refine ⟨hfound, fun s hs => ?_⟩
  rw [hfound] at hs
  rw [documentLines_render hp hpassages]
  exact stands_of_mem_samplesFrom [] hs

/-- A comment with a line of text, a block with an empty line, and an empty block without a language. -/
theorem findAll_render_comment :
    let document : Path := .ofAbsolute ["a.ts".toList]
    let p : Text := " * ".toList
    let passages := [text ["``".toList], block "ts".toList ["a".toList, []], text [], block [] []]
    let first : Sample := ⟨document, 2, 2, 4, p, some "ts".toList, "a\n\n".toList, none⟩
    let second : Sample := ⟨document, 6, 0, 4, p, none, [], none⟩
    IsPrefix p ∧ (∀ q ∈ passages, q.WellFormed) ∧
      render p passages = " * ``\n * ```ts\n * a\n * \n * ```\n * ```\n * ```\n".toList ∧
      Sample.findAll (render p passages) document = [first, second] ∧
      first.endLine = 5 ∧ second.endLine = 7 := by
  intro document p passages first second
  have hp : IsPrefix p := ⟨by decide +kernel, by decide +kernel, by decide +kernel⟩
  have hpassages : ∀ q ∈ passages, q.WellFormed := by decide +kernel
  have hsamples : samplesFrom document p 1 passages = [first, second] := by decide +kernel
  refine ⟨hp, hpassages, by decide +kernel, ?_, rfl, rfl⟩
  rw [← hsamples]
  exact (findAll_render hp hpassages document).1

end Passage

end Fenceline
