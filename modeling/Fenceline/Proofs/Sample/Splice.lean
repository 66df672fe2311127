import Fenceline.Proofs.Sample.Blocks
import Fenceline.Proofs.Text.Replace
import Fenceline.Proofs.Text.Trim
import Fenceline.Sample.Block
import Mathlib.Data.List.Basic

/-!
# Patching a document against putting a block in a sample's lines

A sample knows the lines that it was found at. Patching a document does not look at them: it looks for
the block that the sample's content is rendered to and puts the new block in place wherever that stands.
Putting the new block in the sample's own lines is what is meant (`Sample.splice`).

**The law** (`patch_eq_splice_iff`): the two agree on every new content just if the rendered block cuts
the document into what is above the sample's lines and what is below them.

**What it does not establish.** That a block does so: a block with blanks at the end of a line is rendered
without them and is not found, and one that stands in the document twice is patched twice
(`patch_misplaced`).
-/

namespace Fenceline

namespace Text

/-- **No line ends in a carriage return.** -/
def LfOnly (t : Text) : Prop :=
  ∀ piece ∈ t.cutAt '\n', piece.getLast? ≠ some '\r'

instance (t : Text) : Decidable t.LfOnly :=
  List.decidableBAll _ _

theorem exists_mem_cutAt_return (t : Text) :
    ∃ piece ∈ cutAt '\n' (t ++ ['\r']), piece.getLast? = some '\r' := by
  induction t with
  | nil => exact ⟨['\r'], List.mem_singleton_self _, rfl⟩
  | cons x t ih =>
    obtain ⟨piece, hpiece, hlast⟩ := ih
    rw [List.cons_append]
    rcases cutAt_cons '\n' x (t ++ ['\r']) with ⟨_, hcut⟩ | ⟨p, ps, _, hrest, hcut⟩
    · exact ⟨piece, hcut ▸ List.mem_cons_of_mem _ hpiece, hlast⟩
    · rw [hrest] at hpiece
      rw [hcut]
      rcases List.mem_cons.1 hpiece with rfl | hpiece
      · refine ⟨x :: piece, List.mem_cons_self, ?_⟩
        rw [List.getLast?_cons, hlast]
        rfl
      · exact ⟨piece, List.mem_cons_of_mem _ hpiece, hlast⟩

/-- A text whose lines end in line feeds only holds no other end of a line. -/
theorem LfOnly.not_infix {t : Text} (h : t.LfOnly) : ¬ ['\r', '\n'] <:+: t := by
  rintro ⟨a, b, rfl⟩
  have hcut : cutAt '\n' (a ++ ['\r', '\n'] ++ b) = cutAt '\n' (a ++ ['\r']) ++ cutAt '\n' b := by
    rw [← cutAt_append_sep, List.append_assoc, List.append_assoc]
    rfl
  obtain ⟨piece, hpiece, hlast⟩ := exists_mem_cutAt_return a
  exact h piece (hcut ▸ List.mem_append_left _ hpiece) hlast

/-- Lines between other lines, as they stand in a text. -/
theorem joinWith_append_append (above below : List Text) {lines : List Text} (hne : lines ≠ []) :
    joinWith ['\n'] (above ++ lines ++ below) =
      unlines above ++ joinWith ['\n'] lines ++ below.flatMap ('\n' :: ·) := by
  have hbelow : joinWith ['\n'] (lines ++ below) =
      joinWith ['\n'] lines ++ below.flatMap ('\n' :: ·) := by
    induction below generalizing lines with
    | nil => simp
    | cons b below ih =>
      have hmore : joinWith ['\n'] (lines ++ [b] ++ below) =
          joinWith ['\n'] (lines ++ [b]) ++ below.flatMap ('\n' :: ·) := ih (by simp)
      rw [List.append_assoc, List.singleton_append] at hmore
      rw [hmore, joinWith_concat hne]
      simp
  induction above with
  | nil => exact hbelow
  | cons a above ih =>
    obtain ⟨b, rest, hrest⟩ : ∃ b rest, above ++ lines ++ below = b :: rest :=
      List.exists_cons_of_ne_nil (by simp [hne])
    rw [List.cons_append, List.cons_append, hrest, joinWith_cons_cons, ← hrest, ih]
    simp [unlines]

/-- A text with a long line behind its first line feed stands at one place only, if the texts before it
are short. -/
theorem length_eq_of_append {p q a b h w x : Text} (hw : '\n' ∉ w) (hp : p.length ≤ w.length)
    (ha : a.length ≤ w.length)
    (heq : p ++ (h ++ '\n' :: (w ++ x)) ++ q = a ++ (h ++ '\n' :: (w ++ x)) ++ b) :
    p.length = a.length := by
  -- the line feed of the later one would stand inside the long line of the earlier one
  have hearlier : ∀ {p q a b : Text}, a.length ≤ w.length →
      p ++ (h ++ '\n' :: (w ++ x)) ++ q = a ++ (h ++ '\n' :: (w ++ x)) ++ b →
      ¬ p.length < a.length := by
    intro p q a b ha heq hlt
    have hright : (a ++ (h ++ '\n' :: (w ++ x)) ++ b)[a.length + h.length]? = some '\n' := by
      simp
    have hindex : a.length + h.length = p.length + (h.length + (1 + (a.length - p.length - 1))) := by
      omega
    have hleft : (p ++ (h ++ '\n' :: (w ++ x)) ++ q)[a.length + h.length]? =
        w[a.length - p.length - 1]? := by
      rw [hindex, List.append_assoc, List.getElem?_append_right (by omega), List.append_assoc,
        Nat.add_sub_cancel_left, List.getElem?_append_right (by omega), Nat.add_sub_cancel_left,
        List.cons_append, Nat.add_comm 1, List.getElem?_cons_succ, List.append_assoc,
        List.getElem?_append_left (by omega)]
    rw [heq, hright] at hleft
    exact hw (List.mem_of_getElem? hleft.symm)
  have hfirst := hearlier ha heq
  have hsecond := hearlier hp heq.symm
  omega

end Text

namespace Sample

/-- Lines with other ones in the place of a sample's lines. -/
def spliceInto (s : Sample) (lines block : List Text) : List Text :=
  lines.take (s.startLine - 1).toNat ++ block ++ lines.drop s.endLine.toNat

/-- **The text with a block in the place of a sample's lines.** -/
def splice (s : Sample) (text block : Text) : Text :=
  Text.joinWith ['\n'] (s.spliceInto (text.cutAt '\n') (block.cutAt '\n'))

/-- The lines of a text above a sample, with their line feeds. -/
def above (s : Sample) (text : Text) : Text :=
  Text.unlines ((text.cutAt '\n').take (s.startLine - 1).toNat)

/-- The lines of a text below a sample, with the line feeds before them. -/
def below (s : Sample) (text : Text) : Text :=
  ((text.cutAt '\n').drop s.endLine.toNat).flatMap ('\n' :: ·)

/-- Nothing above the sample's lines and nothing below them changes. -/
theorem splice_eq (s : Sample) (text block : Text) :
    s.splice text block = s.above text ++ block ++ s.below text := by
  rw [splice, spliceInto, Text.joinWith_append_append _ _ (Text.cutAt_ne_nil '\n' block),
    Text.joinWith_cutAt]
  rfl

theorem blockLines_eq (s : Sample) (content : Text) :
    ∃ first second rest, s.blockLines content = first :: second :: rest := by
  obtain ⟨second, rest, hrest⟩ : ∃ second rest,
      (((Text.trimEnd content).cutAt '\n') ++ [Fence.marker]).map
        (fun line => Text.trimEnd (s.indent ++ line)) = second :: rest :=
    List.exists_cons_of_ne_nil (by simp)
  exact ⟨_, second, rest, by rw [← hrest]; rfl⟩

theorem newline_infix_block (s : Sample) (content newline : Text) :
    newline <:+: s.block content newline := by
  obtain ⟨first, second, rest, hlines⟩ := blockLines_eq s content
  rw [block, hlines, Text.joinWith_cons_cons]
  exact ⟨first, _, rfl⟩

theorem block_ne_nil (s : Sample) (content : Text) : s.block content ['\n'] ≠ [] := by
  intro hnil
  obtain ⟨a, b, hab⟩ := newline_infix_block s content ['\n']
  rw [hnil] at hab
  simp at hab

/-- A block is found with bare line feeds first. -/
theorem newlineIn?_of_infix {s : Sample} {text : Text} (h : s.block s.content ['\n'] <:+: text) :
    s.newlineIn? text = some ['\n'] :=
  List.find?_cons_of_pos (Text.occursIn_iff.2 h)

/-- A block that does not stand there with bare line feeds is found with carriage returns. -/
theorem newlineIn?_of_infix_returns {s : Sample} {text : Text} (hbare : ¬ s.block s.content ['\n'] <:+: text)
    (h : s.block s.content ['\r', '\n'] <:+: text) : s.newlineIn? text = some ['\r', '\n'] := by
  rw [newlineIn?, newlines, List.find?_cons_of_neg (by rwa [Text.occursIn_iff])]
  exact List.find?_cons_of_pos (Text.occursIn_iff.2 h)

/-- A block that stands there in neither way is not found. -/
theorem newlineIn?_of_not_infix {s : Sample} {text : Text} (hbare : ¬ s.block s.content ['\n'] <:+: text)
    (h : ¬ s.block s.content ['\r', '\n'] <:+: text) : s.newlineIn? text = none := by
  rw [newlineIn?, newlines, List.find?_cons_of_neg (by rwa [Text.occursIn_iff]),
    List.find?_cons_of_neg (by rwa [Text.occursIn_iff]), List.find?_nil]

/-- In a text whose lines end in line feeds, patching is replacing one block by another. -/
theorem patch_eq_joinWith {text : Text} (hlf : text.LfOnly) (s : Sample) (content : Text) :
    s.patch content text =
      Text.joinWith (s.block content ['\n']) (Text.around (s.block s.content ['\n']) text) := by
  have hother : ¬ s.block s.content ['\r', '\n'] <:+: text := fun h =>
    hlf.not_infix ((newline_infix_block s s.content _).trans h)
  by_cases hfound : s.block s.content ['\n'] <:+: text
  · rw [patch, newlineIn?_of_infix hfound]
    exact Text.replaceAll_eq_joinWith _ _ _
  · rw [patch, newlineIn?_of_not_infix hfound hother, Text.around_of_not_infix hfound]
    rfl

/-- Blocks of contents of one line differ in this line. -/
theorem block_line (s : Sample) :
    ∃ first last, ∀ n, s.block (List.replicate (n + 1) 'z') ['\n'] =
      first ++ '\n' :: ((s.indent ++ List.replicate (n + 1) 'z') ++ last) := by
  refine ⟨Text.trimEnd (s.indent ++ (Fence.marker ++ s.language.getD [])),
    '\n' :: Text.trimEnd (s.indent ++ Fence.marker), fun n => ?_⟩
  have hlast : ∀ t : Text, (t ++ List.replicate (n + 1) 'z').getLast? = some 'z' := fun t => by
    rw [List.replicate_succ', ← List.append_assoc, List.getLast?_concat]
  have htrim : Text.trimEnd (List.replicate (n + 1) 'z') = List.replicate (n + 1) 'z' :=
    Text.trimEnd_of_getLast? (hlast []) (by decide)
  have hcut : Text.cutAt '\n' (List.replicate (n + 1) 'z') = [List.replicate (n + 1) 'z'] :=
    Text.cutAt_of_not_mem fun h => absurd (List.eq_of_mem_replicate h) (by decide)
  have hline : Text.trimEnd (s.indent ++ List.replicate (n + 1) 'z') =
      s.indent ++ List.replicate (n + 1) 'z' := Text.trimEnd_of_getLast? (hlast s.indent) (by decide)
  rw [block, blockLines, htrim, hcut]
  simp only [List.cons_append, List.nil_append, List.map_cons, List.map_nil, hline, Text.joinWith,
    List.append_assoc]

/-- A sample's indent stands in one line of its document: the closing fence repeats it. -/
theorem exists_line_of_indent {text : Text} {document : Path} {s : Sample} (hs : s ∈ findAll text document) :
    ∃ line ∈ text.documentLines, s.indent <+: line := by
  obtain ⟨n, fence, lines, ⟨closing, rest, hbegun, hclosed⟩, rfl⟩ := isBlock_of_mem_findAll hs
  refine ⟨closing, ?_, ?_⟩
  · have hdrop : closing ∈ text.documentLines.drop (n + 1) := by
      rw [hbegun.behind]
      exact List.mem_append_right _ List.mem_cons_self
    exact List.mem_of_mem_drop hdrop
  · rw [Fence.isClosedBy, beq_iff_eq] at hclosed
    exact (hclosed ▸ List.prefix_append _ _ : fence.indent <+: closing.dropEndWhile _).trans
      (Text.dropEndWhile_isPrefix _ _)

theorem newline_not_mem_indent {text : Text} {document : Path} {s : Sample}
    (hs : s ∈ findAll text document) : '\n' ∉ s.indent := by
  obtain ⟨line, hline, hindent⟩ := exists_line_of_indent hs
  obtain ⟨i, hi⟩ := List.mem_iff_getElem?.1 hline
  exact fun h => Text.newline_not_mem_documentLines hi (hindent.subset h)

theorem length_above_le (s : Sample) (text : Text) : (s.above text).length ≤ text.length + 1 := by
  have hall : Text.unlines (text.cutAt '\n') = text ++ ['\n'] := by
    rw [Text.unlines, ← Text.joinWith_append_end (Text.cutAt_ne_nil '\n' text), Text.joinWith_cutAt]
  have hlines : Text.unlines (text.cutAt '\n') =
      s.above text ++ Text.unlines ((text.cutAt '\n').drop (s.startLine - 1).toNat) := by
    rw [above, Text.unlines, Text.unlines, Text.unlines, ← List.flatMap_append, List.take_append_drop]
  have hlength := congrArg List.length (hall.symm.trans hlines)
  simp only [List.length_append, List.length_cons, List.length_nil] at hlength
  omega

/-- Pieces that blocks of every length join to a text with one block in it are two. -/
theorem length_eq_two_of_joinWith {s : Sample} {above below : Text} {pieces : List Text}
    (hne : pieces ≠ [])
    (h : ∀ content, Text.joinWith (s.block content ['\n']) pieces =
      above ++ s.block content ['\n'] ++ below) : pieces.length = 2 := by
  obtain ⟨first, last, hblock⟩ := block_line s
  have hlength : ∀ n, (s.block (List.replicate (n + 1) 'z') ['\n']).length =
      (s.block (List.replicate 1 'z') ['\n']).length + n := fun n => by
    rw [hblock n, hblock 0]
    simp only [List.length_append, List.length_cons, List.length_replicate]
    omega
  have hshort := Text.length_joinWith (s.block (List.replicate 1 'z') ['\n']) hne
  have hlong := Text.length_joinWith (s.block (List.replicate 2 'z') ['\n']) hne
  rw [h] at hshort hlong
  simp only [List.length_append, hlength 1, Nat.mul_add, Nat.mul_one] at hshort hlong
  omega

/-- **Patching puts every new block in the sample's lines** just if the sample's block cuts the document
into what is above these lines and what is below them. -/
theorem patch_eq_splice_iff {text : Text} {document : Path} {s : Sample}
    (hs : s ∈ findAll text document) (hlf : text.LfOnly) :
    (∀ content, s.patch content text = s.splice text (s.block content ['\n'])) ↔
      Text.around (s.block s.content ['\n']) text = [s.above text, s.below text] := by
  simp only [patch_eq_joinWith hlf, splice_eq]
  constructor
  · intro hall
    have hne := Text.around_ne_nil (s.block s.content ['\n']) text
    obtain ⟨p, q, hpieces⟩ := List.length_eq_two.1 (length_eq_two_of_joinWith hne hall)
    have htext := congrArg List.length (Text.joinWith_around (s.block s.content ['\n']) text)
    rw [hpieces] at hall htext ⊢
    simp only [Text.joinWith, List.length_append] at htext
    -- a line longer than the document tells where the block is put
    obtain ⟨first, last, hblock⟩ := block_line s
    have hplace := hall (List.replicate (text.length + 1 + 1) 'z')
    simp only [Text.joinWith, hblock] at hplace
    have hlong : '\n' ∉ s.indent ++ List.replicate (text.length + 1 + 1) 'z' := by
      rw [List.mem_append, not_or]
      exact ⟨newline_not_mem_indent hs, fun h => absurd (List.eq_of_mem_replicate h) (by decide)⟩
    have habove := length_above_le s text
    have hlength : p.length = (s.above text).length := by
      apply Text.length_eq_of_append hlong _ _ hplace
      · simp only [List.length_append, List.length_replicate]
        omega
      · simp only [List.length_append, List.length_replicate]
        omega
    obtain ⟨hbefore, rfl⟩ := List.append_inj' hplace (by
      have htotal := congrArg List.length hplace
      simp only [List.length_append] at htotal
      omega)
    rw [List.append_cancel_right hbefore]
  · intro hcut content
    rw [hcut]
    rfl

/-- A sample in a comment, with a bare line, is patched in its own lines. -/
theorem patch_eq_splice_comment :
    let text : Text := "/**\n * ```ts\n * a\n *\n * b\n * ```\n */\n".toList
    let document : Path := .ofAbsolute ["a.ts".toList]
    let s : Sample := ⟨document, 2, 3, 4, " * ".toList, some "ts".toList, "a\n\nb\n".toList, none⟩
    s ∈ findAll text document ∧ text.LfOnly ∧
      ∀ content, s.patch content text = s.splice text (s.block content ['\n']) := by
  intro text document s
  have hall : findAll text document = [s] := findAll_eq_of_scanWithin 8 (by decide +kernel)
  have hs : s ∈ findAll text document := by simp [hall]
  have hlf : text.LfOnly := by decide +kernel
  exact ⟨hs, hlf, (patch_eq_splice_iff hs hlf).2 (by decide +kernel)⟩

/-- Two samples that are not patched in their own lines: one with a blank at the end of a line stays as it
is, and with one that stands in the document twice the second one changes too. -/
theorem patch_misplaced :
    let document : Path := .ofAbsolute ["a.md".toList]
    let s (content : Text) : Sample := ⟨document, 1, 1, 1, [], some "ts".toList, content, none⟩
    let blank : Text := "```ts\nx \n```\n".toList
    let twice : Text := "```ts\nx\n```\n```ts\nx\n```\n".toList
    let new : Text := "y\n".toList
    (s "x \n".toList ∈ findAll blank document ∧ blank.LfOnly ∧
        (s "x \n".toList).patch new blank = blank ∧
        (s "x \n".toList).splice blank ((s "x \n".toList).block new ['\n']) =
          "```ts\ny\n```\n".toList) ∧
      s "x\n".toList ∈ findAll twice document ∧ twice.LfOnly ∧
        (s "x\n".toList).patch new twice = "```ts\ny\n```\n```ts\ny\n```\n".toList ∧
        (s "x\n".toList).splice twice ((s "x\n".toList).block new ['\n']) =
          "```ts\ny\n```\n```ts\nx\n```\n".toList := by
  intro document s blank twice new
  have hblank : findAll blank document = [s "x \n".toList] :=
    findAll_eq_of_scanWithin 4 (by decide +kernel)
  have htwice : findAll twice document = [s "x\n".toList, { s "x\n".toList with startLine := 4 }] :=
    findAll_eq_of_scanWithin 7 (by decide +kernel)
  refine ⟨⟨by simp [hblank], ?_, ?_, ?_⟩, by simp [htwice], ?_, ?_, ?_⟩ <;> decide +kernel

end Sample

end Fenceline
