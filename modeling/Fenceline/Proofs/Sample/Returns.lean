import Fenceline.Proofs.Sample.RoundTrip
import Fenceline.Proofs.Text.Returns
import Fenceline.Sample.Patching

/-!
# The ends of a document's lines do not matter

Extraction takes the carriage return off every line, while patching looks for a block as it stands there:
first with bare line feeds, then with carriage returns before them. In a document with carriage returns
the first way finds nothing, since its first line feed would follow the opening fence (`block_not_infix`);
the second finds just what the first does in the document without.

**The laws.** `findAll_withReturns`: the same samples are found. `patch_withReturns`,
`patchNotices_withReturns`: a change is made at the same places, or is not found in both.
`patchAll_withReturns`: so are several changes, one after the other. Of a sample, this takes that its block
has no carriage return of its own and that its indent stands in one line (`Sample.Unreturned`), as it is for
every sample of a document without carriage returns (`unreturned_of_mem_findAll`).

**What it does not establish.** The same for a document whose lines end in different ways: a block is looked
for in one way only.
-/

namespace Fenceline.Sample

variable {text content : Text} {document : Path} {s : Sample}

/-- **A sample as documents without carriage returns have them.** -/
structure Unreturned (s : Sample) : Prop where
  line : '\n' ∉ s.indent
  indent : '\r' ∉ s.indent
  language : ∀ c ∈ s.language.getD [], Text.isWord c = true
  content : '\r' ∉ s.content

theorem subset_content {text : Text} {document : Path} {s : Sample} (hs : s ∈ findAll text document) :
    ∀ c ∈ s.content, c = '\n' ∨ c ∈ text := by
  obtain ⟨n, fence, lines, ⟨closing, rest, hbegun, -⟩, rfl⟩ := isBlock_of_mem_findAll hs
  intro c hc
  obtain ⟨line, hline, hc⟩ := List.mem_flatMap.1 hc
  have hdoc : line ∈ text.documentLines := by
    refine List.mem_of_mem_drop (i := n + 1) ?_
    rw [hbegun.behind]
    exact List.mem_append_left _ hline
  rcases List.mem_append.1 hc with hc | hc
  · exact .inr (Text.documentLines_subset hdoc (List.mem_of_mem_drop hc))
  · exact .inl (List.mem_singleton.1 hc)

theorem unreturned_of_mem_findAll (h : '\r' ∉ text) (hs : s ∈ findAll text document) : s.Unreturned := by
  obtain ⟨line, hline, hindent⟩ := exists_line_of_indent hs
  obtain ⟨fence, opening, hopens, -, hlanguage⟩ := exists_fence hs
  refine ⟨newline_not_mem_indent hs, ?_, hlanguage ▸ hopens.language_isWord, ?_⟩
  · exact fun hreturn => h (Text.documentLines_subset hline (hindent.subset hreturn))
  · exact fun hreturn => (subset_content hs _ hreturn).elim (by decide) h

/-! ## Blocks with carriage returns -/

/-- **A block with carriage returns is the block without**, with a carriage return before each line feed. -/
theorem block_returns (hs : s.Unreturned) (content : Text) :
    s.block content ['\r', '\n'] = Text.withReturns (s.block content ['\n']) :=
  (Text.withReturns_joinWith fun _ hl => (line_of_mem_block hs.line hs.language hl).1).symm

/-- The characters of a block's lines are those of the indent, of the content and of the fences. -/
theorem return_not_mem_block (hs : s.Unreturned) (hcontent : '\r' ∉ content) :
    '\r' ∉ s.block content ['\n'] := by
  intro h
  obtain h | ⟨line, hline, hin⟩ := Text.mem_joinWith h
  · exact absurd h (by decide)
  obtain ⟨inner, hinner, rfl⟩ := List.mem_map.1 hline
  have hfence : '\r' ∉ Fence.marker ++ s.language.getD [] := by
    rw [List.mem_append, not_or]
    exact ⟨by decide, fun h => absurd (Text.isBlank_of_isWord (hs.language _ h)) (by decide)⟩
  have hinside : ∀ piece ∈ (Text.trimEnd content).cutAt '\n', '\r' ∉ piece := fun piece hpiece h => by
    refine hcontent ((Text.dropEndWhile_isPrefix Text.isBlank content).subset ?_)
    rw [← Text.joinWith_cutAt '\n' (Text.dropEndWhile Text.isBlank content)]
    exact Text.subset_joinWith hpiece h
  rcases List.mem_append.1 ((Text.dropEndWhile_isPrefix _ _).subset hin) with hindent | hinner'
  · exact hs.indent hindent
  · rcases List.mem_append.1 hinner with hinner | hinner
    · rcases List.mem_cons.1 hinner with rfl | hpiece
      · exact hfence hinner'
      · exact hinside inner hpiece hinner'
    · rw [List.mem_singleton.1 hinner] at hinner'
      exact absurd hinner' (by decide)

/-- A block begins with its indent or with a backtick. -/
theorem head?_block_ne_newline (hs : s.Unreturned) (content : Text) :
    (s.block content ['\n']).head? ≠ some '\n' := by
  obtain ⟨rest, hrest⟩ := exists_block_eq hs.language content ['\n']
  rw [hrest, openingLine, List.append_assoc, List.append_assoc]
  cases hindent : s.indent with
  | nil => exact fun h => absurd (Option.some.inj h) (by decide)
  | cons c indent =>
    intro h
    refine hs.line ?_
    rw [hindent, ← Option.some.inj h]
    exact List.mem_cons_self

/-! ## Where a block is found -/

/-- Without carriage returns a block is found with bare line feeds, if at all. -/
theorem newline_of_newlineIn? {newline : Text} (h : '\r' ∉ text) (hfound : s.newlineIn? text = some newline) :
    newline = ['\n'] := by
  rcases List.mem_pair.1 (List.mem_of_find?_eq_some hfound) with rfl | rfl
  · rfl
  · have hoccurs : (s.block s.content ['\r', '\n']).occursIn text = true := by
      simpa using List.find?_some hfound
    have hblock : s.block s.content ['\r', '\n'] <:+: text := Text.occursIn_iff.1 hoccurs
    exact absurd ((newline_infix_block s s.content _).trans hblock |>.subset List.mem_cons_self) h

/-- **With carriage returns a block is found with them**, just if it is found without. -/
theorem newlineIn?_withReturns (hs : s.Unreturned) (h : '\r' ∉ text) :
    s.newlineIn? (Text.withReturns text) = (s.newlineIn? text).map fun _ => ['\r', '\n'] := by
  have hbare : ¬ s.block s.content ['\n'] <:+: Text.withReturns text := fun hin => by
    refine block_not_infix (Text.cutAt_ne_nil '\n' text) (fun _ => Text.not_mem_of_mem_cutAt) hs.language
      s.content (hin.trans ⟨[], ['\r', '\n'], ?_⟩)
    rw [List.nil_append, Text.withReturns_eq_joinWith]
  have hblock : s.block s.content ['\r', '\n'] <:+: Text.withReturns text ↔ s.block s.content ['\n'] <:+: text := by
    rw [block_returns hs, Text.withReturns_infix_iff (block_ne_nil s s.content)
      (return_not_mem_block hs hs.content) (head?_block_ne_newline hs s.content) h]
  by_cases hin : s.block s.content ['\n'] <:+: text
  · rw [newlineIn?_of_infix_returns hbare (hblock.2 hin), newlineIn?_of_infix hin]
    rfl
  · have hnone : s.newlineIn? text = none := newlineIn?_of_not_infix hin fun hreturns =>
      h ((newline_infix_block s s.content _).trans hreturns |>.subset List.mem_cons_self)
    have hneither := newlineIn?_of_not_infix hbare fun hreturns => hin (hblock.1 hreturns)
    rw [hneither, hnone]
    rfl

/-! ## Patching -/

/-- **A change is made at the same places.** -/
theorem patch_withReturns (hs : s.Unreturned) (h : '\r' ∉ text) (content : Text) :
    s.patch content (Text.withReturns text) = Text.withReturns (s.patch content text) := by
  rw [patch, patch, newlineIn?_withReturns hs h]
  cases hfound : s.newlineIn? text with
  | none => rfl
  | some newline =>
    obtain rfl := newline_of_newlineIn? h hfound
    dsimp only [Option.map_some]
    rw [block_returns hs, block_returns hs, Text.replaceAll_withReturns (block_ne_nil s s.content)
      (return_not_mem_block hs hs.content) (head?_block_ne_newline hs s.content) h]

/-- **A sample is not found in both documents or in none.** -/
theorem patchNotices_withReturns (hs : s.Unreturned) (h : '\r' ∉ text) :
    s.patchNotices (Text.withReturns text) = s.patchNotices text := by
  rw [patchNotices, patchNotices, newlineIn?_withReturns hs h, Option.isSome_map]

theorem return_not_mem_patch (hs : s.Unreturned) (hcontent : '\r' ∉ content) (h : '\r' ∉ text) :
    '\r' ∉ s.patch content text := by
  rw [patch]
  cases hfound : s.newlineIn? text with
  | none => exact h
  | some newline =>
    obtain rfl := newline_of_newlineIn? h hfound
    exact fun hin => (Text.mem_replaceAll hin).elim h (return_not_mem_block hs hcontent)

/-- **Several changes go along with carriage returns**, and so do the complaints about samples that are not
found. -/
theorem patchAll_withReturns {changes : List Change} (h : '\r' ∉ text)
    (hchanges : ∀ c ∈ changes, c.sample.Unreturned ∧ '\r' ∉ c.content) :
    patchAll (Text.withReturns text) changes = Text.withReturns (patchAll text changes) ∧
      patchAllNotices (Text.withReturns text) changes = patchAllNotices text changes := by
  induction changes generalizing text with
  | nil => exact ⟨rfl, rfl⟩
  | cons c changes ih =>
    obtain ⟨⟨hs, hcontent⟩, hchanges⟩ := List.forall_mem_cons.1 hchanges
    obtain ⟨htext, hnotices⟩ := ih (return_not_mem_patch hs hcontent h) hchanges
    rw [patchAllNotices, patchAllNotices, patchNotices_withReturns hs h, patch_withReturns hs h]
    have hsteps : ∀ t, patchAll t (c :: changes) = patchAll (c.sample.patch c.content t) changes := fun _ => rfl
    rw [hsteps, hsteps, patch_withReturns hs h]
    exact ⟨htext, congrArg _ hnotices⟩

/-- **The same samples are found.** -/
theorem findAll_withReturns (h : '\r' ∉ text) (document : Path) :
    findAll (Text.withReturns text) document = findAll text document := by
  rw [findAll, findAll, Text.documentLines_withReturns h]

/-- **The ends of a document's lines do not matter**: with a carriage return before each line feed the same
samples are found in it, and a new content of one of them gives the same document, with a carriage return
before each line feed and with the same complaint if the sample is not found. -/
theorem samples_withReturns (h : '\r' ∉ text) (document : Path) :
    findAll (Text.withReturns text) document = findAll text document ∧
      ∀ s ∈ findAll text document, ∀ content,
        s.patch content (Text.withReturns text) = Text.withReturns (s.patch content text) ∧
          s.patchNotices (Text.withReturns text) = s.patchNotices text := by
  refine ⟨findAll_withReturns h document, fun s hs content => ?_⟩
  have hunreturned := unreturned_of_mem_findAll h hs
  exact ⟨patch_withReturns hunreturned h content, patchNotices_withReturns hunreturned h⟩

/-- A document with two samples: the first is patched, and the second is not found, since a line of it ends
in a blank. -/
theorem samples_withReturns_two :
    let text : Text := "```ts\na\n```\n> ```js\n> b \n> ```\n".toList
    let document : Path := .ofAbsolute ["a.md".toList]
    let first : Sample := ⟨document, 1, 1, 1, [], some "ts".toList, "a\n".toList, none⟩
    let second : Sample := ⟨document, 4, 1, 3, "> ".toList, some "js".toList, "b \n".toList, none⟩
    let returned : Text := "```ts\r\na\r\n```\r\n> ```js\r\n> b \r\n> ```\r\n".toList
    '\r' ∉ text ∧ Text.withReturns text = returned ∧ findAll returned document = [first, second] ∧
      first.patch "x\r\ny\n".toList returned =
        "```ts\r\nx\r\ny\r\n```\r\n> ```js\r\n> b \r\n> ```\r\n".toList ∧
      second.patch "y\n".toList returned = returned ∧
      second.patchNotices returned =
        [.logged .warning .patching "Code sample at /a.md:4 not found".toList] := by
  intro text document first second returned
  have hreturn : '\r' ∉ text := by decide +kernel
  have hreturned : Text.withReturns text = returned := by decide +kernel
  have hfound : findAll text document = [first, second] := findAll_eq_of_scanWithin 7 (by decide +kernel)
  obtain ⟨hsamples, hpatches⟩ := samples_withReturns hreturn document
  rw [hreturned] at hsamples
  refine ⟨hreturn, hreturned, hsamples.trans hfound, ?_, ?_, ?_⟩
  · rw [← hreturned, (hpatches first (by simp [hfound]) _).1]
    decide +kernel
  · rw [← hreturned, (hpatches second (by simp [hfound]) _).1]
    decide +kernel
  · rw [← hreturned, (hpatches second (by simp [hfound]) []).2]
    decide +kernel

end Fenceline.Sample
