import Fenceline.Proofs.Sample.Splice
import Fenceline.Sample.Patching
import Mathlib.Data.List.Sublists

/-!
# The changes of a document, in whatever order they are made

The samples of a document stand one below the other, so blocks can be put in the lines of several of them
at once (`Sample.spliceAll`), and no order is involved. Patching makes the changes one after the other,
and each looks for its block in what the changes before have left.

**The law** (`patchAll_perm`): where the block of each sample stands in the document once, in the sample's
lines, and no changes made before bring it in a second time, the changes put the new blocks in the lines
of their samples, whatever the order.

**What it does not establish.** That a change brings in no block of another sample: the new content of one
sample may hold it, and then the order matters (`patchAll_order`).
-/

namespace Fenceline

namespace Sample

/-! ## The samples of a document stand one below the other -/

/-- **Samples in the order of their lines**, which are lines of a document with so many. -/
structure InOrder (samples : List Sample) (count : Nat) : Prop where
  apart : samples.Pairwise fun s t => s.endLine.toNat ≤ (t.startLine - 1).toNat
  within : ∀ s ∈ samples, (s.startLine - 1).toNat < s.endLine.toNat ∧ s.endLine.toNat ≤ count

/-- What is found from some place on begins behind the place, and each sample behind the one before. -/
theorem pairwise_scan {doc : List Text} {file : Path} {state : Scan} {index : Int} {rest : List Text}
    (h : state.At doc index rest) :
    (scan file state index rest).Pairwise (fun s t => s.endLine < t.startLine) ∧
      ∀ s ∈ scan file state index rest, Scan.floor state index < s.startLine := by
  fun_induction scan file state index rest with
  | case1 index => exact ⟨.nil, List.forall_mem_nil _⟩
  | case2 index line rest fence hread ih => exact ih (h.enter hread)
  | case3 index line rest hread ih =>
    obtain ⟨hapart, hbehind⟩ := ih h.pass
    exact ⟨hapart, fun s hs => Int.lt_trans (Int.lt_succ index) (hbehind s hs)⟩
  | case4 index fence start lines ih =>
    obtain ⟨hapart, hbehind⟩ := ih (by simpa using h.restart)
    exact ⟨hapart, fun s hs => Int.lt_trans (Int.lt_succ start) (hbehind s hs)⟩
  | case5 index fence start lines line rest hclosed ih =>
    obtain ⟨hapart, hbehind⟩ := ih h.leave
    obtain ⟨n, rfl, rfl, hbegun⟩ := h
    have hend : (ofBlock file fence n lines).endLine = n + 1 + lines.length + 1 := by
      simp only [ofBlock, endLine]
    refine ⟨List.pairwise_cons.2 ⟨fun s hs => hend ▸ hbehind s hs, hapart⟩, ?_⟩
    intro s hs
    rcases List.mem_cons.1 hs with rfl | hs
    · exact Int.lt_succ (n : Int)
    · have hlater := hbehind s hs
      simp only [Scan.floor] at hlater ⊢
      omega
  | case6 index fence start lines line rest hclosed hadmits ih =>
    exact ih (h.collect (Bool.eq_false_iff.2 hclosed) hadmits)
  | case7 index fence start lines line rest hclosed hadmits ih =>
    obtain ⟨hapart, hbehind⟩ := ih h.restart
    exact ⟨hapart, fun s hs => Int.lt_trans (Int.lt_succ start) (hbehind s hs)⟩

/-- A sample is none of those before it and none of those behind it. -/
theorem InOrder.not_mem_around {before after : List Sample} {s : Sample} {count : Nat}
    (h : InOrder (before ++ s :: after) count) : s ∉ before ∧ s ∉ after := by
  obtain ⟨_, hrest, hcross⟩ := List.pairwise_append.1 h.apart
  have hs := (h.within s (List.mem_append_right _ List.mem_cons_self)).1
  refine ⟨fun hmem => ?_, fun hmem => ?_⟩
  · exact absurd (hcross s hmem s List.mem_cons_self) (Nat.not_le.2 hs)
  · exact absurd ((List.pairwise_cons.1 hrest).1 s hmem) (Nat.not_le.2 hs)

theorem inOrder_findAll (text : Text) (document : Path) :
    InOrder (findAll text document) (text.cutAt '\n').length := by
  have hstart : Scan.At text.documentLines .outside 0 text.documentLines := ⟨0, rfl, rfl⟩
  refine ⟨(pairwise_scan hstart).1.imp fun {s t} hlt => by omega, fun s hs => ?_⟩
  obtain ⟨n, fence, lines, hblock, rfl⟩ := isBlock_of_mem_findAll hs
  have hlast := hblock.end_lt
  have hlines := Text.length_documentLines_le_length_cutAt text
  simp only [endLine, ofBlock]
  omega

/-! ## Blocks in the lines of several samples -/

variable {new new' : Sample → Option Text} {samples : List Sample} {lines : List Text} {s : Sample}

/-- Lines with the blocks of the new contents in the lines of their samples. The last sample comes first,
so the lines of those before it are where they were. -/
def spliceLines (new : Sample → Option Text) (samples : List Sample) (lines : List Text) : List Text :=
  samples.foldr
    (fun s lines => match new s with
      | some content => s.spliceInto lines ((s.block content ['\n']).cutAt '\n')
      | none => lines)
    lines

/-- The new content of a sample, if it changes. -/
def contentOf (changes : List Change) (s : Sample) : Option Text :=
  (changes.find? fun c => c.sample = s).map (·.content)

/-- **The text with the blocks of all changes in the lines of their samples.** -/
def spliceAll (text : Text) (document : Path) (changes : List Change) : Text :=
  Text.joinWith ['\n']
    (spliceLines (contentOf changes) (findAll text document) (text.cutAt '\n'))

theorem spliceLines_cons (new : Sample → Option Text) (s : Sample) (samples : List Sample)
    (lines : List Text) :
    spliceLines new (s :: samples) lines = match new s with
      | some content => s.spliceInto (spliceLines new samples lines) ((s.block content ['\n']).cutAt '\n')
      | none => spliceLines new samples lines := rfl

theorem spliceLines_append (new : Sample → Option Text) (before after : List Sample)
    (lines : List Text) :
    spliceLines new (before ++ after) lines = spliceLines new before (spliceLines new after lines) :=
  List.foldr_append

theorem spliceLines_congr (h : ∀ s ∈ samples, new s = new' s) (lines : List Text) :
    spliceLines new samples lines = spliceLines new' samples lines := by
  induction samples with
  | nil => rfl
  | cons s samples ih =>
    obtain ⟨hs, hrest⟩ := List.forall_mem_cons.1 h
    rw [spliceLines_cons, spliceLines_cons, hs, ih hrest]

theorem spliceLines_of_none (h : ∀ s ∈ samples, new s = none) (lines : List Text) :
    spliceLines new samples lines = lines := by
  induction samples with
  | nil => rfl
  | cons s samples ih =>
    obtain ⟨hs, hrest⟩ := List.forall_mem_cons.1 h
    rw [spliceLines_cons, hs, ih hrest]

/-- The lines above all samples stay. -/
theorem take_spliceLines {k : Nat} (hk : k ≤ lines.length)
    (h : ∀ s ∈ samples, k ≤ (s.startLine - 1).toNat) :
    (spliceLines new samples lines).take k = lines.take k := by
  induction samples with
  | nil => rfl
  | cons s samples ih =>
    obtain ⟨hs, hrest⟩ := List.forall_mem_cons.1 h
    have hsame := ih hrest
    rw [spliceLines_cons]
    split
    · have hlength := congrArg List.length hsame
      simp only [List.length_take] at hlength
      rw [spliceInto, List.append_assoc, List.take_append_of_le_length, List.take_take,
        Nat.min_eq_left hs, hsame]
      rw [List.length_take]
      omega
    · exact hsame

/-- The lines below all samples stay. -/
theorem spliceLines_append_lines (h : InOrder samples lines.length) (below : List Text) :
    spliceLines new samples (lines ++ below) = spliceLines new samples lines ++ below := by
  induction samples with
  | nil => rfl
  | cons s samples ih =>
    obtain ⟨hapart, hrest⟩ := List.pairwise_cons.1 h.apart
    obtain ⟨⟨hs, hend⟩, hwithin⟩ := List.forall_mem_cons.1 h.within
    -- what the later samples change is below the lines of this one
    have hkept : (spliceLines new samples lines).take s.endLine.toNat = lines.take s.endLine.toNat :=
      take_spliceLines hend hapart
    have hlength := congrArg List.length hkept
    rw [List.length_take, List.length_take] at hlength
    rw [spliceLines_cons, spliceLines_cons, ih ⟨hrest, hwithin⟩]
    split
    · rw [spliceInto, spliceInto, List.take_append_of_le_length (by omega),
        List.drop_append_of_le_length (by omega)]
      simp only [List.append_assoc]
    · rfl

/-- The lines at which a sample was found. -/
def ownLines (s : Sample) (lines : List Text) : List Text :=
  (lines.take s.endLine.toNat).drop (s.startLine - 1).toNat

/-- Around a sample, the blocks of the samples before it and of those behind it. -/
theorem spliceLines_around {before after : List Sample}
    (h : InOrder (before ++ s :: after) lines.length) :
    spliceLines new (before ++ s :: after) lines =
      spliceLines new before (lines.take (s.startLine - 1).toNat) ++
        (match new s with
          | some content => (s.block content ['\n']).cutAt '\n'
          | none => s.ownLines lines) ++
        (spliceLines new after lines).drop s.endLine.toNat := by
  obtain ⟨hbefore, hrest, hcross⟩ := List.pairwise_append.1 h.apart
  obtain ⟨hlt, hlines⟩ := h.within s (List.mem_append_right _ List.mem_cons_self)
  have hs := Nat.le_of_lt hlt
  have hafter := (List.pairwise_cons.1 hrest).1
  have hkept : (spliceLines new after lines).take s.endLine.toNat = lines.take s.endLine.toNat :=
    take_spliceLines hlines hafter
  have habove : (spliceLines new after lines).take (s.startLine - 1).toNat =
      lines.take (s.startLine - 1).toNat :=
    take_spliceLines (Nat.le_trans hs hlines) fun t ht => Nat.le_trans hs (hafter t ht)
  have hinside : InOrder before (lines.take (s.startLine - 1).toNat).length := by
    refine ⟨hbefore, fun t ht => ⟨(h.within t (List.mem_append_left _ ht)).1, ?_⟩⟩
    rw [List.length_take_of_le (Nat.le_trans hs hlines)]
    exact hcross t ht s List.mem_cons_self
  rw [spliceLines_append, spliceLines_cons]
  cases hnew : new s with
  | some content =>
    dsimp only
    rw [spliceInto, habove, List.append_assoc, List.append_assoc,
      spliceLines_append_lines hinside]
  | none =>
    have hsplit : spliceLines new after lines =
        lines.take (s.startLine - 1).toNat ++
          (s.ownLines lines ++ (spliceLines new after lines).drop s.endLine.toNat) := by
      have hfirst : lines.take s.endLine.toNat =
          lines.take (s.startLine - 1).toNat ++ s.ownLines lines := by
        have hcut := List.take_append_drop (s.startLine - 1).toNat (lines.take s.endLine.toNat)
        rw [List.take_take, Nat.min_eq_left hs] at hcut
        exact hcut.symm
      rw [← List.append_assoc, ← hfirst, ← hkept, List.take_append_drop]
    dsimp only
    rw [List.append_assoc, ← spliceLines_append_lines hinside, ← hsplit]

/-! ## Changes -/

theorem contentOf_eq_some_iff {changes : List Change} (hnodup : (changes.map (·.sample)).Nodup)
    {content : Text} : contentOf changes s = some content ↔ ⟨s, content⟩ ∈ changes := by
  induction changes with
  | nil => simp [contentOf]
  | cons c changes ih =>
    rw [List.map_cons, List.nodup_cons] at hnodup
    obtain ⟨hfresh, hnodup⟩ := hnodup
    have hrest := ih hnodup
    unfold contentOf at hrest ⊢
    by_cases hc : c.sample = s
    · rw [List.find?_cons_of_pos (by simpa using hc), Option.map_some, Option.some_inj, List.mem_cons]
      constructor
      · rintro rfl
        subst hc
        exact .inl rfl
      · rintro (rfl | hmem)
        · rfl
        · exact absurd (hc ▸ List.mem_map_of_mem hmem) hfresh
    · rw [List.find?_cons_of_neg (by simpa using hc), hrest, List.mem_cons]
      refine ⟨.inr, fun h => h.resolve_left ?_⟩
      rintro rfl
      exact hc rfl

/-- The new contents do not depend on the order of the changes. -/
theorem contentOf_perm {changes order : List Change} (hnodup : (changes.map (·.sample)).Nodup)
    (hperm : order.Perm changes) : contentOf order = contentOf changes := by
  have hnodup' : (order.map (·.sample)).Nodup := (hperm.map _).nodup_iff.2 hnodup
  funext s
  refine Option.ext fun content => ?_
  rw [contentOf_eq_some_iff hnodup', contentOf_eq_some_iff hnodup, hperm.mem_iff]

theorem contentOf_concat_of_ne {next : Change} (h : s ≠ next.sample) (done : List Change) :
    contentOf (done ++ [next]) s = contentOf done s := by
  rw [contentOf, List.find?_append, List.find?_singleton, if_neg (by simpa using Ne.symm h),
    Option.or_none]
  rfl

theorem contentOf_concat {done : List Change} {next : Change} (h : contentOf done next.sample = none) :
    contentOf (done ++ [next]) next.sample = some next.content := by
  rw [contentOf, Option.map_eq_none_iff] at h
  rw [contentOf, List.find?_append, h, Option.none_or, List.find?_singleton, if_pos (by simp)]
  rfl

theorem contentOf_eq_none {changes : List Change} (h : s ∉ changes.map (·.sample)) :
    contentOf changes s = none := by
  rw [contentOf, Option.map_eq_none_iff, List.find?_eq_none]
  intro c hc heq
  exact h (List.mem_map.2 ⟨c, hc, of_decide_eq_true heq⟩)

/-- **The block of a sample is the sample's lines and stands nowhere else in the text.** -/
structure StandsAlone (s : Sample) (text : Text) : Prop where
  here : s.ownLines (text.cutAt '\n') = (s.block s.content ['\n']).cutAt '\n'
  once : (Text.places (s.block s.content ['\n']) text).length = 1

/-- Patching replaces a block that stands in a text once. -/
theorem patch_of_once {pre post : Text}
    (h : (Text.places (s.block s.content ['\n']) (pre ++ s.block s.content ['\n'] ++ post)).length = 1)
    (content : Text) :
    s.patch content (pre ++ s.block s.content ['\n'] ++ post) =
      pre ++ s.block content ['\n'] ++ post := by
  have hfound : s.newlineIn? (pre ++ s.block s.content ['\n'] ++ post) = some ['\n'] :=
    newlineIn?_of_infix ⟨pre, post, rfl⟩
  rw [patch, hfound]
  exact Text.replaceAll_of_once (block_ne_nil s s.content)
    (fun a b heq => Text.eq_of_length_places h heq) _

/-- **One more change**: where the sample's block stands in the text once, patching puts the new block in
the sample's lines. -/
theorem patch_spliceAll {text : Text} {document : Path} {done : List Change} {next : Change}
    (hmem : next.sample ∈ findAll text document) (halone : next.sample.StandsAlone text)
    (hfresh : next.sample ∉ done.map (·.sample))
    (honce : (Text.places (next.sample.block next.sample.content ['\n'])
      (spliceAll text document done)).length = 1) :
    next.sample.patch next.content (spliceAll text document done) =
      spliceAll text document (done ++ [next]) := by
  obtain ⟨before, after, hsamples⟩ := List.mem_iff_append.1 hmem
  have horder := inOrder_findAll text document
  rw [hsamples] at horder
  obtain ⟨hbefore, hafter⟩ := horder.not_mem_around
  have hold : contentOf done next.sample = none := contentOf_eq_none hfresh
  -- around the sample both texts have the same lines
  have habove : ∀ lines, spliceLines (contentOf (done ++ [next])) before lines =
      spliceLines (contentOf done) before lines :=
    spliceLines_congr fun t ht => contentOf_concat_of_ne (ne_of_mem_of_not_mem ht hbefore) done
  have hbelow : ∀ lines, spliceLines (contentOf (done ++ [next])) after lines =
      spliceLines (contentOf done) after lines :=
    spliceLines_congr fun t ht => contentOf_concat_of_ne (ne_of_mem_of_not_mem ht hafter) done
  have hnow : spliceAll text document done =
      Text.unlines (spliceLines (contentOf done) before
          ((text.cutAt '\n').take (next.sample.startLine - 1).toNat)) ++
        next.sample.block next.sample.content ['\n'] ++
        ((spliceLines (contentOf done) after (text.cutAt '\n')).drop
          next.sample.endLine.toNat).flatMap ('\n' :: ·) := by
    rw [spliceAll, hsamples, spliceLines_around horder, hold, halone.here,
      Text.joinWith_append_append _ _ (Text.cutAt_ne_nil _ _), Text.joinWith_cutAt]
  have hthen : spliceAll text document (done ++ [next]) =
      Text.unlines (spliceLines (contentOf done) before
          ((text.cutAt '\n').take (next.sample.startLine - 1).toNat)) ++
        next.sample.block next.content ['\n'] ++
        ((spliceLines (contentOf done) after (text.cutAt '\n')).drop
          next.sample.endLine.toNat).flatMap ('\n' :: ·) := by
    rw [spliceAll, hsamples, spliceLines_around horder, contentOf_concat hold, habove, hbelow,
      Text.joinWith_append_append _ _ (Text.cutAt_ne_nil _ _), Text.joinWith_cutAt]
  rw [hnow] at honce ⊢
  rw [hthen, patch_of_once honce]

theorem spliceAll_nil (text : Text) (document : Path) : spliceAll text document [] = text := by
  have hnone : ∀ s ∈ findAll text document, contentOf [] s = none := fun _ _ => rfl
  rw [spliceAll, spliceLines_of_none hnone, Text.joinWith_cutAt]

theorem spliceAll_perm {changes order : List Change} (hnodup : (changes.map (·.sample)).Nodup)
    (hperm : order.Perm changes) (text : Text) (document : Path) :
    spliceAll text document order = spliceAll text document changes := by
  rw [spliceAll, spliceAll, contentOf_perm hnodup hperm]

/-- **The order of the changes does not matter**, and the new blocks are put in the lines of their samples,
where each sample's block stands alone in the document and the changes of other samples bring in no
second one. -/
theorem patchAll_perm {text : Text} {document : Path} {changes : List Change}
    (halone : ∀ s ∈ findAll text document, s.StandsAlone text)
    (hmem : ∀ c ∈ changes, c.sample ∈ findAll text document)
    (hnodup : (changes.map (·.sample)).Nodup)
    (honce : ∀ done, done ≠ [] → done.Sublist changes → ∀ next ∈ changes,
      next.sample ∉ done.map (·.sample) →
        (Text.places (next.sample.block next.sample.content ['\n'])
          (spliceAll text document done)).length = 1) :
    ∀ order : List Change, order.Perm changes →
      patchAll text order = spliceAll text document changes := by
  -- what is done is `spliceAll` of the changes made, and each one more keeps this
  have hall : ∀ rest done : List Change, (done ++ rest).Perm changes →
      patchAll (spliceAll text document done) rest = spliceAll text document (done ++ rest) := by
    intro rest
    induction rest with
    | nil =>
      intro done _
      rw [List.append_nil]
      rfl
    | cons next rest ih =>
      intro done hperm
      have hnext : next ∈ changes := hperm.mem_iff.1 (List.mem_append_right _ List.mem_cons_self)
      have hfresh : next.sample ∉ done.map (·.sample) := by
        have hboth := (hperm.map (·.sample)).nodup_iff.2 hnodup
        rw [List.map_append, List.map_cons] at hboth
        exact fun hdone => (List.nodup_append.1 hboth).2.2 _ hdone _ List.mem_cons_self rfl
      have honce' : (Text.places (next.sample.block next.sample.content ['\n'])
          (spliceAll text document done)).length = 1 := by
        obtain ⟨made, hmade, hsublist⟩ :=
          List.exists_perm_sublist (List.sublist_append_left done (next :: rest)) hperm
        have hsub := hnodup.sublist (hsublist.map _)
        rw [spliceAll_perm hsub hmade.symm]
        by_cases hnil : made = []
        · rw [hnil, spliceAll_nil]
          exact (halone _ (hmem next hnext)).once
        · exact honce made hnil hsublist next hnext fun h => hfresh ((hmade.map _).mem_iff.1 h)
      have hstep := patch_spliceAll (hmem next hnext) (halone _ (hmem next hnext)) hfresh honce'
      have hrest := ih (done ++ [next]) (by rwa [List.append_assoc])
      rw [← hstep, List.append_assoc] at hrest
      exact hrest
  intro order hperm
  have hrun := hall order [] hperm
  rw [spliceAll_nil, List.nil_append] at hrun
  rw [hrun, spliceAll_perm hnodup hperm]

/-- Two changes of a document with a sample in each of two languages, in both orders. -/
theorem patchAll_perm_two :
    let text : Text := "```ts\na\n```\n\n```js\nb\n```\n".toList
    let document : Path := .ofAbsolute ["a.md".toList]
    let first : Sample := ⟨document, 1, 1, 1, [], some "ts".toList, "a\n".toList, none⟩
    let second : Sample := ⟨document, 5, 1, 1, [], some "js".toList, "b\n".toList, none⟩
    let changes : List Change := [⟨first, "c\nd\n".toList⟩, ⟨second, "a\n".toList⟩]
    (∀ s ∈ findAll text document, s.StandsAlone text) ∧
      (first ∈ findAll text document ∧ second ∈ findAll text document) ∧
      ∀ order : List Change, order.Perm changes →
        patchAll text order = "```ts\nc\nd\n```\n\n```js\na\n```\n".toList := by
  intro text document first second changes
  have hall : findAll text document = [first, second] := findAll_eq_of_scanWithin 8 (by decide +kernel)
  have hresult : spliceAll text document changes = "```ts\nc\nd\n```\n\n```js\na\n```\n".toList := by
    rw [spliceAll, hall]
    decide +kernel
  have halone : ∀ s ∈ findAll text document, s.StandsAlone text := by
    rw [hall]
    intro s hs
    rcases List.mem_pair.1 hs with rfl | rfl
    · exact ⟨by decide +kernel, by decide +kernel⟩
    · exact ⟨by decide +kernel, by decide +kernel⟩
  refine ⟨halone, ⟨by rw [hall]; exact List.mem_cons_self, by rw [hall]; decide⟩, ?_⟩
  rw [← hresult]
  have honce : ∀ done ∈ changes.sublists, done ≠ [] → ∀ next ∈ changes,
      next.sample ∉ done.map (·.sample) →
        (Text.places (next.sample.block next.sample.content ['\n'])
          (spliceAll text document done)).length = 1 := by
    simp only [spliceAll, hall]
    decide +kernel
  refine patchAll_perm halone ?_ (by decide) ?_
  · rw [hall]
    decide
  · exact fun done hne hdone => honce done (List.mem_sublists.2 hdone) hne

/-- Two changes of which the first one brings in the block of the second sample: made in this order, the
new content of the second one comes in twice. -/
theorem patchAll_order :
    let text : Text := "```ts\na\n```\n\n```js\nb\n```\n".toList
    let document : Path := .ofAbsolute ["a.md".toList]
    let first : Sample := ⟨document, 1, 1, 1, [], some "ts".toList, "a\n".toList, none⟩
    let second : Sample := ⟨document, 5, 1, 1, [], some "js".toList, "b\n".toList, none⟩
    let change : Change := ⟨first, "```js\nb\n```\n".toList⟩
    let change' : Change := ⟨second, "c\n".toList⟩
    findAll text document = [first, second] ∧
      first.StandsAlone text ∧ second.StandsAlone text ∧
      patchAll text [change, change'] =
        "```ts\n```js\nc\n```\n```\n\n```js\nc\n```\n".toList ∧
      patchAll text [change', change] =
        "```ts\n```js\nb\n```\n```\n\n```js\nc\n```\n".toList ∧
      spliceAll text document [change, change'] =
        "```ts\n```js\nb\n```\n```\n\n```js\nc\n```\n".toList := by
  intro text document first second change change'
  have hall : findAll text document = [first, second] := findAll_eq_of_scanWithin 8 (by decide +kernel)
  refine ⟨hall, ⟨by decide +kernel, by decide +kernel⟩, ⟨by decide +kernel, by decide +kernel⟩,
    by decide +kernel, by decide +kernel, ?_⟩
  rw [spliceAll, hall]
  decide +kernel

end Sample

end Fenceline
