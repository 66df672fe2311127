import Fenceline.Sample.Scan

/-!
# A sample is a block of its document

Wherever the reading of a document is, it knows where it is: outside of all blocks what is left are the
lines from some line on, and inside of one the lines behind the opening fence are those collected and
those left (`Scan.At`). Each step keeps this, also the step back behind an opening fence that was none
(`Scan.At.restart`).

**The law** (`isBlock_of_mem_findAll`): every sample of a document is one of its blocks, made of the very
lines that stand there between the fences.

The reading goes back behind an opening fence that was none, so it does not recurse on the lines alone. With
a number of turns to take it does (`scanWithin`), and the samples of a document at hand can be computed.
-/

namespace Fenceline

/-- **A block that is begun**: line `n` of a document opens a fence, and behind it stand the lines
collected, which the fence admits and which do not close it, and then the rest. Lines are counted from
zero. -/
structure IsBegun (doc : List Text) (n : Nat) (fence : Fence) (lines rest : List Text) : Prop where
  opened : ∃ line, doc[n]? = some line ∧ Fence.read? line = some fence
  inside : ∀ line ∈ lines, fence.isClosedBy line = false ∧ fence.admits line = true
  behind : doc.drop (n + 1) = lines ++ rest

/-- **A block of a document**: one that is begun, and the line behind it closes the fence. -/
structure IsBlock (doc : List Text) (n : Nat) (fence : Fence) (lines : List Text) : Prop where
  begun : ∃ line rest, IsBegun doc n fence lines (line :: rest) ∧ fence.isClosedBy line = true

/-- Where the reading of a document is, `rest` being the lines from `index` on. -/
def Scan.At (doc : List Text) : Scan → Int → List Text → Prop
  | .outside, index, rest => ∃ n : Nat, index = n ∧ doc.drop n = rest
  | .inside fence start lines, index, rest =>
    ∃ n : Nat, start = n ∧ index = n + 1 + lines.length ∧ IsBegun doc n fence lines rest

namespace Scan.At

variable {doc rest lines : List Text} {line : Text} {index start : Int} {fence : Fence}

/-- The line ahead and what stands behind it. -/
theorem drop_eq_cons {n : Nat} (h : doc.drop n = line :: rest) :
    doc[n]? = some line ∧ doc.drop (n + 1) = rest := by
  refine ⟨?_, ?_⟩
  · rw [← List.head?_drop, h, List.head?_cons]
  · rw [← List.tail_drop, h, List.tail_cons]

/-- A line that opens nothing is read over. -/
theorem pass (h : At doc .outside index (line :: rest)) : At doc .outside (index + 1) rest := by
  obtain ⟨n, rfl, hrest⟩ := h
  exact ⟨n + 1, rfl, (drop_eq_cons hrest).2⟩

/-- An opening fence begins a block without lines. -/
theorem enter (h : At doc .outside index (line :: rest)) (hread : Fence.read? line = some fence) :
    At doc (.inside fence index []) (index + 1) rest := by
  obtain ⟨n, rfl, hrest⟩ := h
  obtain ⟨hline, hbehind⟩ := drop_eq_cons hrest
  exact ⟨n, rfl, by simp, ⟨line, hline, hread⟩, List.forall_mem_nil _, hbehind⟩

/-- A line that the fence admits is collected. -/
theorem collect (h : At doc (.inside fence start lines) index (line :: rest))
    (hclosed : fence.isClosedBy line = false) (hadmits : fence.admits line = true) :
    At doc (.inside fence start (lines ++ [line])) (index + 1) rest := by
  obtain ⟨n, rfl, rfl, hopened, hinside, hbehind⟩ := h
  refine ⟨n, rfl, by simp; omega, hopened, ?_, by simpa using hbehind⟩
  intro l hl
  rcases List.mem_append.1 hl with hl | hl
  · exact hinside l hl
  · rw [List.mem_singleton.1 hl]
    exact ⟨hclosed, hadmits⟩

/-- Reading goes on behind the closing fence. -/
theorem leave (h : At doc (.inside fence start lines) index (line :: rest)) :
    At doc .outside (index + 1) rest := by
  obtain ⟨n, rfl, rfl, hbegun⟩ := h
  have hclosing : doc.drop (n + 1 + lines.length) = line :: rest := by
    rw [← List.drop_drop, hbegun.behind, List.drop_left]
  exact ⟨n + 1 + lines.length + 1, by push_cast; omega, (drop_eq_cons hclosing).2⟩

/-- **Reading starts again behind an opening fence that was none.** -/
theorem restart (h : At doc (.inside fence start lines) index rest) :
    At doc .outside (start + 1) (lines ++ rest) := by
  obtain ⟨n, rfl, _, hbegun⟩ := h
  exact ⟨n + 1, rfl, hbegun.behind⟩

/-- A closing fence makes the block one of the document. -/
theorem isBlock (h : At doc (.inside fence start lines) index (line :: rest))
    (hclosed : fence.isClosedBy line = true) : ∃ n : Nat, start = n ∧ IsBlock doc n fence lines := by
  obtain ⟨n, hstart, _, hbegun⟩ := h
  exact ⟨n, hstart, line, rest, hbegun, hclosed⟩

end Scan.At

namespace Sample

/-- The index of the line behind which the samples still to be found begin. -/
def Scan.floor : Scan → Int → Int
  | .outside, index => index
  | .inside _ start _, _ => start

/-- **Every sample found from some place on is a block of the document.** -/
theorem isBlock_of_mem_scan {doc : List Text} {file : Path} {state : Scan} {index : Int}
    {rest : List Text} (h : state.At doc index rest) :
    ∀ s ∈ scan file state index rest,
      ∃ n fence lines, IsBlock doc n fence lines ∧ s = ofBlock file fence n lines := by
  fun_induction scan file state index rest with
  | case1 index => simp
  | case2 index line rest fence hread ih => exact ih (h.enter hread)
  | case3 index line rest hread ih => exact ih h.pass
  | case4 index fence start lines ih =>
    exact ih (by simpa using h.restart)
  | case5 index fence start lines line rest hclosed ih =>
    intro s hs
    rcases List.mem_cons.1 hs with rfl | hs
    · obtain ⟨n, rfl, hblock⟩ := h.isBlock hclosed
      exact ⟨n, fence, lines, hblock, rfl⟩
    · exact ih h.leave s hs
  | case6 index fence start lines line rest hclosed hadmits ih =>
    exact ih (h.collect (Bool.eq_false_iff.2 hclosed) hadmits)
  | case7 index fence start lines line rest hclosed hadmits ih => exact ih h.restart

/-- **Every sample of a document is a block of its lines.** -/
theorem isBlock_of_mem_findAll {text : Text} {file : Path} {s : Sample} (h : s ∈ findAll text file) :
    ∃ n fence lines, IsBlock text.documentLines n fence lines ∧ s = ofBlock file fence n lines := by
  have hstart : Scan.At text.documentLines .outside 0 text.documentLines := ⟨0, rfl, rfl⟩
  exact isBlock_of_mem_scan hstart s h

/-! ## The samples of a document at hand -/

/-- The samples in what is left of a document, if the reading of it takes fewer than so many turns. -/
def scanWithin (file : Path) : Nat → Scan → Int → List Text → Option (List Sample)
  | 0, _, _, _ => none
  | _ + 1, .outside, _, [] => some []
  | turns + 1, .outside, index, line :: rest =>
    match Fence.read? line with
    | some fence => scanWithin file turns (.inside fence index []) (index + 1) rest
    | none => scanWithin file turns .outside (index + 1) rest
  | turns + 1, .inside _ start lines, _, [] => scanWithin file turns .outside (start + 1) lines
  | turns + 1, .inside fence start lines, index, line :: rest =>
    if fence.isClosedBy line then
      (scanWithin file turns .outside (index + 1) rest).map (ofBlock file fence start lines :: ·)
    else if fence.admits line then
      scanWithin file turns (.inside fence start (lines ++ [line])) (index + 1) rest
    else scanWithin file turns .outside (start + 1) (lines ++ line :: rest)

theorem scan_eq_of_scanWithin {file : Path} {turns : Nat} {state : Scan} {index : Int} {rest : List Text}
    {samples : List Sample} (h : scanWithin file turns state index rest = some samples) :
    scan file state index rest = samples := by
  fun_induction scanWithin file turns state index rest generalizing samples with
  | case1 => cases h
  | case2 =>
    rw [scan]
    exact Option.some.inj h
  | case3 turns index line rest fence hread ih =>
    rw [scan, hread]
    exact ih h
  | case4 turns index line rest hread ih =>
    rw [scan, hread]
    exact ih h
  | case5 turns fence start lines index ih =>
    rw [scan]
    exact ih h
  | case6 turns fence start lines index line rest hclosed ih =>
    obtain ⟨behind, hbehind, rfl⟩ := Option.map_eq_some_iff.1 h
    rw [scan, if_pos hclosed, ih hbehind]
  | case7 turns fence start lines index line rest hclosed hadmits ih =>
    rw [scan, if_neg hclosed, if_pos hadmits]
    exact ih h
  | case8 turns fence start lines index line rest hclosed hadmits ih =>
    rw [scan, if_neg hclosed, if_neg hadmits]
    exact ih h

/-- **What the reading of a document finds can be computed**, turn by turn. -/
theorem findAll_eq_of_scanWithin {text : Text} {file : Path} {samples : List Sample} (turns : Nat)
    (h : scanWithin file turns .outside 0 text.documentLines = some samples) : findAll text file = samples :=
  scan_eq_of_scanWithin h

end Sample

namespace IsBlock

variable {doc lines : List Text} {n : Nat} {fence : Fence}

/-- The lines of a block stand in the document behind its opening fence. -/
theorem getElem?_inside (h : IsBlock doc n fence lines) {i : Nat} (hi : i < lines.length) :
    doc[n + 1 + i]? = lines[i]? := by
  obtain ⟨line, rest, hbegun, _⟩ := h.begun
  rw [← List.getElem?_drop, hbegun.behind, List.getElem?_append_left hi]

/-- The closing fence stands in the document too. -/
theorem end_lt (h : IsBlock doc n fence lines) : n + 1 + lines.length < doc.length := by
  obtain ⟨line, rest, hbegun, _⟩ := h.begun
  have hlength := congrArg List.length hbegun.behind
  simp only [List.length_drop, List.length_append, List.length_cons] at hlength
  omega

end IsBlock

end Fenceline
