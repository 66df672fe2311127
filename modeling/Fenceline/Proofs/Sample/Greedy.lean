import Fenceline.Proofs.Sample.Blocks
import Fenceline.Proofs.Sample.Opening
import Fenceline.Proofs.Text.Cut
import Mathlib.Tactic.Ring

/-!
# The samples of a document, by its lines alone

What the samples of a document are can be said without reading line by line and going back: from the first
line on, a line that opens a fence makes a sample with the first line behind it that closes the fence or
lacks the fence's lead, if that line closes it; otherwise the line makes none, and the next line is looked
at (`Greedy`).

**The law** (`findAll_greedy`): reading finds exactly these samples, and it comes to its end after a number
of turns that the square of the number of lines bounds (`Turns`), though it goes back behind every opening
fence that was none.
-/

namespace Fenceline

variable {doc rest lines : List Text} {fence : Fence} {file : Path} {line : Text} {i j n : Nat}

/-- A line behind an opening fence at which it is decided whether there is a sample. -/
def Fence.Decides (f : Fence) (line : Text) : Prop :=
  f.Closes line ∨ ¬ f.lead <+: line

/-- **Line `j` closes the fence that line `i` opens**: it is the first line behind that decides. -/
structure ClosedAt (doc : List Text) (i j : Nat) (fence : Fence) : Prop where
  behind : i < j
  closes : ∃ line, doc[j]? = some line ∧ fence.Closes line
  first : ∀ k, i < k → k < j → ∀ line, doc[k]? = some line → ¬ fence.Decides line

theorem ClosedAt.unique {k : Nat} (hj : ClosedAt doc i j fence) (hk : ClosedAt doc i k fence) : j = k := by
  obtain ⟨line, hline, hcloses⟩ := hj.closes
  obtain ⟨line', hline', hcloses'⟩ := hk.closes
  rcases Nat.lt_trichotomy j k with h | h | h
  · exact absurd (.inl hcloses) (hk.first j hj.behind h line hline)
  · exact h
  · exact absurd (.inl hcloses') (hj.first k hk.behind h line' hline')

namespace Sample

/-- **The samples of a document from line `i` on.** -/
inductive Greedy (file : Path) (doc : List Text) : Nat → List Sample → Prop where
  /-- Behind the last line there are none. -/
  | nil {i : Nat} : doc[i]? = none → Greedy file doc i []
  /-- A line that opens a fence, the line that closes it, and what is between them. -/
  | block {i j : Nat} {line : Text} {fence : Fence} {samples : List Sample} :
    doc[i]? = some line → fence.Opens line → ClosedAt doc i j fence → Greedy file doc (j + 1) samples →
      Greedy file doc i (ofBlock file fence i ((doc.take j).drop (i + 1)) :: samples)
  /-- Any other line. -/
  | pass {i : Nat} {line : Text} {samples : List Sample} :
    doc[i]? = some line → (∀ fence j, fence.Opens line → ¬ ClosedAt doc i j fence) →
      Greedy file doc (i + 1) samples → Greedy file doc i samples

/-- The samples from a line on are told by the lines. -/
theorem Greedy.unique {samples samples' : List Sample} (h : Greedy file doc i samples)
    (h' : Greedy file doc i samples') : samples = samples' := by
  induction h generalizing samples' with
  | nil hnone =>
    cases h' with
    | nil => rfl
    | block hline => rw [hnone] at hline; cases hline
    | pass hline => rw [hnone] at hline; cases hline
  | block hline hopens hclosed _ ih =>
    cases h' with
    | nil hnone => rw [hnone] at hline; cases hline
    | block hline' hopens' hclosed' hrest' =>
      obtain rfl := Option.some.inj (hline.symm.trans hline')
      obtain rfl := hopens.unique hopens'
      obtain rfl := hclosed.unique hclosed'
      rw [ih hrest']
    | pass hline' hnone =>
      obtain rfl := Option.some.inj (hline.symm.trans hline')
      exact absurd hclosed (hnone _ _ hopens)
  | pass hline hnone _ ih =>
    cases h' with
    | nil hnone => rw [hnone] at hline; cases hline
    | block hline' hopens' hclosed' =>
      obtain rfl := Option.some.inj (hline.symm.trans hline')
      exact absurd hclosed' (hnone _ _ hopens')
    | pass _ _ hrest' => exact ih hrest'

end Sample

/-! ## Blocks that are begun -/

theorem Fence.not_decides_iff {f : Fence} :
    ¬ f.Decides line ↔ f.isClosedBy line = false ∧ f.admits line = true := by
  rw [Fence.Decides, not_or, ← Fence.isClosedBy_iff, Bool.not_eq_true, Decidable.not_not, Fence.admits,
    List.isPrefixOf_iff_prefix]

namespace IsBegun

/-- A line that was collected is not one that decides. -/
theorem not_decides (h : IsBegun doc n fence lines rest) {k : Nat} (hk : n < k)
    (hlast : k ≤ n + lines.length) (hline : doc[k]? = some line) : ¬ fence.Decides line := by
  have hplace : doc[k]? = (lines ++ rest)[k - (n + 1)]? := by
    rw [← h.behind, List.getElem?_drop]
    congr 1
    omega
  rw [hline, List.getElem?_append_left (by omega)] at hplace
  exact Fence.not_decides_iff.2 (h.inside line (List.mem_of_getElem? hplace.symm))

/-- The line behind those that were collected. -/
theorem getElem?_next (h : IsBegun doc n fence lines rest) :
    doc[n + 1 + lines.length]? = rest.head? := by
  rw [← List.head?_drop, ← List.drop_drop, h.behind, List.drop_left]

/-- **A line that closes the fence is the first that decides.** -/
theorem closedAt (h : IsBegun doc n fence lines (line :: rest)) (hcloses : fence.isClosedBy line = true) :
    ClosedAt doc n (n + 1 + lines.length) fence where
  behind := by omega
  closes := ⟨line, h.getElem?_next, Fence.isClosedBy_iff.1 hcloses⟩
  first := fun _ hk hlast _ hline => h.not_decides hk (by omega) hline

/-- The lines that were collected stand between the fences. -/
theorem lines_eq (h : IsBegun doc n fence lines rest) :
    (doc.take (n + 1 + lines.length)).drop (n + 1) = lines := by
  rw [List.drop_take, h.behind]
  simp

/-- **A block that is broken off or never closed is none.** -/
theorem not_closedAt (h : IsBegun doc n fence lines rest)
    (hnext : ∀ line ∈ rest.head?, fence.isClosedBy line = false ∧ fence.admits line = false) :
    ¬ ClosedAt doc n j fence := by
  intro hclosed
  obtain ⟨line, hline, hcloses⟩ := hclosed.closes
  rcases Nat.lt_trichotomy j (n + 1 + lines.length) with hj | rfl | hj
  · exact h.not_decides hclosed.behind (by omega) hline (.inl hcloses)
  · rw [h.getElem?_next] at hline
    rw [← Fence.isClosedBy_iff, (hnext line hline).1] at hcloses
    cases hcloses
  · obtain ⟨next, hread⟩ : ∃ next, doc[n + 1 + lines.length]? = some next := by
      refine ⟨_, List.getElem?_eq_getElem (Nat.lt_trans hj ?_)⟩
      exact (List.getElem?_eq_some_iff.1 hline).1
    have hhead : next ∈ rest.head? := h.getElem?_next ▸ hread
    refine hclosed.first _ (by omega) hj next hread (.inr fun hlead => ?_)
    have hadmits : fence.admits next = true := List.isPrefixOf_iff_prefix.2 hlead
    rw [(hnext next hhead).2] at hadmits
    cases hadmits

end IsBegun

namespace Sample

/-! ## Reading finds the samples of the lines -/

theorem greedy_pass (hdoc : ∀ line ∈ doc, '\n' ∉ line) (h : IsBegun doc n fence lines rest)
    (hnext : ∀ line ∈ rest.head?, fence.isClosedBy line = false ∧ fence.admits line = false)
    {samples : List Sample} (hrest : Greedy file doc (n + 1) samples) : Greedy file doc n samples := by
  obtain ⟨line, hline, hread⟩ := h.opened
  refine .pass hline (fun fence' j hopens => ?_) hrest
  rw [Fence.read?_eq_some_iff (hdoc line (List.mem_of_getElem? hline))] at hread
  rw [hopens.unique hread]
  exact h.not_closedAt hnext

/-- **From wherever the reading is**, it finds the samples of the lines. -/
theorem greedy_scan (hdoc : ∀ line ∈ doc, '\n' ∉ line) {state : Scan} {index : Int} {rest : List Text}
    (h : state.At doc index rest) :
    ∃ n : Nat, Scan.floor state index = n ∧ Greedy file doc n (scan file state index rest) := by
  fun_induction scan file state index rest with
  | case1 index =>
    obtain ⟨n, rfl, hrest⟩ := h
    exact ⟨n, rfl, .nil (List.getElem?_eq_none (List.drop_eq_nil_iff.1 hrest))⟩
  | case2 index line rest fence hread ih => exact ih (h.enter hread)
  | case3 index line rest hread ih =>
    obtain ⟨n, hn, hgreedy⟩ := ih h.pass
    obtain ⟨m, rfl, hrest⟩ := h
    obtain rfl : n = m + 1 := by simp only [Scan.floor] at hn; omega
    have hline := (Scan.At.drop_eq_cons hrest).1
    refine ⟨m, rfl, .pass hline (fun fence j hopens => ?_) hgreedy⟩
    rw [← Fence.read?_eq_some_iff (hdoc line (List.mem_of_getElem? hline)), hread] at hopens
    cases hopens
  | case4 index fence start lines ih =>
    obtain ⟨n, hn, hgreedy⟩ := ih (by simpa using h.restart)
    obtain ⟨m, rfl, _, hbegun⟩ := h
    obtain rfl : n = m + 1 := by simp only [Scan.floor] at hn; omega
    exact ⟨m, rfl, greedy_pass hdoc hbegun (by simp) hgreedy⟩
  | case5 index fence start lines line rest hclosed ih =>
    obtain ⟨n, hn, hgreedy⟩ := ih h.leave
    obtain ⟨m, rfl, rfl, hbegun⟩ := h
    obtain rfl : n = m + 1 + lines.length + 1 := by simp only [Scan.floor] at hn; omega
    obtain ⟨line, hline, hread⟩ := hbegun.opened
    rw [Fence.read?_eq_some_iff (hdoc line (List.mem_of_getElem? hline))] at hread
    have hblock : Greedy file doc m _ := .block hline hread (hbegun.closedAt hclosed) hgreedy
    rw [hbegun.lines_eq] at hblock
    exact ⟨m, rfl, hblock⟩
  | case6 index fence start lines line rest hclosed hadmits ih =>
    exact ih (h.collect (Bool.eq_false_iff.2 hclosed) hadmits)
  | case7 index fence start lines line rest hclosed hadmits ih =>
    obtain ⟨n, hn, hgreedy⟩ := ih h.restart
    obtain ⟨m, rfl, _, hbegun⟩ := h
    obtain rfl : n = m + 1 := by simp only [Scan.floor] at hn; omega
    refine ⟨m, rfl, greedy_pass hdoc hbegun (fun next hnext => ?_) hgreedy⟩
    obtain rfl := Option.some.inj hnext
    exact ⟨Bool.eq_false_iff.2 hclosed, Bool.eq_false_iff.2 hadmits⟩

/-! ## Reading comes to its end -/

/-- **The turns of the reading** from some place on, one for each line that is looked at and one for each
step back at the end of the document, and the samples that they come to. -/
inductive Turns (file : Path) : Scan → Int → List Text → Nat → List Sample → Prop where
  | done {index : Int} : Turns file .outside index [] 0 []
  | enter {index : Int} {line : Text} {rest : List Text} {fence : Fence} {n : Nat} {samples : List Sample} :
    Fence.read? line = some fence → Turns file (.inside fence index []) (index + 1) rest n samples →
      Turns file .outside index (line :: rest) (n + 1) samples
  | pass {index : Int} {line : Text} {rest : List Text} {n : Nat} {samples : List Sample} :
    Fence.read? line = none → Turns file .outside (index + 1) rest n samples →
      Turns file .outside index (line :: rest) (n + 1) samples
  | close {index start : Int} {line : Text} {rest lines : List Text} {fence : Fence} {n : Nat}
      {samples : List Sample} :
    fence.isClosedBy line = true → Turns file .outside (index + 1) rest n samples →
      Turns file (.inside fence start lines) index (line :: rest) (n + 1)
        (ofBlock file fence start lines :: samples)
  | collect {index start : Int} {line : Text} {rest lines : List Text} {fence : Fence} {n : Nat}
      {samples : List Sample} :
    fence.isClosedBy line = false → fence.admits line = true →
      Turns file (.inside fence start (lines ++ [line])) (index + 1) rest n samples →
      Turns file (.inside fence start lines) index (line :: rest) (n + 1) samples
  | breakOff {index start : Int} {line : Text} {rest lines : List Text} {fence : Fence} {n : Nat}
      {samples : List Sample} :
    fence.isClosedBy line = false → fence.admits line = false →
      Turns file .outside (start + 1) (lines ++ line :: rest) n samples →
      Turns file (.inside fence start lines) index (line :: rest) (n + 1) samples
  | giveUp {index start : Int} {lines : List Text} {fence : Fence} {n : Nat} {samples : List Sample} :
    Turns file .outside (start + 1) lines n samples →
      Turns file (.inside fence start lines) index [] (n + 1) samples

/-- The most turns that a number of lines can take: each may be an opening fence that was none. -/
def mostTurns (count : Nat) : Nat :=
  count * (count + 3) / 2

theorem mostTurns_succ (count : Nat) : mostTurns (count + 1) = mostTurns count + (count + 2) := by
  have hsquare : (count + 1) * (count + 1 + 3) = count * (count + 3) + 2 * (count + 2) := by ring
  rw [mostTurns, hsquare, Nat.add_mul_div_left _ _ Nat.two_pos, mostTurns]

theorem mostTurns_mono {m n : Nat} (h : m ≤ n) : mostTurns m ≤ mostTurns n :=
  Nat.div_le_div_right (Nat.mul_le_mul h (Nat.add_le_add_right h 3))

/-- The most turns from some place on. -/
def Scan.mostTurns (rest : List Text) : Scan → Nat
  | .outside => Sample.mostTurns rest.length
  | .inside _ _ lines => rest.length + 1 + Sample.mostTurns (lines.length + rest.length)

/-- **From wherever the reading is, it comes to its end.** -/
theorem exists_turns (file : Path) (state : Scan) (index : Int) (rest : List Text) :
    ∃ n ≤ Scan.mostTurns rest state, Turns file state index rest n (scan file state index rest) := by
  fun_induction scan file state index rest with
  | case1 index => exact ⟨0, Nat.zero_le _, .done⟩
  | case2 index line rest fence hread ih =>
    obtain ⟨n, hn, hturns⟩ := ih
    refine ⟨n + 1, ?_, .enter hread hturns⟩
    simp only [Scan.mostTurns, List.length_nil, List.length_cons, Nat.zero_add, mostTurns_succ] at hn ⊢
    omega
  | case3 index line rest hread ih =>
    obtain ⟨n, hn, hturns⟩ := ih
    refine ⟨n + 1, ?_, .pass hread hturns⟩
    simp only [Scan.mostTurns, List.length_cons, mostTurns_succ] at hn ⊢
    omega
  | case4 index fence start lines ih =>
    obtain ⟨n, hn, hturns⟩ := ih
    refine ⟨n + 1, ?_, .giveUp hturns⟩
    simp only [Scan.mostTurns, List.length_nil, Nat.add_zero] at hn ⊢
    omega
  | case5 index fence start lines line rest hclosed ih =>
    obtain ⟨n, hn, hturns⟩ := ih
    refine ⟨n + 1, ?_, .close hclosed hturns⟩
    have hmore : mostTurns rest.length ≤ mostTurns (lines.length + (rest.length + 1)) :=
      mostTurns_mono (by omega)
    simp only [Scan.mostTurns, List.length_cons] at hn ⊢
    omega
  | case6 index fence start lines line rest hclosed hadmits ih =>
    obtain ⟨n, hn, hturns⟩ := ih
    refine ⟨n + 1, ?_, .collect (Bool.eq_false_iff.2 hclosed) hadmits hturns⟩
    have hsame : lines.length + 1 + rest.length = lines.length + (rest.length + 1) := by omega
    simp only [Scan.mostTurns, List.length_append, List.length_cons, List.length_nil, Nat.zero_add,
      hsame] at hn ⊢
    omega
  | case7 index fence start lines line rest hclosed hadmits ih =>
    obtain ⟨n, hn, hturns⟩ := ih
    refine ⟨n + 1, ?_, .breakOff (Bool.eq_false_iff.2 hclosed) (Bool.eq_false_iff.2 hadmits) hturns⟩
    simp only [Scan.mostTurns, List.length_append, List.length_cons] at hn ⊢
    omega

/-- **The samples of a document are those of its lines**, and reading finds them in a number of turns that
the square of the number of lines bounds. -/
theorem findAll_greedy (text : Text) (file : Path) :
    (∀ samples, findAll text file = samples ↔ Greedy file text.documentLines 0 samples) ∧
      ∃ n ≤ text.documentLines.length * (text.documentLines.length + 3) / 2,
        Turns file .outside 0 text.documentLines n (findAll text file) := by
  have hdoc : ∀ line ∈ text.documentLines, '\n' ∉ line := by
    intro line hline
    obtain ⟨i, hi⟩ := List.mem_iff_getElem?.1 hline
    exact Text.newline_not_mem_documentLines hi
  have hstart : Scan.At text.documentLines .outside 0 text.documentLines := ⟨0, rfl, rfl⟩
  obtain ⟨n, hn, hgreedy⟩ : ∃ n : Nat, Scan.floor .outside 0 = n ∧ Greedy file text.documentLines n _ :=
    greedy_scan hdoc hstart
  obtain rfl : n = 0 := by simp only [Scan.floor] at hn; omega
  refine ⟨fun samples => ⟨?_, hgreedy.unique⟩, exists_turns file .outside 0 text.documentLines⟩
  rintro rfl
  exact hgreedy

end Sample

end Fenceline
