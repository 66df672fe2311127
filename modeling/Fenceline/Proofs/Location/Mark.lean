import Fenceline.Proofs.Location.FileUrl
import Fenceline.Proofs.Location.Reference
import Fenceline.Proofs.Pattern.Spelling

/-!
# Marks at the end of a path

A path may end in the mark of a sample's lines, and then in the extension of the sample's file. There is one
dollar sign in a mark, so a mark that a path ends in is not a part of a longer one, and what stands before it
does not matter to it (`IsMark.ne_append`).

**The laws.** `matchStart_whole_append`: a path with a mark behind it is read as a whole, with the path and the lines
of the mark as its parts. `unmarked_append`: it is, without its mark, the path. `unmarked_eq_self`: a path that does
not end in a mark has none to lose (`Unmarked`).

**What `Unmarked` has to leave out.** The end of a path is looked for before a line feed too: a path that ends
in a mark and a line feed loses the mark and keeps the line feed.
-/

namespace Fenceline.Reference

open Pattern

variable {p t mark : Text}

/-- **The mark of a sample's lines**, with an extension or without one. -/
inductive IsMark : Text → Prop
  | bare {first last : Text} : Digits first → Digits last → IsMark ('$' :: (first ++ '-' :: last))
  | extended {first last ending : Text} : Digits first → Digits last → ending ≠ [] →
    (∀ x ∈ ending, Text.isWord x = true) → IsMark ('$' :: (first ++ '-' :: (last ++ '.' :: ending)))

theorem isMark_of_ending {first last ending : Text} (hfirst : Digits first) (hlast : Digits last) (h : Ending ending) :
    IsMark ('$' :: (first ++ '-' :: (last ++ ending))) := by
  cases h with
  | nothing =>
    rw [List.append_nil]
    exact .bare hfirst hlast
  | extension hne hword => exact .extended hfirst hlast hne hword

/-- **A path that does not end in a mark**, and not in one before a line feed. -/
def Unmarked (p : Text) : Prop :=
  ∀ stem mark, IsMark mark → p ≠ stem ++ mark ∧ p ≠ stem ++ (mark ++ ['\n'])

/-- What the pattern for marks at the end reads before the end. -/
def markPieces : List Pattern :=
  [lit "$", digits, lit "-", digits, extension]

theorem suffix_eq : suffix = all (markPieces ++ [atEnd]) := rfl

theorem spells_digits_iff : digits.Spells t ↔ Digits t :=
  (spells_some1_iff .greedy Text.isDecimal t).trans ⟨fun h => ⟨h.1, h.2⟩, fun h => ⟨h.1, h.2⟩⟩

/-- **The pattern for marks spells just the marks.** -/
theorem spells_mark_iff : (all markPieces).Spells t ↔ IsMark t := by
  constructor
  · rintro ⟨_, _, rfl, ⟨first, _, hfirst, ⟨_, _, rfl, ⟨last, ending, hlast, hending, rfl⟩, rfl⟩, rfl⟩, rfl⟩
    have hfirst := spells_digits_iff.1 hfirst
    have hlast := spells_digits_iff.1 hlast
    rcases hending with ⟨_, ending, rfl, hending, rfl⟩ | rfl
    · obtain ⟨hne, hword⟩ := (spells_some1_iff .greedy Text.isWord _).1 hending
      exact .extended hfirst hlast hne hword
    · rw [List.append_nil]
      exact .bare hfirst hlast
  · rintro (⟨hfirst, hlast⟩ | ⟨hfirst, hlast, hne, hword⟩)
    · refine ⟨['$'], _, rfl, ⟨_, _, spells_digits_iff.2 hfirst, ⟨['-'], _, rfl, ⟨_, [], spells_digits_iff.2 hlast,
        .inr rfl, (List.append_nil _).symm⟩, rfl⟩, rfl⟩, rfl⟩
    · exact ⟨['$'], _, rfl, ⟨_, _, spells_digits_iff.2 hfirst, ⟨['-'], _, rfl, ⟨_, _, spells_digits_iff.2 hlast,
        .inl ⟨['.'], _, rfl, (spells_some1_iff .greedy Text.isWord _).2 ⟨hne, hword⟩, rfl⟩, rfl⟩, rfl⟩, rfl⟩, rfl⟩

/-! ## What a mark is made of -/

/-- A character of a mark. -/
def InMark (x : Char) : Prop :=
  x = '$' ∨ x = '-' ∨ x = '.' ∨ Text.isDecimal x = true ∨ Text.isWord x = true

theorem IsMark.exists_tail (h : IsMark t) : ∃ tail, t = '$' :: tail ∧ '$' ∉ tail ∧ ∀ x ∈ tail, InMark x := by
  have hdecimal : ∀ {run : Text}, Digits run → '$' ∉ run ∧ ∀ x ∈ run, InMark x := fun hrun =>
    ⟨fun hmem => absurd (hrun.isDecimal '$' hmem) (by decide), fun x hx => .inr (.inr (.inr (.inl (hrun.isDecimal x hx))))⟩
  cases h with
  | @bare first last hfirst hlast =>
    refine ⟨first ++ '-' :: last, rfl, ?_, fun x hx => ?_⟩
    · simp [(hdecimal hfirst).1, (hdecimal hlast).1]
    · rcases List.mem_append.1 hx with hx | hx
      · exact (hdecimal hfirst).2 x hx
      · rcases List.mem_cons.1 hx with rfl | hx
        · exact .inr (.inl rfl)
        · exact (hdecimal hlast).2 x hx
  | @extended first last ending hfirst hlast _ hword =>
    have hending : '$' ∉ ending := fun hmem => absurd (hword '$' hmem) (by decide)
    refine ⟨first ++ '-' :: (last ++ '.' :: ending), rfl, ?_, fun x hx => ?_⟩
    · simp [(hdecimal hfirst).1, (hdecimal hlast).1, hending]
    · simp only [List.mem_append, List.mem_cons] at hx
      rcases hx with hx | rfl | hx | rfl | hx
      · exact (hdecimal hfirst).2 x hx
      · exact .inr (.inl rfl)
      · exact (hdecimal hlast).2 x hx
      · exact .inr (.inr (.inl rfl))
      · exact .inr (.inr (.inr (.inr (hword x hx))))

/-- **A mark means nothing in a URL.** -/
theorem IsMark.plain (h : IsMark t) : FileUrl.Plain t := by
  have hnone : ∀ x ∈ ['%', '?', '#', '\t', '\r', '\n'], ¬ InMark x := by
    simp only [List.forall_mem_cons, List.not_mem_nil, false_implies, implies_true, and_true, InMark]
    decide +kernel
  obtain ⟨tail, rfl, -, htail⟩ := h.exists_tail
  exact List.forall_mem_cons.2 ⟨fun hmem => hnone '$' hmem (.inl rfl), fun x hx hmem => hnone x hmem (htail x hx)⟩

theorem IsMark.newline_not_mem (h : IsMark t) : '\n' ∉ t := fun hmem => h.plain '\n' hmem (by decide)

/-- A text that ends in a line feed does not end in a mark. -/
theorem IsMark.ne_append_newline (h : IsMark t) (stem u : Text) : u ++ ['\n'] ≠ stem ++ t := by
  intro heq
  obtain ⟨tail, htail, -⟩ := h.exists_tail
  have hlast : t.getLast? = some '\n' := by
    rw [← List.getLast?_append_of_ne_nil stem (by simp [htail]), ← heq, List.getLast?_concat]
  exact h.newline_not_mem (List.mem_of_getLast? hlast)

/-- **A mark at the end of a text is the one that is read there**: the dollar sign of the mark would stand behind
that of a mark which begins before it. -/
theorem IsMark.ne_append {other rest : Text} (h : IsMark t) (hother : IsMark other) {front : Text} (hfront : front ≠ [])
    (hrest : rest = [] ∨ rest = ['\n']) : front ++ t ≠ other ++ rest := by
  intro heq
  obtain ⟨x, front, rfl⟩ := List.exists_cons_of_ne_nil hfront
  obtain ⟨tail, rfl, hdollar, -⟩ := hother.exists_tail
  obtain ⟨markTail, rfl, -⟩ := h.exists_tail
  have htail : front ++ '$' :: markTail = tail ++ rest := (List.cons.inj heq).2
  have hmem : '$' ∈ tail ++ rest := htail ▸ List.mem_append_right front List.mem_cons_self
  rcases hrest with rfl | rfl <;> simp [hdollar] at hmem

/-! ## Paths with their marks -/

/-- Where a mark is read up to the end there is one, and nothing behind it but perhaps a line feed. The pieces of the
mark may be named ones. -/
theorem isMark_of_mem {pieces : List Pattern} (hpieces : ∀ mark, (all pieces).Spells mark → IsMark mark) {c d : Cursor}
    (h : d ∈ (all (pieces ++ [atEnd])).results c) :
    ∃ mark, IsMark mark ∧ c.ahead = mark ++ d.ahead ∧ (d.ahead = [] ∨ d.ahead = ['\n']) := by
  obtain ⟨mark, e, hmark, hahead, hend⟩ := mem_all_concat h
  obtain ⟨rfl, hrest⟩ := ahead_eq_of_mem_atEnd hend
  exact ⟨mark, hpieces mark hmark, hahead, hrest⟩

/-- Where something stands in front of a mark, no mark is read up to the end. -/
theorem IsMark.results_marked_eq_nil (h : IsMark t) {front : Text} (hfront : front ≠ []) {c : Cursor}
    (hc : c.ahead = front ++ t) : (all (marked ++ [atEnd])).results c = [] := by
  have hnamed : ∀ mark, (all marked).Spells mark → IsMark mark := fun _ => spells_mark_iff.1
  refine List.eq_nil_iff_forall_not_mem.2 fun d hd => ?_
  obtain ⟨other, hother, hread, hrest⟩ := isMark_of_mem hnamed hd
  exact h.ne_append hother hfront hrest (hc.symm.trans hread)

/-- **A path with a mark is read as a whole**, with its parts, whatever the path is like: a path that ends too early
leaves some of the path in front of the mark. -/
theorem matchStart_whole_append (hline : '\n' ∉ p) {first last ending : Text} (hfirst : Digits first)
    (hlast : Digits last) (hending : Ending ending) :
    ∃ m, whole.matchStart (p ++ '$' :: (first ++ '-' :: (last ++ ending))) = some m ∧ m.rest = [] ∧
      m.get? "file" = some p ∧ m.get? "start" = some first ∧ m.get? "end" = some last := by
  have hnothing : ∀ x ∈ ([] : Text).head?, x ≠ '.' ∧ Text.isWord x = false := fun x hx => nomatch hx
  have hnoDigit : NoDigit ([] : Text) := fun x hx => nomatch hx
  have hmarked : ∀ b caps, (all (marked ++ [atEnd])).First ⟨b, '$' :: (first ++ '-' :: (last ++ (ending ++ []))), caps⟩ _ :=
    fun b caps => (first_char '$').seq ((first_digits hfirst (noDigit_cons (by decide) _) "start").seq
      ((first_char '-').seq ((first_digits hlast (hending.noDigit hnoDigit) "end").seq
        ((first_ending hending hnothing).seq (first_atEnd rfl)))))
  rw [List.append_nil] at hmarked
  let start : Cursor := ⟨none, p ++ '$' :: (first ++ '-' :: (last ++ ending)), []⟩
  obtain ⟨short, long, hlazy, hshort⟩ :=
    results_lazy_run none [] (notNewline_of_not_mem hline) ('$' :: (first ++ '-' :: (last ++ ending)))
  have hfiles : (group "file" something).results start = short.map (start.capture "file") ++
      start.capture "file" ⟨behind none p, '$' :: (first ++ '-' :: (last ++ ending)), []⟩ ::
        long.map (start.capture "file") := by
    rw [results, something, hlazy, List.map_append, List.map_cons]
  have hdead : ∀ c ∈ short.map (start.capture "file"), (all (marked ++ [atEnd])).results c = [] := by
    intro c hc
    obtain ⟨c, hshorter, rfl⟩ := List.mem_map.1 hc
    obtain ⟨front, hfront, -, hahead⟩ := hshort c hshorter
    exact (isMark_of_ending hfirst hlast hending).results_marked_eq_nil hfront hahead
  have hstart : atStart.First start start := rfl
  refine ⟨_, matchAt_of_first (hstart.seq (first_seq_of_dead hfiles hdead (hmarked _ _))), rfl, ?_, ?_, ?_⟩
  · exact congrArg some (text_capture "file" p _)
  · exact congrArg some (text_capture "start" first _)
  · exact congrArg some (text_capture "end" last _)

/-! ## Paths without their marks -/

/-- Where a mark is read, there is one, and nothing behind it but perhaps a line feed. -/
theorem isMark_of_matchAt {b : Option Char} {m : Match} (h : suffix.matchAt b t = some m) :
    ∃ mark, IsMark mark ∧ t = mark ++ m.rest ∧ (m.rest = [] ∨ m.rest = ['\n']) := by
  have hmem := mem_results_of_matchAt h
  rw [suffix_eq] at hmem
  exact isMark_of_mem (fun _ => spells_mark_iff.1) hmem

/-- **A path that does not end in a mark is no reference.** -/
theorem matchStart_whole_of_unmarked (h : Unmarked p) : whole.matchStart p = none := by
  refine Option.eq_none_iff_forall_ne_some.2 fun m hm => ?_
  have hmem : m.closed ∈ (all ([atStart, group "file" something] ++ marked ++ [atEnd])).results ⟨none, p, []⟩ :=
    mem_results_of_matchAt hm
  obtain ⟨_, e, ⟨_, _, rfl, ⟨stem, mark, _, hmark, rfl⟩, rfl⟩, hahead, hend⟩ := mem_all_concat hmem
  have hmark : IsMark mark := spells_mark_iff.1 hmark
  obtain ⟨hclosed, hrest⟩ := ahead_eq_of_mem_atEnd hend
  rw [List.nil_append, List.append_assoc] at hahead
  rcases hrest with hrest | hrest
  · exact (h stem mark hmark).1 (by rw [← List.append_nil mark, ← hrest]; exact hahead)
  · exact (h stem mark hmark).2 (by rw [← hrest]; exact hahead)

/-- A mark is read to its end. -/
theorem IsMark.matchAt (h : IsMark t) (b : Option Char) : ∃ m, suffix.matchAt b t = some m ∧ m.rest = [] := by
  have hall : (all markPieces).Anywhere = true := by decide
  obtain ⟨e, he, hnothing⟩ :=
    mem_of_spells (c := ⟨b, t, []⟩) (all markPieces) hall (spells_mark_iff.2 h) (List.append_nil t).symm
  have hmem : e ∈ suffix.results ⟨b, t, []⟩ := mem_all_concat_of_mem he (mem_results_atEnd hnothing)
  obtain ⟨m, hm⟩ := exists_matchAt_of_mem hmem
  refine ⟨m, hm, ?_⟩
  obtain ⟨mark, -, ht, hrest⟩ := isMark_of_matchAt hm
  rcases hrest with hrest | hrest
  · exact hrest
  · rw [hrest] at ht
    exact absurd (by rw [ht]; simp) h.newline_not_mem

/-- **A path with a mark behind it is, without its mark, the path**, whatever the path ends in. -/
theorem unmarked_append (h : IsMark mark) (p : Text) : unmarked (p ++ mark) = p := by
  have hmark : suffix.Turns (fun _ => (.ok [] : Except Empty Text)) mark ([] ++ []) := by
    refine Turns.hit ?_ (fun b => ?_) Turns.nil
    · obtain ⟨tail, rfl, -⟩ := h.exists_tail
      exact Nat.succ_pos _
    · obtain ⟨m, hm, hrest⟩ := h.matchAt b
      exact ⟨m, hm, hrest, rfl⟩
  have hturns : suffix.Turns (fun _ => (.ok [] : Except Empty Text)) (p ++ mark) (p ++ []) := by
    refine Turns.through (fun v hv _ b m hm => ?_) hmark
    obtain ⟨other, hother, heq, hrest⟩ := isMark_of_matchAt hm
    exact absurd heq (h.ne_append hother hv hrest)
  rw [List.append_nil] at hturns
  exact substitute_of_turns hturns

/-- **A path that does not end in a mark stays.** -/
theorem unmarked_eq_self (h : Unmarked p) : unmarked p = p := by
  have hturns : suffix.Turns (fun _ => (.ok [] : Except Empty Text)) (p ++ []) (p ++ []) := by
    refine Turns.through (fun v _ hv b m hm => ?_) Turns.nil
    obtain ⟨stem, rfl⟩ := hv
    rw [List.append_nil] at hm
    obtain ⟨mark, hmark, rfl, hrest⟩ := isMark_of_matchAt hm
    obtain ⟨hend, hline⟩ := h stem mark hmark
    rcases hrest with hrest | hrest
    · exact absurd (by rw [hrest, List.append_nil]) hend
    · exact absurd (by rw [hrest]) hline
  rw [List.append_nil] at hturns
  exact substitute_of_turns hturns

theorem unmarked_of_dollar_not_mem (h : '$' ∉ t) : Unmarked t := by
  intro stem mark hmark
  obtain ⟨tail, rfl, -⟩ := hmark.exists_tail
  constructor <;> rintro rfl <;> simp at h

/-- **A path without a dollar sign has no mark.** -/
theorem unmarked_of_not_mem (h : '$' ∉ t) : unmarked t = t :=
  unmarked_eq_self (unmarked_of_dollar_not_mem h)

end Fenceline.Reference
