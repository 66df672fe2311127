import Fenceline.Line.Splitter
import Mathlib.Data.List.Basic

/-!
# A stream in chunks

A stream is read chunk by chunk, and whatever chunk stops within a line shows a part of it. The lines of
a whole stream are therefore bursts: any number of parts, then the finished line that they are parts of.

**The laws.** `finished_read`: the finished lines of a stream are those of its bytes, however they were
cut. `lines_bursts`: behind the last finished line nothing is left, so a stream is its bursts.
-/

namespace Fenceline

/-- Parts of a line as they came, and then the line. -/
structure Burst where
  parts : List Line
  line : Line
  deriving DecidableEq, Repr

namespace Burst

/-- The lines of a burst, in the order in which they came. -/
def lines (b : Burst) : List Line :=
  b.parts ++ [b.line]

/-- Lines cut behind every finished one; parts that no finished line follows are left out. -/
def ofLines : List Line → List Burst
  | [] => []
  | line :: rest =>
    if line.final then ⟨[], line⟩ :: ofLines rest
    else
      match ofLines rest with
      | [] => []
      | b :: bs => { b with parts := line :: b.parts } :: bs

theorem final_getLast?_of_cons {line : Line} {rest : List Line}
    (h : ∀ l ∈ (line :: rest).getLast?, l.final = true) : ∀ l ∈ rest.getLast?, l.final = true := by
  intro l hl
  refine h l ?_
  rw [List.getLast?_cons, Option.mem_def.1 hl]
  rfl

/-- **The bursts of a text whose last line is finished are the whole text.** -/
theorem lines_ofLines {lines : List Line} (hlast : ∀ l ∈ lines.getLast?, l.final = true) :
    (ofLines lines).flatMap Burst.lines = lines := by
  induction lines with
  | nil => rfl
  | cons line rest ih =>
    specialize ih (final_getLast?_of_cons hlast)
    rw [ofLines]
    split
    · rw [List.flatMap_cons, ih]
      rfl
    · rename_i hpart
      cases hb : ofLines rest with
      | nil =>
        -- a part cannot be the last line
        rw [hb] at ih
        obtain rfl : [] = rest := ih
        exact absurd (hlast line rfl) hpart
      | cons b bs =>
        rw [hb, List.flatMap_cons] at ih
        rw [List.flatMap_cons, ← ih]
        rfl

/-- The last lines of the bursts are the finished lines. -/
theorem map_line_ofLines {lines : List Line} (hlast : ∀ l ∈ lines.getLast?, l.final = true) :
    (ofLines lines).map (·.line) = Splitter.finished lines := by
  induction lines with
  | nil => rfl
  | cons line rest ih =>
    specialize ih (final_getLast?_of_cons hlast)
    rw [ofLines, Splitter.finished, List.filter_cons]
    split
    · rw [List.map_cons, ih]
      rfl
    · change _ = Splitter.finished rest
      rw [← ih]
      cases ofLines rest <;> rfl

/-- Parts are no finished lines, and what they are parts of is one. -/
theorem final_of_mem_ofLines {lines : List Line} :
    ∀ b ∈ ofLines lines, (∀ l ∈ b.parts, l.final = false) ∧ b.line.final = true := by
  induction lines with
  | nil => simp [ofLines]
  | cons line rest ih =>
    intro b hb
    rw [ofLines] at hb
    split at hb
    · rename_i hfinal
      rcases List.mem_cons.1 hb with rfl | hb
      · exact ⟨List.forall_mem_nil _, hfinal⟩
      · exact ih b hb
    · rename_i hpart
      cases hrest : ofLines rest with
      | nil => simp [hrest] at hb
      | cons c cs =>
        rw [hrest] at hb ih
        rcases List.mem_cons.1 hb with rfl | hb
        · obtain ⟨hparts, hline⟩ := ih c List.mem_cons_self
          refine ⟨fun l hl => ?_, hline⟩
          rcases List.mem_cons.1 hl with rfl | hl
          · exact Bool.eq_false_iff.2 hpart
          · exact hparts l hl
        · exact ih b (List.mem_cons_of_mem _ hb)

end Burst

namespace Splitter

/-- The lines of a stream that comes in chunks and then ends. -/
def read (s : Splitter) : List Bytes → List Line
  | [] => s.close.1
  | chunk :: rest => (s.feed chunk).1 ++ (s.feed chunk).2.read rest

/-- The lines of a chunk are those that it finishes and the part that it leaves. -/
theorem feed_eq (s : Splitter) (chunk : Bytes) :
    (s.feed chunk).1 =
      ({ s with decoder := (s.decoder.feed chunk).2 }.extend (Utf8.patched (s.decoder.feed chunk).1)).1 ++
        (s.feed chunk).2.fragment false :=
  rfl

/-- The end of a stream finishes what was begun. -/
theorem close_eq (s : Splitter) :
    let t := { s with decoder := .ready }.extend (Utf8.patched s.decoder.finish)
    s.close.1 = t.1 ++ t.2.fragment true :=
  rfl

/-- What was begun is no line yet. -/
def Within (s : Splitter) : Prop :=
  Text.cutLines s.begun = ([], s.begun)

theorem within_fresh (stream : Stream) : ({ stream } : Splitter).Within := rfl

theorem within_feed (s : Splitter) (chunk : Bytes) : (s.feed chunk).2.Within := by
  have h := Text.cutLines_append (s.begun ++ Utf8.patched (s.decoder.feed chunk).1) []
  rw [List.append_nil, List.append_nil] at h
  obtain ⟨hlines, hrest⟩ := Prod.mk.inj h
  exact Prod.ext (List.append_cancel_left (hlines.symm.trans (List.append_nil _).symm)) hrest.symm

/-- An empty chunk gives no finished line. -/
theorem Within.feed_nil {s : Splitter} (h : s.Within) :
    finished (s.feed []).1 = [] ∧ (s.feed []).2 = s := by
  unfold Within at h
  simp only [feed, Utf8.Decoder.feed, Utf8.patched, List.map_nil, extend, List.append_nil, h,
    List.nil_append, finished_fragment, and_self]

/-- **The finished lines of a stream are those of its bytes, however they were cut.** -/
theorem finished_read {s : Splitter} (h : s.Within) (chunks : List Bytes) :
    finished (s.read chunks) =
      finished (s.feed chunks.flatten).1 ++ finished (s.feed chunks.flatten).2.close.1 := by
  induction chunks generalizing s with
  | nil =>
    obtain ⟨hnone, hsame⟩ := h.feed_nil
    rw [List.flatten_nil, hnone, hsame]
    rfl
  | cons chunk rest ih =>
    obtain ⟨hlines, hstate⟩ := finished_feed_append s chunk rest.flatten
    rw [read, finished_append, ih (within_feed s chunk), List.flatten_cons, ← hlines, ← hstate,
      List.append_assoc]

/-- Whatever was begun is finished by more characters or is left begun. -/
theorem extend_ne_nil {s : Splitter} (h : s.begun ≠ []) (t : Text) :
    (s.extend t).1 ≠ [] ∨ (s.extend t).2.begun ≠ [] := by
  have hall := Text.unlines_cutLines (s.begun ++ t)
  by_contra hnone
  simp only [extend, ne_eq, List.map_eq_nil_iff, not_or, not_not] at hnone
  rw [hnone.1, hnone.2] at hall
  exact h (List.append_eq_nil_iff.1 hall.symm).1

theorem final_of_mem_extend {s : Splitter} {t : Text} {l : Line} (h : l ∈ (s.extend t).1) :
    l.final = true := by
  obtain ⟨_, _, rfl⟩ := List.mem_map.1 h
  rfl

theorem fragment_of_ne_nil {s : Splitter} (h : s.begun ≠ []) (final : Bool) :
    s.fragment final = [⟨s.stream, s.begun, final⟩] := by
  simp [fragment, h]

theorem fragment_of_nil {s : Splitter} (h : s.begun = []) (final : Bool) : s.fragment final = [] := by
  simp [fragment, h]

theorem final_of_mem_close {s : Splitter} {l : Line} (h : l ∈ s.close.1) : l.final = true := by
  rw [close_eq] at h
  rcases List.mem_append.1 h with h | h
  · exact final_of_mem_extend h
  · by_cases hleft : ({ s with decoder := .ready }.extend (Utf8.patched s.decoder.finish)).2.begun = []
    · rw [fragment_of_nil hleft] at h
      cases h
    · rw [fragment_of_ne_nil hleft, List.mem_singleton] at h
      rw [h]

theorem close_ne_nil {s : Splitter} (h : s.begun ≠ []) : s.close.1 ≠ [] := by
  intro hnone
  rw [close_eq] at hnone
  obtain ⟨hlines, hleft⟩ := List.append_eq_nil_iff.1 hnone
  rcases extend_ne_nil (s := { s with decoder := .ready }) h (Utf8.patched s.decoder.finish) with
    hsome | hsome
  · exact hsome hlines
  · rw [fragment_of_ne_nil hsome] at hleft
    cases hleft

/-- What a chunk leaves begun is shown by a part of a line, and nothing else is unfinished. -/
theorem final_of_mem_feed {s : Splitter} {chunk : Bytes} (h : (s.feed chunk).2.begun = []) {l : Line}
    (hl : l ∈ (s.feed chunk).1) : l.final = true := by
  rw [feed_eq, fragment_of_nil h, List.append_nil] at hl
  exact final_of_mem_extend hl

/-- **The last line of a stream is finished**, and a stream with something begun has a last line. -/
theorem final_getLast?_read (chunks : List Bytes) (s : Splitter) :
    (∀ l ∈ (s.read chunks).getLast?, l.final = true) ∧ (s.begun ≠ [] → s.read chunks ≠ []) := by
  induction chunks generalizing s with
  | nil => exact ⟨fun l hl => final_of_mem_close (List.mem_of_getLast? hl), close_ne_nil⟩
  | cons chunk rest ih =>
    obtain ⟨hlast, hsome⟩ := ih (s.feed chunk).2
    refine ⟨fun l hl => ?_, fun hbegun hnone => ?_⟩
    · rw [read, List.getLast?_append] at hl
      cases hrest : ((s.feed chunk).2.read rest).getLast? with
      | none =>
        have hempty : (s.feed chunk).2.begun = [] := by
          by_contra hbegun
          exact hsome hbegun (List.getLast?_eq_none_iff.1 hrest)
        rw [hrest] at hl
        exact final_of_mem_feed hempty (List.mem_of_getLast? hl)
      | some m =>
        rw [hrest] at hl
        obtain rfl : m = l := Option.some.inj hl
        exact hlast m hrest
    · rw [read, List.append_eq_nil_iff] at hnone
      rcases extend_ne_nil (s := { s with decoder := (s.decoder.feed chunk).2 }) hbegun
        (Utf8.patched (s.decoder.feed chunk).1) with hlines | hleft
      · exact hlines (List.append_eq_nil_iff.1 hnone.1).1
      · exact hsome hleft hnone.2

/-! ## The stream of a line -/

theorem stream_of_mem_extend {s : Splitter} {t : Text} {l : Line} (h : l ∈ (s.extend t).1) :
    l.stream = s.stream := by
  obtain ⟨_, _, rfl⟩ := List.mem_map.1 h
  rfl

theorem stream_of_mem_fragment {s : Splitter} {final : Bool} {l : Line} (h : l ∈ s.fragment final) :
    l.stream = s.stream := by
  by_cases hbegun : s.begun = []
  · rw [fragment_of_nil hbegun] at h
    cases h
  · rw [fragment_of_ne_nil hbegun, List.mem_singleton] at h
    rw [h]

theorem stream_of_mem_feed {s : Splitter} {chunk : Bytes} {l : Line} (h : l ∈ (s.feed chunk).1) :
    l.stream = s.stream := by
  rw [feed_eq] at h
  exact (List.mem_append.1 h).elim stream_of_mem_extend stream_of_mem_fragment

theorem stream_of_mem_close {s : Splitter} {l : Line} (h : l ∈ s.close.1) : l.stream = s.stream := by
  rw [close_eq] at h
  exact (List.mem_append.1 h).elim stream_of_mem_extend stream_of_mem_fragment

/-- **A stream is its bursts.** -/
theorem lines_bursts (s : Splitter) (chunks : List Bytes) :
    (Burst.ofLines (s.read chunks)).flatMap Burst.lines = s.read chunks :=
  Burst.lines_ofLines (final_getLast?_read chunks s).1

end Splitter

end Fenceline
