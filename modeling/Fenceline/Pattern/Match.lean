import Fenceline.Pattern.Basic

/-!
# Finding patterns in texts

A match is a piece of a text that a pattern was read from, with the named parts of it. `find?` gives
the leftmost match; `segments` cuts a text into the matches that do not overlap, from left to right,
and the characters between them.

**The laws.** `text_append_rest`: a match and what follows it are the text it was read from.
`segments_text`: the segments are the text, nothing lost and nothing doubled.
-/

namespace Fenceline

/-- A piece of a text that a pattern was read from. -/
structure Match where
  /-- The text from the place where the match begins. -/
  opened : Text
  /-- The place behind the match, with the named parts. -/
  closed : Cursor

namespace Match

/-- The text behind the match. -/
def rest (m : Match) : Text :=
  m.closed.ahead

/-- The text of the match. -/
def text (m : Match) : Text :=
  m.opened.take (m.opened.length - m.rest.length)

/-- The text of a named part, if it was read. -/
def get? (m : Match) (name : String) : Option Text :=
  (m.closed.captures.find? (·.name == name)).map (·.text)

/-- The text of a named part, empty if it was not read. -/
def get (m : Match) (name : String) : Text :=
  (m.get? name).getD []

end Match

/-- A part of a text: a character outside all matches, or a match. -/
inductive Segment where
  | plain (c : Char)
  | hit (m : Match)

namespace Segment

/-- What a part of a text says. -/
def text : Segment → Text
  | plain c => [c]
  | hit m => m.text

end Segment

namespace Pattern

/-- The match that begins at the beginning of `t`, `before` being the character before it. -/
def matchAt (p : Pattern) (before : Option Char) (t : Text) : Option Match :=
  p.attempt { before, ahead := t } fun c => some ⟨t, c⟩

/-- The match at the beginning of a text. -/
def matchStart (p : Pattern) (t : Text) : Option Match :=
  p.matchAt none t

/-- The leftmost match in a text that stands behind the character `before`. -/
def findFrom (p : Pattern) (before : Option Char) (t : Text) : Option Match :=
  match p.matchAt before t with
  | some m => some m
  | none =>
    match t with
    | [] => none
    | x :: r => p.findFrom (some x) r

/-- The leftmost match in a text. -/
def find? (p : Pattern) (t : Text) : Option Match :=
  p.findFrom none t

/-- The parts of a text that stands behind the character `before`. A match of nothing is none. -/
def segmentsFrom (p : Pattern) (before : Option Char) (t : Text) : List Segment :=
  match t with
  | [] => []
  | x :: r =>
    match p.matchAt before (x :: r) with
    | some m =>
      if m.rest.length < (x :: r).length then .hit m :: p.segmentsFrom m.closed.before m.rest
      else .plain x :: p.segmentsFrom (some x) r
    | none => .plain x :: p.segmentsFrom (some x) r
termination_by t.length
decreasing_by all_goals simp_all

/-- The parts of a text. -/
def segments (p : Pattern) (t : Text) : List Segment :=
  p.segmentsFrom none t

/-- The text with every match put as `put` says. -/
def substitute (p : Pattern) (put : Match → Text) (t : Text) : Text :=
  (p.segments t).flatMap fun
    | .plain c => [c]
    | .hit m => put m

/-- The text with every match put as `put` says, unless it fails for one of them. -/
def substituteM {ε : Type} (p : Pattern) (put : Match → Except ε Text) (t : Text) : Except ε Text := do
  let parts ← (p.segments t).mapM fun
    | .plain c => Except.ok [c]
    | .hit m => put m
  return parts.flatten

/-! ## Matches are what they were read from -/

theorem ahead_of_pass? {c d : Cursor} {accepts : Char → Bool} (h : c.pass? accepts = some d) :
    d.ahead <:+ c.ahead := by
  unfold Cursor.pass? at h
  split at h
  · rename_i x r hc
    split at h
    · rw [Option.some.injEq] at h
      subst h
      rw [hc]
      exact List.suffix_cons x r
    · simp at h
  · simp at h

theorem ahead_of_passText? {c d : Cursor} {t : Text} (h : c.passText? t = some d) :
    d.ahead <:+ c.ahead := by
  induction t generalizing c with
  | nil => simp only [Cursor.passText?, Option.some.injEq] at h; exact h ▸ List.suffix_refl _
  | cons x t ih =>
    rw [Cursor.passText?] at h
    split at h
    · rename_i e he
      exact (ih h).trans (ahead_of_pass? he)
    · simp at h

theorem ahead_of_mem_go {c d : Cursor} {accepts : Char → Bool} (before : Option Char) (t : Text)
    (h : d ∈ Cursor.passes.go accepts c before t) : d.ahead <:+ t := by
  induction t generalizing before with
  | nil =>
    simp only [Cursor.passes.go, List.mem_singleton] at h
    exact h ▸ List.suffix_refl _
  | cons x r ih =>
    rw [Cursor.passes.go, List.mem_cons] at h
    rcases h with rfl | h
    · exact List.suffix_refl _
    · split at h
      · exact (ih _ h).trans (List.suffix_cons x r)
      · simp at h

theorem ahead_of_mem_starResults {step : Cursor → List Cursor}
    (hstep : ∀ c d, d ∈ step c → d.ahead <:+ c.ahead) (n : Nat) {c d : Cursor}
    (h : d ∈ starResults step n c) : d.ahead <:+ c.ahead := by
  induction n generalizing c with
  | zero => simp only [starResults, List.mem_singleton] at h; exact h ▸ List.suffix_refl _
  | succ n ih =>
    rw [starResults, List.mem_append, List.mem_flatMap] at h
    rcases h with ⟨e, he, h⟩ | h
    · exact (ih h).trans (hstep _ _ (List.mem_filter.1 he).1)
    · exact List.mem_singleton.1 h ▸ List.suffix_refl _

/-- Reading a pattern goes forward. -/
theorem ahead_of_mem_results (p : Pattern) {c d : Cursor} (h : d ∈ p.results c) :
    d.ahead <:+ c.ahead := by
  induction p generalizing c d with
  | one a => exact ahead_of_pass? (Option.mem_toList.1 h)
  | literal t => exact ahead_of_passText? (Option.mem_toList.1 h)
  | many how a =>
    cases how with
    | greedy => exact ahead_of_mem_go _ _ (List.mem_reverse.1 h)
    | «lazy» => exact ahead_of_mem_go _ _ h
  | star p ih => exact ahead_of_mem_starResults (fun _ _ => ih) _ h
  | opt p ih =>
    rcases List.mem_append.1 h with h | h
    · exact ih h
    · exact List.mem_singleton.1 h ▸ List.suffix_refl _
  | seq p q ihp ihq =>
    obtain ⟨e, he, hd⟩ := List.mem_flatMap.1 h
    exact (ihq hd).trans (ihp he)
  | alt p q ihp ihq =>
    rcases List.mem_append.1 h with h | h
    · exact ihp h
    · exact ihq h
  | group name p ih =>
    obtain ⟨e, he, rfl⟩ := List.mem_map.1 h
    exact ih (d := e) he
  | atStart => rw [results] at h; split at h <;> simp_all
  | atEnd => rw [results] at h; split at h <;> simp_all
  | wordEdge => rw [results] at h; split at h <;> simp_all
  | notAfter a => rw [results] at h; split at h <;> simp_all

/-- A match is a piece at the beginning of the text that it was read from. -/
theorem text_append_rest {p : Pattern} {before : Option Char} {t : Text} {m : Match}
    (h : p.matchAt before t = some m) : m.text ++ m.rest = t := by
  rw [matchAt, attempt_eq, List.findSome?_eq_some_iff] at h
  obtain ⟨l, c, l', hl, hm, _⟩ := h
  rw [Option.some.injEq] at hm
  subst hm
  obtain ⟨s, hs⟩ := ahead_of_mem_results p (d := c) (c := { before, ahead := t }) (by rw [hl]; simp)
  simp only [Match.text, Match.rest] at hs ⊢
  subst hs
  simp

/-- **The segments are the text.** -/
theorem segments_text (p : Pattern) (before : Option Char) (t : Text) :
    (p.segmentsFrom before t).flatMap Segment.text = t := by
  fun_induction segmentsFrom p before t with
  | case1 => rfl
  | case2 before x r m hm hlt ih =>
    rw [List.flatMap_cons, ih]
    exact text_append_rest hm
  | case3 before x r m hm hlt ih => simp [Segment.text, ih]
  | case4 before x r hm ih => simp [Segment.text, ih]

end Pattern

end Fenceline
