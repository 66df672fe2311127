import Fenceline.Proofs.Outcome
import Fenceline.Proofs.Pattern.Reading
import Mathlib.Data.List.Forall2

/-!
# Reading line by line

A pattern is **inline** if it takes no line feed and does not ask where the text begins or ends. What such a
pattern reads from a place is the same whether the text ends with the line or goes on behind a line feed, and
whether a line feed stands before the place or nothing does (`Cursor.Beside`, `forall₂_results`). The same holds
of any other character that a pattern does not take, such as a blank; so all of this is said of a separator
`sep`.

**The law** (`substituteM_line`): the matches of an inline pattern in lines are those in the first line and
those in the others, so they can be replaced line by line.
-/

namespace Fenceline

/-! ## Places that look alike -/

variable {sep : Char} {tail : Text}

/-- What a named part was read from, with more text behind. -/
def Capture.extend (tail : Text) (c : Capture) : Capture :=
  ⟨c.name, c.opened ++ tail, c.closed ++ tail⟩

/-- More text behind a part is none of it. -/
theorem Capture.text_extend (tail : Text) (c : Capture) : (c.extend tail).text = c.text := by
  have hlength : (c.opened ++ tail).length - (c.closed ++ tail).length =
      c.opened.length - c.closed.length := by
    simp only [List.length_append]
    omega
  unfold text extend
  dsimp only
  rw [hlength, List.take_append_of_le_length (Nat.sub_le _ _)]

namespace Cursor

/-- What stands before a place, or a separator where nothing does. -/
def LineBefore (sep : Char) (b b' : Option Char) : Prop :=
  b = b' ∨ b = none ∧ b' = some sep

/-- **A place in a line and the same place in a text that goes on behind the line.** -/
structure Beside (sep : Char) (tail : Text) (c d : Cursor) : Prop where
  before : LineBefore sep c.before d.before
  ahead : d.ahead = c.ahead ++ tail
  captures : d.captures = c.captures.map (·.extend tail)

variable {c d : Cursor} {accepts : Char → Bool}

/-- The separator is not accepted, so what is ahead decides. -/
theorem Beside.pass? (h : Beside sep tail c d) (htail : ∀ x ∈ tail.head?, x = sep)
    (haccepts : accepts sep = false) : Option.Rel (Beside sep tail) (c.pass? accepts) (d.pass? accepts) := by
  unfold Cursor.pass?
  rw [h.ahead]
  cases c.ahead with
  | cons x r =>
    rw [List.cons_append]
    by_cases hx : accepts x = true
    · dsimp only
      rw [if_pos hx, if_pos hx]
      exact .some ⟨.inl rfl, rfl, h.captures⟩
    · dsimp only
      rw [if_neg hx, if_neg hx]
      exact .none
  | nil =>
    cases tail with
    | nil => exact .none
    | cons y tail =>
      obtain rfl := htail y rfl
      rw [List.nil_append]
      dsimp only
      rw [haccepts]
      exact .none

theorem Beside.passText? (h : Beside sep tail c d) (htail : ∀ x ∈ tail.head?, x = sep) {t : Text}
    (ht : sep ∉ t) : Option.Rel (Beside sep tail) (c.passText? t) (d.passText? t) := by
  induction t generalizing c d with
  | nil => exact .some h
  | cons x t ih =>
    rw [List.mem_cons, not_or] at ht
    have hx : (sep == x) = false := beq_eq_false_iff_ne.2 ht.1
    have hfirst : Option.Rel (Beside sep tail) (c.pass? (· == x)) (d.pass? (· == x)) := h.pass? htail hx
    rw [Cursor.passText?, Cursor.passText?]
    generalize c.pass? (· == x) = e at hfirst ⊢
    generalize d.pass? (· == x) = f at hfirst ⊢
    cases hfirst with
    | none => exact .none
    | some hnext => exact ih hnext ht.2

theorem Beside.passes_go (h : c.captures.map (·.extend tail) = d.captures)
    (htail : ∀ x ∈ tail.head?, x = sep) (haccepts : accepts sep = false) (t : Text) {b b' : Option Char}
    (hb : LineBefore sep b b') :
    List.Forall₂ (Beside sep tail) (Cursor.passes.go accepts c b t)
      (Cursor.passes.go accepts d b' (t ++ tail)) := by
  induction t generalizing b b' with
  | cons x t ih =>
    rw [List.cons_append, Cursor.passes.go, Cursor.passes.go]
    refine .cons ⟨hb, rfl, h.symm⟩ ?_
    by_cases hx : accepts x = true
    · rw [if_pos hx, if_pos hx]
      exact ih (.inl rfl)
    · rw [if_neg hx, if_neg hx]
      exact .nil
  | nil =>
    rw [List.nil_append, Cursor.passes.go, Cursor.passes.go.eq_def]
    refine .cons ⟨hb, rfl, h.symm⟩ ?_
    cases tail with
    | nil => exact .nil
    | cons y tail =>
      obtain rfl := htail y rfl
      dsimp only
      rw [haccepts]
      exact .nil

end Cursor

namespace Pattern

open Cursor

variable {p q : Pattern} {c d : Cursor} {b b' : Option Char} {t : Text}

/-- **A pattern that reads within a line**, or between other separators. -/
def Inline (sep : Char) : Pattern → Prop
  | one accepts | many _ accepts | notAfter accepts => accepts sep = false
  | literal t => sep ∉ t
  | opt p | group _ p => p.Inline sep
  | seq p q | alt p q => p.Inline sep ∧ q.Inline sep
  | star _ | atStart | atEnd | wordEdge => False

instance instDecidableInline (sep : Char) : (p : Pattern) → Decidable (p.Inline sep)
  | one accepts | many _ accepts | notAfter accepts => inferInstanceAs (Decidable (accepts sep = false))
  | literal t => inferInstanceAs (Decidable (sep ∉ t))
  | opt p | group _ p => instDecidableInline sep p
  | seq p q | alt p q =>
    have := instDecidableInline sep p
    have := instDecidableInline sep q
    inferInstanceAs (Decidable (p.Inline sep ∧ q.Inline sep))
  | star _ | atStart | atEnd | wordEdge => inferInstanceAs (Decidable False)

/-- **A pattern reads the same in a line and in a text that goes on behind it.** -/
theorem forall₂_results (hp : p.Inline sep) (htail : ∀ x ∈ tail.head?, x = sep) (h : Beside sep tail c d) :
    List.Forall₂ (Beside sep tail) (p.results c) (p.results d) := by
  have hsingle : ∀ {o o' : Option Cursor}, Option.Rel (Beside sep tail) o o' →
      List.Forall₂ (Beside sep tail) o.toList o'.toList := by
    intro o o' hrel
    cases hrel with
    | none => exact .nil
    | some hcd => exact .cons hcd .nil
  induction p generalizing c d with
  | one accepts => exact hsingle (h.pass? htail hp)
  | literal text => exact hsingle (h.passText? htail hp)
  | many appetite accepts =>
    have hpasses := Beside.passes_go h.captures.symm htail hp c.ahead h.before
    rw [← h.ahead] at hpasses
    cases appetite with
    | greedy => exact List.forall₂_reverse_iff.2 hpasses
    | «lazy» => exact hpasses
  | opt p ih => exact List.rel_append (ih hp h) (.cons h .nil)
  | seq p q ihp ihq => exact List.rel_flatMap (ihp hp.1 h) fun _ _ hcd => ihq hp.2 hcd
  | alt p q ihp ihq => exact List.rel_append (ihp hp.1 h) (ihq hp.2 h)
  | group name p ih =>
    refine List.rel_map (fun e f hef => ?_) (ih hp h)
    refine ⟨hef.before, hef.ahead, ?_⟩
    show ⟨name, d.ahead, f.ahead⟩ :: f.captures = _
    rw [h.ahead, hef.ahead, hef.captures]
    rfl
  | notAfter accepts =>
    have hsame : c.before.any accepts = d.before.any accepts := by
      rcases h.before with heq | ⟨hnone, hfeed⟩
      · rw [heq]
      · rw [hnone, hfeed]
        exact (show accepts sep = false from hp).symm
    rw [results, results, hsame]
    split
    · exact .nil
    · exact .cons h .nil
  | star | atStart | atEnd | wordEdge => exact hp.elim

/-! ## Matches that look alike -/

/-- **A match in a line and the same match in a text that goes on behind it.** -/
structure Alike (sep : Char) (tail : Text) (m m' : Match) : Prop where
  opened : m'.opened = m.opened ++ tail
  closed : Beside sep tail m.closed m'.closed

variable {m m' : Match}

theorem Alike.rest (h : Alike sep tail m m') : m'.rest = m.rest ++ tail :=
  h.closed.ahead

theorem Alike.text (h : Alike sep tail m m') : m'.text = m.text := by
  have hlength : (m.opened ++ tail).length - (m.rest ++ tail).length = m.opened.length - m.rest.length := by
    simp only [List.length_append]
    omega
  rw [Match.text, Match.text, h.rest, h.opened, hlength, List.take_append_of_le_length (Nat.sub_le _ _)]

theorem Alike.get? (h : Alike sep tail m m') (name : String) : m'.get? name = m.get? name := by
  rw [Match.get?, Match.get?, h.closed.captures, List.find?_map, Option.map_map]
  congr 1
  exact funext (Capture.text_extend tail)

theorem Alike.get (h : Alike sep tail m m') (name : String) : m'.get name = m.get name := by
  rw [Match.get, Match.get, h.get?]

theorem rel_matchAt (hp : p.Inline sep) (htail : ∀ x ∈ tail.head?, x = sep) (hb : LineBefore sep b b') (t : Text) :
    Option.Rel (Alike sep tail) (p.matchAt b t) (p.matchAt b' (t ++ tail)) := by
  have hstart : Beside sep tail ⟨b, t, []⟩ ⟨b', t ++ tail, []⟩ := ⟨hb, rfl, rfl⟩
  have hresults := forall₂_results hp htail hstart
  rw [matchAt, matchAt, attempt_eq, attempt_eq]
  generalize p.results ⟨b, t, []⟩ = found at hresults ⊢
  generalize p.results ⟨b', t ++ tail, []⟩ = found' at hresults ⊢
  cases hresults with
  | nil => exact .none
  | cons hfirst _ => exact .some ⟨rfl, hfirst⟩

/-- A part of a line and the same part of a text that goes on behind it. -/
inductive SameSegment (sep : Char) (tail : Text) : Segment → Segment → Prop
  | plain (x : Char) : SameSegment sep tail (.plain x) (.plain x)
  | hit {m m' : Match} (h : Alike sep tail m m') : SameSegment sep tail (.hit m) (.hit m')

/-- **The parts of a line are those of the text that goes on behind it**, up to the end of the line. -/
theorem segmentsFrom_append (hp : p.Inline sep) (htail : ∀ x ∈ tail.head?, x = sep) (hb : LineBefore sep b b')
    (t : Text) : ∃ parts last, List.Forall₂ (SameSegment sep tail) (p.segmentsFrom b t) parts ∧
      p.segmentsFrom b' (t ++ tail) = parts ++ p.segmentsFrom last tail := by
  induction hn : t.length using Nat.strongRecOn generalizing t b b' with
  | ind n ih =>
    cases t with
    | nil => exact ⟨[], b', by rw [segmentsFrom]; exact .nil, rfl⟩
    | cons x t =>
      have hshort : t.length < n := hn ▸ Nat.lt_succ_self _
      obtain ⟨behind, last, hbehind, hsame⟩ := ih t.length hshort (.inl (rfl : some x = some x)) t rfl
      have hmatch := rel_matchAt hp htail hb (x :: t)
      rw [List.cons_append] at hmatch ⊢
      rw [segmentsFrom, segmentsFrom]
      generalize p.matchAt b (x :: t) = found at hmatch ⊢
      generalize p.matchAt b' (x :: (t ++ tail)) = found' at hmatch ⊢
      cases hmatch with
      | none =>
        refine ⟨.plain x :: behind, last, .cons (.plain x) hbehind, ?_⟩
        rw [hsame]
        rfl
      | @some m m' halike =>
        have hrest : m'.rest.length < (x :: (t ++ tail)).length ↔ m.rest.length < (x :: t).length := by
          rw [halike.rest, List.length_append, List.length_cons, List.length_append, List.length_cons]
          omega
        dsimp only
        by_cases hlt : m.rest.length < (x :: t).length
        · rw [if_pos hlt, if_pos (hrest.2 hlt)]
          obtain ⟨behind, last, hbehind, hsame⟩ := ih m.rest.length (hn ▸ hlt) halike.closed.before m.rest rfl
          refine ⟨.hit m' :: behind, last, .cons (.hit halike) hbehind, ?_⟩
          rw [halike.rest, hsame]
          rfl
        · rw [if_neg hlt, if_neg fun h => hlt (hrest.1 h)]
          refine ⟨.plain x :: behind, last, .cons (.plain x) hbehind, ?_⟩
          rw [hsame]
          rfl

/-- No match of an inline pattern takes the separator ahead. -/
theorem segmentsFrom_sep (hp : p.Inline sep) (b : Option Char) (t : Text) :
    p.segmentsFrom b (sep :: t) = .plain sep :: p.segmentsFrom (some sep) t := by
  have hhead : ∀ x ∈ (sep :: t).head?, x = sep := by simp
  have hnothing := rel_matchAt hp hhead (.inl (rfl : b = b)) []
  rw [List.nil_append] at hnothing
  rw [segmentsFrom]
  split
  · rename_i m' hm'
    rw [hm'] at hnothing
    generalize p.matchAt b [] = found at hnothing
    cases hnothing with
    | some halike =>
      have hrest := congrArg List.length halike.rest
      rw [List.length_append] at hrest
      rw [if_neg (by omega)]
  · rfl

/-! ## Replacing line by line -/

section

variable {ε : Type} {put : Match → Except ε Text}

/-- **What is put in the place of a match** depends on what the match says, and not on the text behind. -/
def Local (put : Match → Except ε Text) : Prop :=
  ∀ sep tail m m', Alike sep tail m m' → put m' = put m

theorem mapM_sameSegment (hput : Local put) {parts parts' : List Segment}
    (h : List.Forall₂ (SameSegment sep tail) parts parts') :
    parts'.mapM (putPart put) = parts.mapM (putPart put) := by
  induction h with
  | nil => rfl
  | cons hfirst _ ih =>
    rw [List.mapM_cons, List.mapM_cons, ih]
    cases hfirst with
    | plain x => rfl
    | hit halike => rw [putPart, putPart, hput _ _ _ _ halike]

/-- **The matches of an inline pattern are replaced line by line.** -/
theorem substituteM_line (hp : p.Inline sep) (hput : Local put) (t u : Text) :
    p.substituteM put (t ++ sep :: u) = do
      let t' ← p.substituteM put t
      let u' ← p.substituteM put u
      return t' ++ sep :: u' := by
  have hhead : ∀ x ∈ (sep :: u).head?, x = sep := by simp
  obtain ⟨first, last, hfirst, hline⟩ := segmentsFrom_append hp hhead (.inl (rfl : none = none)) t
  have hbehind : (p.segmentsFrom (some sep) u).mapM (putPart put) =
      (p.segmentsFrom none u).mapM (putPart put) := by
    have hnone : ∀ x ∈ ([] : Text).head?, x = sep := by simp
    obtain ⟨parts, last, hparts, hsame⟩ := segmentsFrom_append hp hnone (.inr ⟨rfl, rfl⟩) u
    rw [List.append_nil, segmentsFrom, List.append_nil] at hsame
    rw [hsame, mapM_sameSegment hput hparts]
  rw [substituteM_eq, substituteM_eq, substituteM_eq, segments, segments, segments, hline,
    segmentsFrom_sep hp, List.mapM_append, List.mapM_cons, mapM_sameSegment hput hfirst, hbehind]
  cases (p.segmentsFrom none t).mapM (putPart put) with
  | error e => rfl
  | ok parts =>
    cases (p.segmentsFrom none u).mapM (putPart put) with
    | error e => rfl
    | ok parts' =>
      simp [putPart, bind, Except.bind, pure, Except.pure]

/-- So are they if nothing can fail. -/
theorem substitute_line (hp : p.Inline sep) {put : Match → Text}
    (hput : ∀ sep tail m m', Alike sep tail m m' → put m' = put m) (t u : Text) :
    p.substitute put (t ++ sep :: u) = p.substitute put t ++ sep :: p.substitute put u := by
  have hlocal : Local fun m => (.ok (put m) : Except Empty Text) := fun sep tail m m' h =>
    congrArg Except.ok (hput sep tail m m' h)
  have hline := substituteM_line hp hlocal t u
  rw [substituteM_ok, substituteM_ok, substituteM_ok] at hline
  exact Except.ok.inj hline

end

end Pattern

end Fenceline
