import Fenceline.Proofs.Pattern.Spelling

/-!
# The parts of what was read

What a pattern spells can be told together with the parts that it names in it (`Parses`). A part is named where it
ends, so the parts stand in the order of their ends, the last one first, and of two parts under one name the last one
holds.

**The law** (`parses_of_matchAt`): a match is a text of its pattern with the parts that the pattern names in it. So
what a pattern with named parts has read is put together from them.
-/

namespace Fenceline

/-- The parts that were named up to a place, the last one first. -/
def Cursor.named (c : Cursor) : List (String × Text) :=
  c.captures.map fun part => (part.name, part.text)

namespace Pattern

variable {p q : Pattern} {c d : Cursor} {accepts : Char → Bool}

/-- **The texts of a pattern, with the parts that it names in them.** -/
def Parses : Pattern → Text → List (String × Text) → Prop
  | star p, t, parts => ∃ pieces : List (Text × List (String × Text)), (∀ piece ∈ pieces, p.Parses piece.1 piece.2) ∧
    t = pieces.flatMap (·.1) ∧ parts = pieces.reverse.flatMap (·.2)
  | opt p, t, parts => p.Parses t parts ∨ t = [] ∧ parts = []
  | seq p q, t, parts => ∃ u v before behind, p.Parses u before ∧ q.Parses v behind ∧ t = u ++ v ∧
    parts = behind ++ before
  | alt p q, t, parts => p.Parses t parts ∨ q.Parses t parts
  | group name p, t, parts => ∃ inside, p.Parses t inside ∧ parts = (name, t) :: inside
  | one accepts, t, parts => (one accepts).Spells t ∧ parts = []
  | literal text, t, parts => (literal text).Spells t ∧ parts = []
  | many how accepts, t, parts => (many how accepts).Spells t ∧ parts = []
  | atStart, t, parts | atEnd, t, parts | wordEdge, t, parts | notAfter _, t, parts => t = [] ∧ parts = []

/-- What is told with its parts is spelled. -/
theorem spells_of_parses {t : Text} {parts : List (String × Text)} (h : p.Parses t parts) : p.Spells t := by
  induction p generalizing t parts with
  | one | literal | many => exact h.1
  | star p ih =>
    obtain ⟨pieces, hpieces, rfl, -⟩ := h
    refine ⟨pieces.map (·.1), List.forall_mem_map.2 fun piece hpiece => ih (hpieces piece hpiece), ?_⟩
    rw [List.flatMap_def]
  | opt p ih => exact h.imp ih And.left
  | seq p q ihp ihq =>
    obtain ⟨u, v, before, behind, hu, hv, rfl, -⟩ := h
    exact ⟨u, v, ihp hu, ihq hv, rfl⟩
  | alt p q ihp ihq => exact h.imp ihp ihq
  | group name p ih =>
    obtain ⟨inside, hp, -⟩ := h
    exact ih hp
  | atStart | atEnd | wordEdge | notAfter => exact h.1

/-- A pattern without names names nothing. -/
theorem parts_eq_nil {t : Text} {parts : List (String × Text)} (hnames : p.names = []) (h : p.Parses t parts) :
    parts = [] := by
  induction p generalizing t parts with
  | star p ih =>
    obtain ⟨pieces, hpieces, -, rfl⟩ := h
    exact List.flatMap_eq_nil_iff.2 fun piece hpiece => ih hnames (hpieces piece (List.mem_reverse.1 hpiece))
  | opt p ih => exact h.elim (ih hnames) And.right
  | seq p q ihp ihq =>
    obtain ⟨hp, hq⟩ := List.append_eq_nil_iff.1 hnames
    obtain ⟨u, v, before, behind, hu, hv, -, rfl⟩ := h
    rw [ihp hp hu, ihq hq hv, List.append_nil]
  | alt p q ihp ihq =>
    obtain ⟨hp, hq⟩ := List.append_eq_nil_iff.1 hnames
    exact h.elim (ihp hp) (ihq hq)
  | group name p => cases hnames
  | _ => exact h.2

/-! ## Places without names -/

theorem captures_of_pass? (h : c.pass? accepts = some d) : d.captures = c.captures := by
  unfold Cursor.pass? at h
  split at h
  · split at h
    · cases h
      rfl
    · cases h
  · cases h

theorem captures_of_passText? {t : Text} (h : c.passText? t = some d) : d.captures = c.captures := by
  induction t generalizing c with
  | nil =>
    cases h
    rfl
  | cons x t ih =>
    rw [Cursor.passText?] at h
    split at h
    · rename_i e he
      rw [ih h, captures_of_pass? he]
    · cases h

theorem captures_of_mem_go {before : Option Char} {t : Text} (h : d ∈ Cursor.passes.go accepts c before t) :
    d.captures = c.captures := by
  induction t generalizing before with
  | nil =>
    rw [Cursor.passes.go, List.mem_singleton] at h
    rw [h]
  | cons x t ih =>
    rw [Cursor.passes.go, List.mem_cons] at h
    rcases h with rfl | h
    · rfl
    · split at h
      · exact ih h
      · cases h

theorem captures_of_mem_many {how : Appetite} (h : d ∈ (many how accepts).results c) : d.captures = c.captures := by
  cases how with
  | greedy => exact captures_of_mem_go (List.mem_reverse.1 h)
  | «lazy» => exact captures_of_mem_go h

/-! ## What is read, with its parts -/

/-- A place behind a pattern, with what was read and named on the way. -/
def Behind (p : Pattern) (c d : Cursor) : Prop :=
  ∃ w parts, p.Parses w parts ∧ c.ahead = w ++ d.ahead ∧ d.named = parts ++ c.named

theorem behind_of_captures {w : Text} (hp : p.Parses w []) (hahead : c.ahead = w ++ d.ahead)
    (hcaptures : d.captures = c.captures) : p.Behind c d :=
  ⟨w, [], hp, hahead, by rw [Cursor.named, hcaptures]; rfl⟩

/-- Several pieces, one behind the other. -/
theorem behind_of_mem_starResults {step : Cursor → List Cursor} (hstep : ∀ {c d : Cursor}, d ∈ step c → p.Behind c d)
    (n : Nat) (h : d ∈ starResults step n c) : (star p).Behind c d := by
  have hself : (star p).Behind c c := ⟨[], [], ⟨[], List.forall_mem_nil _, rfl, rfl⟩, rfl, rfl⟩
  induction n generalizing c with
  | zero =>
    rw [starResults, List.mem_singleton] at h
    exact h ▸ hself
  | succ n ih =>
    rw [starResults, List.mem_append, List.mem_flatMap, List.mem_singleton] at h
    rcases h with ⟨e, he, h⟩ | rfl
    · obtain ⟨piece, inside, hpiece, hahead, hnamed⟩ := hstep (List.mem_filter.1 he).1
      obtain ⟨w, parts, ⟨pieces, hpieces, rfl, rfl⟩, hrest, hbehind⟩ :=
        ih h ⟨[], [], ⟨[], List.forall_mem_nil _, rfl, rfl⟩, rfl, rfl⟩
      refine ⟨piece ++ pieces.flatMap (·.1), pieces.reverse.flatMap (·.2) ++ inside,
        ⟨(piece, inside) :: pieces, List.forall_mem_cons.2 ⟨hpiece, hpieces⟩, rfl, ?_⟩, ?_, ?_⟩
      · rw [List.reverse_cons, List.flatMap_append, List.flatMap_singleton]
      · rw [hahead, hrest, List.append_assoc]
      · rw [hbehind, hnamed, List.append_assoc]
    · exact hself

/-- A test of the place reads nothing and names nothing. -/
theorem behind_of_test {test : Bool} {yes no : List Cursor} (hp : p.Parses [] []) (h : d ∈ if test then yes else no)
    (hyes : ∀ e ∈ yes, e = c) (hno : ∀ e ∈ no, e = c) : p.Behind c d := by
  have hd : d = c := by
    cases test with
    | true => exact hyes d h
    | false => exact hno d h
  exact ⟨[], [], hp, by rw [hd]; rfl, by rw [hd]; rfl⟩

/-- **What is read is what is spelled, and what is named are its parts.** -/
theorem behind_of_mem (p : Pattern) {c d : Cursor} (h : d ∈ p.results c) : p.Behind c d := by
  induction p generalizing c d with
  | one accepts =>
    obtain ⟨x, hx, hahead⟩ := ahead_of_mem_one h
    exact behind_of_captures ⟨⟨x, hx, rfl⟩, rfl⟩ hahead (captures_of_pass? (Option.mem_toList.1 h))
  | literal text =>
    exact behind_of_captures ⟨rfl, rfl⟩ (ahead_of_mem_literal h) (captures_of_passText? (Option.mem_toList.1 h))
  | many how accepts =>
    obtain ⟨run, hrun, hahead⟩ := run_of_mem_many h
    exact behind_of_captures ⟨hrun, rfl⟩ hahead (captures_of_mem_many h)
  | star p ih => exact behind_of_mem_starResults ih _ h
  | opt p ih =>
    rw [results, List.mem_append, List.mem_singleton] at h
    rcases h with h | rfl
    · obtain ⟨w, parts, hw, hahead, hnamed⟩ := ih h
      exact ⟨w, parts, .inl hw, hahead, hnamed⟩
    · exact ⟨[], [], .inr ⟨rfl, rfl⟩, rfl, rfl⟩
  | seq p q ihp ihq =>
    obtain ⟨e, he, hd⟩ := List.mem_flatMap.1 h
    obtain ⟨u, before, hu, hfirst, hbefore⟩ := ihp he
    obtain ⟨v, behind, hv, hrest, hbehind⟩ := ihq hd
    exact ⟨u ++ v, behind ++ before, ⟨u, v, before, behind, hu, hv, rfl, rfl⟩, by rw [hfirst, hrest, List.append_assoc],
      by rw [hbehind, hbefore, List.append_assoc]⟩
  | alt p q ihp ihq =>
    rcases List.mem_append.1 h with h | h
    · obtain ⟨w, parts, hw, hahead, hnamed⟩ := ihp h
      exact ⟨w, parts, .inl hw, hahead, hnamed⟩
    · obtain ⟨w, parts, hw, hahead, hnamed⟩ := ihq h
      exact ⟨w, parts, .inr hw, hahead, hnamed⟩
  | group name p ih =>
    obtain ⟨e, he, rfl⟩ := List.mem_map.1 h
    obtain ⟨w, parts, hw, hahead, hnamed⟩ := ih he
    refine ⟨w, (name, w) :: parts, ⟨parts, hw, rfl⟩, hahead, ?_⟩
    have htext : Capture.text ⟨name, c.ahead, e.ahead⟩ = w := by rw [hahead, text_capture]
    show (name, Capture.text ⟨name, c.ahead, e.ahead⟩) :: e.named = _
    rw [htext, hnamed, List.cons_append]
  | atStart | atEnd | wordEdge | notAfter accepts =>
    refine behind_of_test ⟨rfl, rfl⟩ h ?_ ?_ <;>
      first | exact fun e he => List.mem_singleton.1 he | exact List.forall_mem_nil _

/-- **A match is a text of its pattern with the parts that the pattern names in it.** -/
theorem parses_of_matchAt {b : Option Char} {t : Text} {m : Match} (h : p.matchAt b t = some m) :
    ∃ parts, p.Parses m.text parts ∧ ∀ name, m.get name = ((parts.find? (·.1 == name)).map (·.2)).getD [] := by
  obtain ⟨w, parts, hp, hahead, hnamed⟩ := behind_of_mem p (mem_results_of_matchAt h)
  have htext : m.text = w := text_of_matchAt h hahead
  refine ⟨parts, htext ▸ hp, fun name => ?_⟩
  have hparts : m.closed.captures.map (fun part => (part.name, part.text)) = parts :=
    hnamed.trans (List.append_nil parts)
  rw [Match.get, Match.get?, ← hparts, List.find?_map, Option.map_map]
  rfl

end Pattern

end Fenceline
