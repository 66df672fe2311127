import Fenceline.Proofs.Grammar.Whole

/-!
# What a pattern spells

Apart from where it may stand, a pattern is a set of texts: those that it spells. Whatever it is read from is
one of them, so a line that a pattern for whole lines does not spell is not read by it.

**The laws.** `spells_of_mem`: what stands between a place and a place behind a pattern is spelled by the pattern.
The induction is on the pattern, and for a repetition of pieces on the number of pieces that may still come.
`mem_of_spells`: a pattern that may stand anywhere (`Anywhere`) is read from whatever it spells. So a pattern for
whole lines reads just the lines that it spells (`isSome_find?_iff`).
-/

namespace Fenceline

namespace Pattern

variable {p q : Pattern} {c d : Cursor} {t : Text}

/-- **The texts of a pattern**, wherever they stand. -/
def Spells : Pattern → Text → Prop
  | one accepts, t => ∃ x, accepts x = true ∧ t = [x]
  | literal text, t => t = text
  | many _ accepts, t => ∀ x ∈ t, accepts x = true
  | star p, t => ∃ pieces : List Text, (∀ piece ∈ pieces, p.Spells piece) ∧ t = pieces.flatten
  | opt p, t => p.Spells t ∨ t = []
  | seq p q, t => ∃ u v, p.Spells u ∧ q.Spells v ∧ t = u ++ v
  | alt p q, t => p.Spells t ∨ q.Spells t
  | group _ p, t => p.Spells t
  | atStart, t => t = []
  | atEnd, t => t = []
  | wordEdge, t => t = []
  | notAfter _, t => t = []

/-- Several pieces, one behind the other. -/
theorem spells_of_mem_starResults {step : Cursor → List Cursor}
    (hstep : ∀ {c d : Cursor}, d ∈ step c → ∃ w, p.Spells w ∧ c.ahead = w ++ d.ahead) (n : Nat)
    (h : d ∈ starResults step n c) : ∃ w, (star p).Spells w ∧ c.ahead = w ++ d.ahead := by
  induction n generalizing c with
  | zero =>
    rw [starResults, List.mem_singleton] at h
    exact ⟨[], ⟨[], List.forall_mem_nil _, rfl⟩, by rw [h]; rfl⟩
  | succ n ih =>
    rw [starResults, List.mem_append, List.mem_flatMap, List.mem_singleton] at h
    rcases h with ⟨e, he, h⟩ | rfl
    · obtain ⟨piece, hpiece, hahead⟩ := hstep (List.mem_filter.1 he).1
      obtain ⟨w, ⟨pieces, hpieces, rfl⟩, hrest⟩ := ih h
      refine ⟨piece ++ pieces.flatten, ⟨piece :: pieces, List.forall_mem_cons.2 ⟨hpiece, hpieces⟩, rfl⟩, ?_⟩
      rw [hahead, hrest, List.append_assoc]
    · exact ⟨[], ⟨[], List.forall_mem_nil _, rfl⟩, rfl⟩

/-- A test of the place reads nothing. -/
theorem eq_of_mem_test {test : Bool} {yes no : List Cursor} (h : d ∈ if test then yes else no)
    (hyes : ∀ e ∈ yes, e = c) (hno : ∀ e ∈ no, e = c) : c.ahead = [] ++ d.ahead := by
  cases test with
  | true => rw [hyes d h]; rfl
  | false => rw [hno d h]; rfl

/-- **What is read is what is spelled.** -/
theorem spells_of_mem (p : Pattern) {c d : Cursor} (h : d ∈ p.results c) :
    ∃ w, p.Spells w ∧ c.ahead = w ++ d.ahead := by
  have hself : ∀ e ∈ [c], e = c := fun e he => List.mem_singleton.1 he
  have hnone : ∀ e ∈ ([] : List Cursor), e = c := List.forall_mem_nil _
  induction p generalizing c d with
  | one accepts =>
    obtain ⟨x, hx, hahead⟩ := ahead_of_mem_one h
    exact ⟨[x], ⟨x, hx, rfl⟩, hahead⟩
  | literal text => exact ⟨text, rfl, ahead_of_mem_literal h⟩
  | many how accepts => exact run_of_mem_many h
  | star p ih =>
    refine spells_of_mem_starResults (fun hd => ih hd ?_ ?_) _ h
    · exact fun e he => List.mem_singleton.1 he
    · exact List.forall_mem_nil _
  | opt p ih =>
    rw [results, List.mem_append, List.mem_singleton] at h
    rcases h with h | rfl
    · obtain ⟨w, hw, hahead⟩ := ih h hself hnone
      exact ⟨w, .inl hw, hahead⟩
    · exact ⟨[], .inr rfl, rfl⟩
  | seq p q ihp ihq =>
    obtain ⟨e, he, hd⟩ := List.mem_flatMap.1 h
    obtain ⟨u, hu, hfirst⟩ := ihp he hself hnone
    obtain ⟨v, hv, hrest⟩ := ihq hd (fun e he => List.mem_singleton.1 he) (List.forall_mem_nil _)
    exact ⟨u ++ v, ⟨u, v, hu, hv, rfl⟩, by rw [hfirst, hrest, List.append_assoc]⟩
  | alt p q ihp ihq =>
    rcases List.mem_append.1 h with h | h
    · obtain ⟨w, hw, hahead⟩ := ihp h hself hnone
      exact ⟨w, .inl hw, hahead⟩
    · obtain ⟨w, hw, hahead⟩ := ihq h hself hnone
      exact ⟨w, .inr hw, hahead⟩
  | group name p ih =>
    obtain ⟨e, he, rfl⟩ := List.mem_map.1 h
    obtain ⟨w, hw, hahead⟩ := ih he hself hnone
    exact ⟨w, hw, hahead⟩
  | atStart => exact ⟨[], rfl, eq_of_mem_test h hself hnone⟩
  | atEnd => exact ⟨[], rfl, eq_of_mem_test h hself hnone⟩
  | wordEdge => exact ⟨[], rfl, eq_of_mem_test h hself hnone⟩
  | notAfter accepts => exact ⟨[], rfl, eq_of_mem_test h hnone hself⟩

/-! ## What is spelled is read -/

/-- A pattern that makes no difference between the places where it stands. -/
def Anywhere : Pattern → Bool
  | star p | opt p | group _ p => p.Anywhere
  | seq p q | alt p q => p.Anywhere && q.Anywhere
  | atStart | atEnd | wordEdge | notAfter _ => false
  | one _ | literal _ | many _ _ => true

variable {w rest : Text}

/-- A repetition may end behind any run of accepted characters. -/
theorem mem_results_many (how : Appetite) {accepts : Char → Bool} (hw : ∀ x ∈ w, accepts x = true)
    (hc : c.ahead = w ++ rest) : ∃ d ∈ (many how accepts).results c, d.ahead = rest := by
  obtain ⟨short, long, hresults, -⟩ := results_lazy_run c.before c.captures hw rest
  have hmem : ⟨behind c.before w, rest, c.captures⟩ ∈ (many .lazy accepts).results c := by
    have hcursor : c = ⟨c.before, w ++ rest, c.captures⟩ := by rw [← hc]
    rw [hcursor, hresults]
    exact List.mem_append_right short List.mem_cons_self
  cases how with
  | greedy => exact ⟨_, List.mem_reverse.2 hmem, rfl⟩
  | «lazy» => exact ⟨_, hmem, rfl⟩

/-- Pieces that can be read one by one can be read one behind the other; those that are empty are left out. -/
theorem mem_starResults {step : Cursor → List Cursor} {pieces : List Text}
    (hstep : ∀ piece ∈ pieces, ∀ {c : Cursor} {rest : Text}, c.ahead = piece ++ rest → ∃ d ∈ step c, d.ahead = rest)
    (n : Nat) (hn : pieces.flatten.length ≤ n) (hc : c.ahead = pieces.flatten ++ rest) :
    ∃ d ∈ starResults step n c, d.ahead = rest := by
  induction pieces generalizing n c with
  | nil =>
    refine ⟨c, ?_, hc⟩
    cases n with
    | zero => exact List.mem_singleton_self c
    | succ n => exact List.mem_append_right _ (List.mem_singleton_self c)
  | cons piece pieces ih =>
    obtain ⟨hpiece, hpieces⟩ := List.forall_mem_cons.1 hstep
    rw [List.flatten_cons, List.append_assoc] at hc
    rw [List.flatten_cons, List.length_append] at hn
    cases piece with
    | nil => exact ih hpieces n (by simpa using hn) hc
    | cons x piece =>
      obtain ⟨e, he, hahead⟩ := hpiece hc
      rw [List.length_cons] at hn
      obtain ⟨n, rfl⟩ : ∃ m, n = m + 1 := ⟨n - 1, by omega⟩
      obtain ⟨d, hd, hrest⟩ := ih hpieces n (by omega) hahead
      have hshorter : e.ahead.length < c.ahead.length := by
        rw [hc, hahead]
        simp only [List.length_append, List.length_cons]
        omega
      refine ⟨d, List.mem_append_left _ (List.mem_flatMap.2 ⟨e, List.mem_filter.2 ⟨he, ?_⟩, hd⟩), hrest⟩
      exact decide_eq_true hshorter

/-- **What is spelled is read**, wherever it stands. -/
theorem mem_of_spells (p : Pattern) (hp : p.Anywhere = true) (hw : p.Spells w) (hc : c.ahead = w ++ rest) :
    ∃ d ∈ p.results c, d.ahead = rest := by
  induction p generalizing c w rest with
  | one accepts =>
    obtain ⟨x, hx, rfl⟩ := hw
    refine ⟨c.next x rest, ?_, rfl⟩
    simp [results, Cursor.pass?, hc, hx]
  | literal text =>
    obtain rfl := hw
    have hcursor : c = ⟨c.before, w ++ rest, c.captures⟩ := by rw [← hc]
    refine ⟨⟨behind c.before w, rest, c.captures⟩, ?_, rfl⟩
    rw [hcursor, results_literal]
    exact List.mem_singleton_self _
  | many how accepts => exact mem_results_many how hw hc
  | star p ih =>
    obtain ⟨pieces, hpieces, rfl⟩ := hw
    refine mem_starResults (fun piece hpiece _ _ h => ih hp (hpieces piece hpiece) h) _ ?_ hc
    simp [hc]
  | opt p ih =>
    rcases hw with hw | rfl
    · obtain ⟨d, hd, hrest⟩ := ih hp hw hc
      exact ⟨d, List.mem_append_left _ hd, hrest⟩
    · exact ⟨c, List.mem_append_right _ (List.mem_singleton_self c), hc⟩
  | seq p q ihp ihq =>
    obtain ⟨u, v, hu, hv, rfl⟩ := hw
    obtain ⟨hp, hq⟩ := Bool.and_eq_true_iff.1 hp
    obtain ⟨e, he, hahead⟩ := ihp hp hu (hc.trans (List.append_assoc u v rest))
    obtain ⟨d, hd, hrest⟩ := ihq hq hv hahead
    exact ⟨d, List.mem_flatMap.2 ⟨e, he, hd⟩, hrest⟩
  | alt p q ihp ihq =>
    obtain ⟨hp, hq⟩ := Bool.and_eq_true_iff.1 hp
    rcases hw with hw | hw
    · obtain ⟨d, hd, hrest⟩ := ihp hp hw hc
      exact ⟨d, List.mem_append_left _ hd, hrest⟩
    · obtain ⟨d, hd, hrest⟩ := ihq hq hw hc
      exact ⟨d, List.mem_append_right _ hd, hrest⟩
  | group name p ih =>
    obtain ⟨d, hd, hrest⟩ := ih hp hw hc
    exact ⟨c.capture name d, List.mem_map.2 ⟨d, hd, rfl⟩, hrest⟩
  | atStart | atEnd | wordEdge | notAfter _ => cases hp

/-- A run is spelled by characters of its class, at least one of them. -/
theorem spells_some1_iff (how : Appetite) (accepts : Char → Bool) (t : Text) :
    (some1 how accepts).Spells t ↔ t ≠ [] ∧ ∀ x ∈ t, accepts x = true := by
  constructor
  · rintro ⟨_, run, ⟨x, hx, rfl⟩, hrun, rfl⟩
    exact ⟨List.cons_ne_nil x run, List.forall_mem_cons.2 ⟨hx, hrun⟩⟩
  · rintro ⟨hne, hall⟩
    obtain ⟨x, run, rfl⟩ := List.exists_cons_of_ne_nil hne
    obtain ⟨hx, hrun⟩ := List.forall_mem_cons.1 hall
    exact ⟨[x], run, ⟨x, hx, rfl⟩, hrun, rfl⟩

/-! ## Pieces in a row -/

/-- What pieces in a row spell is spelled piece by piece. -/
theorem spells_all_cons (p : Pattern) (ps : List Pattern) (t : Text) :
    (all (p :: ps)).Spells t ↔ ∃ u v, p.Spells u ∧ (all ps).Spells v ∧ t = u ++ v := by
  cases ps with
  | nil =>
    simp only [all, Spells]
    constructor
    · exact fun h => ⟨t, [], h, rfl, (List.append_nil t).symm⟩
    · rintro ⟨u, v, hu, rfl, rfl⟩
      rwa [List.append_nil]
  | cons q ps => rfl

/-- Nothing but the end of a line stands behind its pieces. -/
theorem mem_all_concat {ps : List Pattern} (h : d ∈ (all (ps ++ [q])).results c) :
    ∃ w e, (all ps).Spells w ∧ c.ahead = w ++ e.ahead ∧ d ∈ q.results e := by
  induction ps generalizing c with
  | nil => exact ⟨[], c, rfl, rfl, h⟩
  | cons p ps ih =>
    have hseq : d ∈ (seq p (all (ps ++ [q]))).results c := by
      cases ps with
      | nil => exact h
      | cons p' ps => exact h
    obtain ⟨e, he, hd⟩ := List.mem_flatMap.1 hseq
    obtain ⟨u, hu, hfirst⟩ := spells_of_mem p he
    obtain ⟨v, f, hv, hrest, hlast⟩ := ih hd
    exact ⟨u ++ v, f, (spells_all_cons p ps _).2 ⟨u, v, hu, hv, rfl⟩,
      by rw [hfirst, hrest, List.append_assoc], hlast⟩

/-- A piece is read behind the pieces in front of it. -/
theorem mem_all_concat_of_mem {ps : List Pattern} {e : Cursor} (he : e ∈ (all ps).results c) (hd : d ∈ q.results e) :
    d ∈ (all (ps ++ [q])).results c := by
  induction ps generalizing c with
  | nil =>
    obtain rfl := List.mem_singleton.1 he
    exact hd
  | cons p ps ih =>
    cases ps with
    | nil => exact List.mem_flatMap.2 ⟨e, he, hd⟩
    | cons p' ps =>
      obtain ⟨f, hf, he⟩ := List.mem_flatMap.1 he
      exact List.mem_flatMap.2 ⟨f, hf, ih he⟩

end Pattern

namespace Grammar

open Pattern

variable {pieces : List Pattern} {t : Text}

/-- A line that a pattern for whole lines does not spell is not read by it. -/
theorem find?_of_not_spells (hline : '\n' ∉ t) (h : ¬ (all pieces).Spells t) : (line pieces).find? t = none := by
  refine find?_eq_none (List.eq_nil_iff_forall_not_mem.2 fun d hd => h ?_)
  obtain ⟨w, e, hw, hahead, hend⟩ := mem_all_concat hd
  have hahead : t = w ++ e.ahead := hahead
  have hnothing : e.ahead = [] := ahead_of_mem_atEnd hend fun hmem =>
    hline (hahead ▸ List.mem_append_right w hmem)
  rwa [hahead, hnothing, List.append_nil]

/-- A line that it spells is. -/
theorem isSome_find?_of_spells (hpieces : (all pieces).Anywhere = true) (h : (all pieces).Spells t) :
    ((line pieces).find? t).isSome = true := by
  obtain ⟨e, he, hnothing⟩ :=
    mem_of_spells (c := ⟨none, t, []⟩) (all pieces) hpieces h (List.append_nil t).symm
  have hmem := mem_all_concat_of_mem he (mem_results_atEnd hnothing)
  obtain ⟨first, others, hresults⟩ := List.exists_cons_of_ne_nil (List.ne_nil_of_mem hmem)
  have hfirst : (all (pieces ++ [atEnd])).First ⟨none, t, []⟩ first := by
    rw [First, hresults]
    rfl
  rw [find?_of_first hfirst]
  rfl

/-- **A pattern for whole lines reads just the lines that it spells.** -/
theorem isSome_find?_iff (hpieces : (all pieces).Anywhere = true) (hline : '\n' ∉ t) :
    ((line pieces).find? t).isSome = true ↔ (all pieces).Spells t := by
  constructor
  · intro h
    refine Classical.byContradiction fun hnot => ?_
    rw [find?_of_not_spells hline hnot] at h
    cases h
  · exact isSome_find?_of_spells hpieces

end Grammar

end Fenceline
