import Fenceline.Grammar.Deno
import Fenceline.Proofs.Location.Reference
import Fenceline.Proofs.Text.Places

/-!
# Reading whole lines

The patterns of the grammars are for whole lines, so each is read from the beginning of a line or nowhere
(`find?_line`), and a line is read by the first rule that can read it (`select_of_reads`).

A place is a file and two numbers with colons between them. The file is as short as possible, and may hold
colons and digits itself; but the numbers are the last two of the line, so there is one way to read a place.

**The law** (`first_place`): the end of a line that is a file, a colon, digits, a colon and digits is read as
this file and these numbers.
-/

namespace Fenceline

open Pattern Reference

namespace Grammar

variable {pieces : List Pattern} {p : Pattern} {t rest : Text} {b : Option Char} {c d : Cursor}
  {caps : List Capture}

/-! ## From the beginning of a line -/

theorem line_eq (pieces : List Pattern) : line pieces = .seq atStart (all (pieces ++ [atEnd])) := by
  cases pieces <;> rfl

theorem findFrom_atStart (p : Pattern) (x : Char) (t : Text) :
    (Pattern.seq atStart p).findFrom (some x) t = none := by
  induction t generalizing x with
  | nil =>
    rw [findFrom, matchAt_of_results rfl]
  | cons y t ih =>
    rw [findFrom, matchAt_of_results rfl]
    exact ih y

/-- **A pattern for whole lines is read from the beginning of a line or nowhere.** -/
theorem find?_line (pieces : List Pattern) (t : Text) :
    (line pieces).find? t = (line pieces).matchStart t := by
  rw [line_eq, find?, matchStart, findFrom.eq_def]
  cases (Pattern.seq atStart (all (pieces ++ [atEnd]))).matchAt none t with
  | some m => rfl
  | none =>
    cases t with
    | nil => rfl
    | cons x t => exact findFrom_atStart _ x t

theorem find?_of_first (h : (all (pieces ++ [atEnd])).First ⟨none, t, []⟩ d) :
    (line pieces).find? t = some ⟨t, d⟩ := by
  have hstart : atStart.First ⟨none, t, []⟩ ⟨none, t, []⟩ := rfl
  rw [find?_line, line_eq]
  exact matchAt_of_first (hstart.seq h)

theorem find?_eq_none (h : (all (pieces ++ [atEnd])).results ⟨none, t, []⟩ = []) :
    (line pieces).find? t = none := by
  rw [find?_line, line_eq, matchStart]
  refine matchAt_of_results ?_
  rw [results, results]
  exact List.flatMap_singleton _ _ ▸ h

/-! ## What stands on a line -/

/-- A piece that cannot be read leaves nothing to be read behind it. -/
theorem results_seq_of_nil (h : p.results c = []) (q : Pattern) : (Pattern.seq p q).results c = [] := by
  rw [results, h]
  rfl

/-- A text that is not ahead cannot be read. -/
theorem results_lit_of_not_begins {s : String} (h : ¬ s.toList <+: c.ahead) : (lit s).results c = [] := by
  refine List.eq_nil_iff_forall_not_mem.2 fun d hd => h ⟨d.ahead, ?_⟩
  exact (ahead_of_mem_literal hd).symm

/-- A text with another first character is not ahead. -/
theorem not_prefix_of_head? {s : String} {x : Char} {r : Text} (hs : s.toList = x :: r)
    (hx : t.head? ≠ some x) : ¬ s.toList <+: t := by
  rw [hs]
  rintro ⟨more, hmore⟩
  exact hx (congrArg List.head? hmore.symm)

/-- A text that may be there and is not ahead. -/
theorem results_maybe_of_not_begins {s : String} (h : ¬ s.toList <+: c.ahead) : (maybe s).results c = [c] := by
  rw [maybe, results, results_lit_of_not_begins h]
  rfl

/-- Exactly this text, in front of something. -/
theorem first_lit (s : String) : (lit s).First ⟨b, s.toList ++ rest, caps⟩ ⟨behind b s.toList, rest, caps⟩ :=
  congrArg List.head? (results_literal s.toList)

/-- What is left of a line is read to its end. -/
theorem first_anything (h : '\n' ∉ t) : anything.First ⟨b, t, caps⟩ ⟨behind b t, [], caps⟩ := by
  have hfirst : anything.First ⟨b, t ++ [], caps⟩ ⟨behind b t, [], caps⟩ :=
    first_greedy (notNewline_of_not_mem h) (by simp)
  rwa [List.append_nil] at hfirst

/-- What is left of a line is read to its end under a name. -/
theorem first_reason (h : '\n' ∉ t) (name : String) :
    (Pattern.seq (group name anything) atEnd).First ⟨b, t, caps⟩ ⟨behind b t, [], ⟨name, t, []⟩ :: caps⟩ :=
  (first_anything h).group.seq (first_atEnd rfl)

/-! ## A place at the end of a line -/

/-- What stands behind the file of a place. -/
def position : Pattern :=
  all [lit ":", group "line" digits, lit ":", group "column" digits, atEnd]

/-- A place up to the end of a line. -/
def placed : Pattern :=
  .seq (group "file" solid) position

/-- No line feed is one of the numbers of a place. -/
theorem newline_not_mem_numbers {l k : Text} (hl : Digits l) (hk : Digits k) :
    '\n' ∉ ':' :: l ++ ':' :: k := by
  have hdigit : Text.isDecimal '\n' = false := by decide +kernel
  have hnot : ∀ {t : Text}, Digits t → '\n' ∉ t := fun ht hmem =>
    Bool.eq_false_iff.1 hdigit (ht.isDecimal _ hmem)
  simp [hnot hl, hnot hk]

/-- The last colon before the digits at the end of a text tells where these begin. -/
theorem eq_of_append_digits {u v l k : Text} (hl : Digits l) (hk : Digits k)
    (h : u ++ ':' :: l = v ++ ':' :: k) : u = v ∧ l = k := by
  have hcolon : ∀ {t : Text}, Digits t → ':' ∉ t.reverse := fun ht hmem =>
    absurd (ht.isDecimal _ (List.mem_reverse.1 hmem)) (by decide +kernel)
  have hreverse : l.reverse ++ ':' :: u.reverse = k.reverse ++ ':' :: v.reverse := by
    simpa using congrArg List.reverse h
  obtain ⟨hdigits, hbefore⟩ := Text.eq_of_append_cons (hcolon hl) (hcolon hk) hreverse
  exact ⟨List.reverse_inj.1 hbefore, List.reverse_inj.1 hdigits⟩

theorem digits_of_mem_digits {name : String} (h : d ∈ (group name digits).results c) :
    ∃ l, Digits l ∧ c.ahead = l ++ d.ahead := by
  rw [results, List.mem_map] at h
  obtain ⟨d, hd, rfl⟩ := h
  rw [digits, some1, results, List.mem_flatMap] at hd
  obtain ⟨e, he, hd⟩ := hd
  obtain ⟨x, hx, hahead⟩ := ahead_of_mem_one he
  obtain ⟨run, hrun, hrest⟩ := run_of_mem_many hd
  refine ⟨x :: run, ⟨List.cons_ne_nil x run, List.forall_mem_cons.2 ⟨hx, hrun⟩⟩, ?_⟩
  rw [hahead, hrest]
  rfl

/-- Whatever is read behind the file of a place is two numbers. -/
theorem parts_of_mem_position (hd : d ∈ position.results c) (hline : '\n' ∉ c.ahead) :
    ∃ l k, Digits l ∧ Digits k ∧ c.ahead = ':' :: l ++ ':' :: k := by
  simp only [position, all] at hd
  rw [results, List.mem_flatMap] at hd
  obtain ⟨e, he, hd⟩ := hd
  rw [results, List.mem_flatMap] at hd
  obtain ⟨f, hf, hd⟩ := hd
  rw [results, List.mem_flatMap] at hd
  obtain ⟨g, hg, hd⟩ := hd
  rw [results, List.mem_flatMap] at hd
  obtain ⟨h, hh, hd⟩ := hd
  obtain ⟨l, hl, hf⟩ := digits_of_mem_digits hf
  obtain ⟨k, hk, hh⟩ := digits_of_mem_digits hh
  have hc : c.ahead = ':' :: l ++ ':' :: (k ++ h.ahead) := by
    rw [ahead_of_mem_literal he, hf, ahead_of_mem_literal hg, hh]
    simp
  have hend : h.ahead = [] := ahead_of_mem_atEnd hd fun hmem => hline (by simp [hc, hmem])
  exact ⟨l, k, hl, hk, by rw [hc, hend, List.append_nil]⟩

/-- What is named of a place. -/
def placeCaptures (file l k : Text) (caps : List Capture) : List Capture :=
  ⟨"column", k, []⟩ :: ⟨"line", l ++ ':' :: k, ':' :: k⟩ ::
    ⟨"file", file ++ (':' :: l ++ ':' :: k), ':' :: l ++ ':' :: k⟩ :: caps

theorem first_position {l k : Text} (hl : Digits l) (hk : Digits k) (b : Option Char) (caps : List Capture) :
    ∃ b', position.First ⟨b, ':' :: l ++ ':' :: k, caps⟩
      ⟨b', [], ⟨"column", k, []⟩ :: ⟨"line", l ++ ':' :: k, ':' :: k⟩ :: caps⟩ := by
  have hcolumn : ∀ b caps, (group "column" digits).First ⟨b, k, caps⟩
      ⟨behind b k, [], ⟨"column", k, []⟩ :: caps⟩ := by
    intro b caps
    have h : (group "column" digits).First ⟨b, k ++ [], caps⟩
        ⟨behind b k, [], ⟨"column", k ++ [], []⟩ :: caps⟩ := first_digits hk (by simp [NoDigit]) "column"
    rwa [List.append_nil] at h
  have hline : (group "line" digits).First ⟨some ':', l ++ ':' :: k, caps⟩
      ⟨behind (some ':') l, ':' :: k, ⟨"line", l ++ ':' :: k, ':' :: k⟩ :: caps⟩ :=
    first_digits hl (noDigit_cons (by decide +kernel) k) "line"
  have hnumbers := hline.seq ((first_char ':').seq ((hcolumn (some ':') _).seq (first_atEnd rfl)))
  exact ⟨_, (first_char ':').seq hnumbers⟩

/-- A solid piece may end within a run, and prefers that to ending behind it. -/
theorem results_solid {x : Char} (hx : notBlank x = true) {run : Text} (hrun : '\n' ∉ run) (b : Option Char)
    (rest : Text) (caps : List Capture) :
    ∃ short long, solid.results ⟨b, x :: run ++ rest, caps⟩ =
        short ++ ⟨behind (some x) run, rest, caps⟩ :: long ∧
      ∀ d ∈ short, ∃ u, u ≠ [] ∧ u <:+ run ∧ d.ahead = u ++ rest := by
  have hone : (one notBlank).results ⟨b, x :: run ++ rest, caps⟩ = [⟨some x, run ++ rest, caps⟩] := by
    simp only [results, Cursor.pass?, Cursor.next, List.cons_append, hx, if_true]
    rfl
  obtain ⟨short, long, hlazy, hshort⟩ := results_lazy_run (some x) caps (notNewline_of_not_mem hrun) rest
  refine ⟨short, long, ?_, hshort⟩
  rw [solid, results, hone, List.flatMap_singleton]
  exact hlazy

/-- **A solid piece that is named ends where what stands behind it can be read**, if that cannot be read before. -/
theorem first_solid {name : String} {x : Char} {run : Text} {q : Pattern} (hx : notBlank x = true) (hrun : '\n' ∉ run)
    (hdead : ∀ (z : Cursor) u, u ≠ [] → u <:+ run → z.ahead = u ++ rest → q.results z = [])
    (hq : q.First ⟨behind (some x) run, rest, ⟨name, x :: run ++ rest, rest⟩ :: caps⟩ d) :
    (Pattern.seq (group name solid) q).First ⟨b, x :: run ++ rest, caps⟩ d := by
  let start : Cursor := ⟨b, x :: run ++ rest, caps⟩
  obtain ⟨short, long, hsolid, hshort⟩ := results_solid hx hrun b rest caps
  have hnames : (group name solid).results start = short.map (start.capture name) ++
      start.capture name ⟨behind (some x) run, rest, caps⟩ :: long.map (start.capture name) := by
    rw [results, hsolid, List.map_append, List.map_cons]
  refine first_seq_of_dead hnames (fun y hy => ?_) hq
  obtain ⟨z, hz, rfl⟩ := List.mem_map.1 hy
  obtain ⟨u, hu, hsuffix, hahead⟩ := hshort z hz
  exact hdead _ u hu hsuffix hahead

/-- A solid piece begins with what is not blank. -/
theorem exists_notBlank_of_mem_solid {name : String} (h : d ∈ (group name solid).results c) :
    ∃ x t, notBlank x = true ∧ c.ahead = x :: t := by
  rw [results, List.mem_map] at h
  obtain ⟨e, he, -⟩ := h
  rw [solid, results, List.mem_flatMap] at he
  obtain ⟨f, hf, -⟩ := he
  obtain ⟨x, hx, hahead⟩ := ahead_of_mem_one hf
  exact ⟨x, f.ahead, hx, hahead⟩

/-- Nothing but the numbers is read in front of the numbers. -/
theorem results_position_of_ne_nil {u l k : Text} (hu : u ≠ []) (hl : Digits l) (hk : Digits k)
    (hahead : c.ahead = u ++ (':' :: l ++ ':' :: k)) (hline : '\n' ∉ c.ahead) : position.results c = [] := by
  refine List.eq_nil_iff_forall_not_mem.2 fun d hd => ?_
  obtain ⟨l', k', hl', hk', hparts⟩ := parts_of_mem_position hd hline
  have hlast : (u ++ ':' :: l) ++ ':' :: k = (':' :: l') ++ ':' :: k' := by
    rw [← hparts, hahead]
    simp
  have hbefore : u ++ ':' :: l = [] ++ ':' :: l' := (eq_of_append_digits hk hk' hlast).1
  exact hu (eq_of_append_digits hl hl' hbefore).1

/-- **A place is read in one way**, whatever colons and digits stand in the name of its file. -/
theorem first_place {x : Char} {file l k : Text} (hx : notBlank x = true) (hfile : '\n' ∉ file)
    (hl : Digits l) (hk : Digits k) (b : Option Char) (caps : List Capture) :
    ∃ b', placed.First ⟨b, x :: file ++ (':' :: l ++ ':' :: k), caps⟩
      ⟨b', [], placeCaptures (x :: file) l k caps⟩ := by
  let rest := ':' :: l ++ ':' :: k
  obtain ⟨b', hposition⟩ := first_position hl hk (behind (some x) file) (⟨"file", x :: file ++ rest, rest⟩ :: caps)
  -- a file that ends too early leaves some of the file in front of the numbers
  refine ⟨b', first_solid hx hfile (fun z u hu hsuffix hahead => ?_) hposition⟩
  have hnewline : '\n' ∉ u ++ rest :=
    List.not_mem_append (fun hmem => hfile (hsuffix.subset hmem)) (newline_not_mem_numbers hl hk)
  exact results_position_of_ne_nil hu hl hk hahead (hahead ▸ hnewline)

end Grammar

end Fenceline
