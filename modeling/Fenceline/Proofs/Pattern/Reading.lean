import Fenceline.Failure
import Fenceline.Pattern.Match

/-!
# Reading a pattern, and replacing what was read

A search takes the first of the ways in which a pattern can be read. Where the first way of every part is
the right one, it is the first way of the whole (`First.seq`); ways that a part prefers and that lead
nowhere do not count (`first_seq_of_dead`).

Replacing all matches of a text goes from left to right (`Turns`): a stretch in which no match begins stays
as it is, and so does one whose matches are put back as they are (`Turns.through`); a match is put as it is
told to (`Turns.hit`).

**The laws.** `substitute_of_turns`, `substituteM_of_turns`: what a text turns into is what replacing the
matches gives.
-/

namespace Fenceline.Pattern

variable {p q : Pattern} {b : Option Char} {c d e : Cursor} {caps : List Capture} {name : String}
  {accepts : Char → Bool} {t u rest : Text}

/-! ## The first way -/

/-- **The place behind a pattern that is preferred.** -/
def First (p : Pattern) (c d : Cursor) : Prop :=
  (p.results c).head? = some d

theorem matchAt_of_first (h : p.First ⟨b, t, []⟩ d) : p.matchAt b t = some ⟨t, d⟩ := by
  obtain ⟨others, hresults⟩ := List.head?_eq_some_iff.1 h
  rw [matchAt, attempt_eq, hresults, List.findSome?_cons]

theorem matchAt_of_results (h : p.results ⟨b, t, []⟩ = []) : p.matchAt b t = none := by
  rw [matchAt, attempt_eq, h, List.findSome?_nil]

/-- A match ends at a place behind the pattern. -/
theorem mem_results_of_matchAt {m : Match} (h : p.matchAt b t = some m) :
    m.closed ∈ p.results ⟨b, t, []⟩ := by
  rw [matchAt, attempt_eq] at h
  obtain ⟨d, hd, hm⟩ := List.exists_of_findSome?_eq_some h
  obtain rfl := Option.some.inj hm
  exact hd

/-- Where a pattern can be read, there is a match. -/
theorem exists_matchAt_of_mem (h : d ∈ p.results ⟨b, t, []⟩) : ∃ m, p.matchAt b t = some m := by
  obtain ⟨first, others, hresults⟩ := List.exists_cons_of_ne_nil (List.ne_nil_of_mem h)
  have hfirst : p.First ⟨b, t, []⟩ first := by
    rw [First, hresults]
    rfl
  exact ⟨_, matchAt_of_first hfirst⟩

/-- The text of a match is what stands before its rest. -/
theorem text_of_matchAt {m : Match} {w : Text} (h : p.matchAt b t = some m) (ht : t = w ++ m.rest) :
    m.text = w :=
  List.append_cancel_right ((text_append_rest h).trans ht)

/-- Ways that lead nowhere do not count. -/
theorem first_seq_of_dead {dead others : List Cursor} (hp : p.results c = dead ++ e :: others)
    (hdead : ∀ x ∈ dead, q.results x = []) (hq : q.First e d) : (Pattern.seq p q).First c d := by
  obtain ⟨more, hmore⟩ := List.head?_eq_some_iff.1 hq
  rw [First, results, hp, List.flatMap_append, List.flatMap_eq_nil_iff.2 hdead, List.nil_append,
    List.flatMap_cons, hmore]
  rfl

theorem First.seq (hp : p.First c e) (hq : q.First e d) : (Pattern.seq p q).First c d := by
  obtain ⟨others, hothers⟩ := List.head?_eq_some_iff.1 hp
  have hresults : p.results c = [] ++ e :: others := hothers
  exact first_seq_of_dead hresults (List.forall_mem_nil _) hq

theorem First.group (hp : p.First c d) : (Pattern.group name p).First c (c.capture name d) := by
  obtain ⟨others, hothers⟩ := List.head?_eq_some_iff.1 hp
  rw [First, results, hothers]
  rfl

theorem First.opt (hp : p.First c d) : (Pattern.opt p).First c d := by
  obtain ⟨others, hothers⟩ := List.head?_eq_some_iff.1 hp
  rw [First, results, hothers]
  rfl

theorem first_opt_of_results (hp : p.results c = []) : (opt p).First c c := by
  rw [First, results, hp]
  rfl

theorem First.alt (hp : p.First c d) (q : Pattern) : (Pattern.alt p q).First c d := by
  obtain ⟨others, hothers⟩ := List.head?_eq_some_iff.1 hp
  rw [First, results, hothers]
  rfl

theorem first_alt_of_results (hp : p.results c = []) (hq : q.First c d) : (alt p q).First c d := by
  rw [First, results, hp]
  exact hq

/-- A lazy repetition takes nothing. -/
theorem first_lazy : (many .lazy accepts).First c c := by
  rw [First, results, Cursor.passes, Cursor.passes.go.eq_def]
  rfl

theorem first_notAfter (h : c.before.any accepts = false) : (notAfter accepts).First c c := by
  rw [First, results, h]
  rfl

theorem first_atEnd (h : c.isAtEnd = true) : atEnd.First c c := by
  rw [First, results, h]
  rfl

theorem first_wordEdge (h : c.isWordEdge = true) : wordEdge.First c c := by
  rw [First, results, h]
  rfl

/-- What stands before the place behind a run. -/
def behind (b : Option Char) (run : Text) : Option Char :=
  run.getLast?.or b

theorem behind_cons (b : Option Char) (x : Char) (run : Text) :
    behind b (x :: run) = behind (some x) run := by
  rw [behind, behind, List.getLast?_cons]
  cases run.getLast? <;> rfl

/-- Exactly this text. -/
theorem results_literal (text : Text) :
    (literal text).results ⟨b, text ++ rest, caps⟩ = [⟨behind b text, rest, caps⟩] := by
  induction text generalizing b with
  | nil => rfl
  | cons x text ih =>
    rw [behind_cons, ← ih]
    simp only [results, Cursor.passText?, Cursor.pass?, Cursor.next, List.cons_append, beq_self_eq_true,
      if_true]

theorem first_char (x : Char) : (literal [x]).First ⟨b, x :: rest, caps⟩ ⟨some x, rest, caps⟩ := by
  have hresults : (literal [x]).results ⟨b, x :: rest, caps⟩ = [⟨some x, rest, caps⟩] := results_literal [x]
  rw [First, hresults]
  rfl

theorem ahead_of_mem_literal {text : Text} (h : d ∈ (literal text).results c) :
    c.ahead = text ++ d.ahead := by
  rw [results, Option.mem_toList] at h
  induction text generalizing c with
  | nil =>
    obtain rfl := Option.some.inj h
    rfl
  | cons x text ih =>
    rw [Cursor.passText?] at h
    split at h
    · rename_i e he
      unfold Cursor.pass? at he
      split at he
      · rename_i y r hahead
        split at he
        · rename_i hxy
          obtain rfl := Option.some.inj he
          rw [hahead, eq_of_beq hxy, List.cons_append, ← ih h]
          rfl
        · cases he
      · cases he
    · cases h

/-- Another character is ahead. -/
theorem results_literal_of_ne (x : Char) (text : Text) (h : c.ahead.head? ≠ some x) :
    (literal (x :: text)).results c = [] := by
  refine List.eq_nil_iff_forall_not_mem.2 fun d hd => h ?_
  rw [ahead_of_mem_literal hd]
  rfl

/-- A repetition passes every place within a run before it comes to what stands behind the run. -/
theorem passes_go_run (c : Cursor) {run : Text} (hrun : ∀ x ∈ run, accepts x = true) (rest : Text)
    (b : Option Char) :
    ∃ dead, Cursor.passes.go accepts c b (run ++ rest) =
        dead ++ Cursor.passes.go accepts c (behind b run) rest ∧
      ∀ d ∈ dead, ∃ u, u ≠ [] ∧ u <:+ run ∧ d.ahead = u ++ rest := by
  induction run generalizing b with
  | nil => exact ⟨[], rfl, List.forall_mem_nil _⟩
  | cons x run ih =>
    obtain ⟨hx, hrun⟩ := List.forall_mem_cons.1 hrun
    obtain ⟨dead, hgo, hdead⟩ := ih hrun (some x)
    refine ⟨{ c with before := b, ahead := x :: run ++ rest } :: dead, ?_, ?_⟩
    · rw [List.cons_append, Cursor.passes.go, hx, if_pos rfl, hgo, behind_cons]
      rfl
    · refine List.forall_mem_cons.2 ⟨⟨x :: run, List.cons_ne_nil x run, List.suffix_refl _, rfl⟩, ?_⟩
      intro d hd
      obtain ⟨u, hu, hsuffix, hahead⟩ := hdead d hd
      exact ⟨u, hu, hsuffix.trans (List.suffix_cons x run), hahead⟩

/-- A text without line feeds is a run of characters that are none. -/
theorem notNewline_of_not_mem (h : '\n' ∉ t) : ∀ x ∈ t, notNewline x = true := by
  intro x hx
  rw [notNewline, bne_iff_ne]
  rintro rfl
  exact h hx

/-- A repetition ends behind a run if what stands there is not accepted. -/
theorem passes_go_append (c : Cursor) {run : Text} (hrun : ∀ x ∈ run, accepts x = true)
    (hrest : ∀ x ∈ rest.head?, accepts x = false) (b : Option Char) :
    ∃ dead, Cursor.passes.go accepts c b (run ++ rest) =
        dead ++ [{ c with before := behind b run, ahead := rest }] ∧
      ∀ d ∈ dead, ∃ x ∈ run, d.ahead.head? = some x := by
  obtain ⟨dead, hgo, hdead⟩ := passes_go_run c hrun rest b
  refine ⟨dead, ?_, fun d hd => ?_⟩
  · rw [hgo]
    cases rest with
    | nil => rfl
    | cons x rest =>
      have hx : accepts x = false := hrest x rfl
      rw [Cursor.passes.go, hx]
      rfl
  · obtain ⟨u, hu, hsuffix, hahead⟩ := hdead d hd
    obtain ⟨x, u, rfl⟩ := List.exists_cons_of_ne_nil hu
    exact ⟨x, hsuffix.subset List.mem_cons_self, by rw [hahead]; rfl⟩

/-- A lazy repetition may end within a run, and prefers that to ending behind it. -/
theorem results_lazy_run (b : Option Char) (caps : List Capture) {run : Text}
    (hrun : ∀ x ∈ run, accepts x = true) (rest : Text) :
    ∃ short long, (many .lazy accepts).results ⟨b, run ++ rest, caps⟩ =
        short ++ ⟨behind b run, rest, caps⟩ :: long ∧
      ∀ d ∈ short, ∃ u, u ≠ [] ∧ u <:+ run ∧ d.ahead = u ++ rest := by
  obtain ⟨short, hgo, hshort⟩ := passes_go_run ⟨b, run ++ rest, caps⟩ hrun rest b
  obtain ⟨long, hlong⟩ : ∃ long, Cursor.passes.go accepts ⟨b, run ++ rest, caps⟩ (behind b run) rest =
      ⟨behind b run, rest, caps⟩ :: long := ⟨_, Cursor.passes.go.eq_def ..⟩
  refine ⟨short, long, ?_, hshort⟩
  rw [← hlong, ← hgo]
  rfl

/-- A lazy repetition may end before each character of a run, and behind it. -/
theorem results_lazy (b : Option Char) (caps : List Capture) {run : Text} (hrun : ∀ x ∈ run, accepts x = true)
    (hrest : ∀ x ∈ rest.head?, accepts x = false) :
    ∃ dead, (many .lazy accepts).results ⟨b, run ++ rest, caps⟩ =
        dead ++ [⟨behind b run, rest, caps⟩] ∧
      ∀ d ∈ dead, ∃ x ∈ run, d.ahead.head? = some x :=
  passes_go_append ⟨b, run ++ rest, caps⟩ hrun hrest b

/-- A greedy repetition takes the whole run. -/
theorem first_greedy {run : Text} (hrun : ∀ x ∈ run, accepts x = true)
    (hrest : ∀ x ∈ rest.head?, accepts x = false) :
    (many .greedy accepts).First ⟨b, run ++ rest, caps⟩ ⟨behind b run, rest, caps⟩ := by
  obtain ⟨dead, hgo, _⟩ := passes_go_append ⟨b, run ++ rest, caps⟩ hrun hrest b
  rw [First, results, Cursor.passes, hgo, List.reverse_append]
  rfl

/-- So does one that takes a character at least. -/
theorem first_some1 {run : Text} (hne : run ≠ []) (hrun : ∀ x ∈ run, accepts x = true)
    (hrest : ∀ x ∈ rest.head?, accepts x = false) :
    (some1 .greedy accepts).First ⟨b, run ++ rest, caps⟩ ⟨behind b run, rest, caps⟩ := by
  obtain ⟨x, run, rfl⟩ := List.exists_cons_of_ne_nil hne
  obtain ⟨hx, hrun⟩ := List.forall_mem_cons.1 hrun
  have hfirst : (one accepts).First ⟨b, x :: run ++ rest, caps⟩ ⟨some x, run ++ rest, caps⟩ := by
    simp only [First, results, Cursor.pass?, Cursor.next, List.cons_append, hx, if_true]
    rfl
  rw [behind_cons]
  exact hfirst.seq (first_greedy hrun hrest)

theorem run_of_mem_go {before : Option Char} (h : d ∈ Cursor.passes.go accepts c before t) :
    ∃ run, (∀ x ∈ run, accepts x = true) ∧ t = run ++ d.ahead := by
  induction t generalizing before with
  | nil =>
    rw [Cursor.passes.go, List.mem_singleton] at h
    exact ⟨[], List.forall_mem_nil _, by rw [h]; rfl⟩
  | cons x t ih =>
    rw [Cursor.passes.go, List.mem_cons] at h
    rcases h with rfl | h
    · exact ⟨[], List.forall_mem_nil _, rfl⟩
    · split at h
      · rename_i hx
        obtain ⟨run, hrun, rfl⟩ := ih h
        exact ⟨x :: run, List.forall_mem_cons.2 ⟨hx, hrun⟩, rfl⟩
      · cases h

/-- A repetition takes accepted characters. -/
theorem run_of_mem_many {how : Appetite} (h : d ∈ (many how accepts).results c) :
    ∃ run, (∀ x ∈ run, accepts x = true) ∧ c.ahead = run ++ d.ahead := by
  cases how with
  | greedy => exact run_of_mem_go (List.mem_reverse.1 h)
  | «lazy» => exact run_of_mem_go h

theorem ahead_of_mem_one (h : d ∈ (one accepts).results c) :
    ∃ x, accepts x = true ∧ c.ahead = x :: d.ahead := by
  rw [results, Option.mem_toList] at h
  unfold Cursor.pass? at h
  split at h
  · rename_i x r hahead
    split at h
    · rename_i hx
      obtain rfl := Option.some.inj h
      exact ⟨x, hx, hahead⟩
    · cases h
  · cases h

theorem mem_results_atEnd (h : c.ahead = []) : c ∈ atEnd.results c := by
  have hatEnd : c.isAtEnd = true := by
    unfold Cursor.isAtEnd
    rw [h]
  rw [results, hatEnd]
  exact List.mem_singleton_self c

/-- A text ends where nothing is left of it, or a line feed. -/
theorem ahead_eq_of_mem_atEnd (h : d ∈ atEnd.results c) : d = c ∧ (c.ahead = [] ∨ c.ahead = ['\n']) := by
  rw [results] at h
  split at h
  · rename_i hatEnd
    refine ⟨List.mem_singleton.1 h, ?_⟩
    unfold Cursor.isAtEnd at hatEnd
    split at hatEnd
    · exact .inl ‹_›
    · exact .inr ‹_›
    · cases hatEnd
  · cases h

/-- A text without a line feed ends where nothing is left of it. -/
theorem ahead_of_mem_atEnd (h : d ∈ atEnd.results c) (hline : '\n' ∉ c.ahead) : c.ahead = [] := by
  rcases (ahead_eq_of_mem_atEnd h).2 with hnothing | hnewline
  · exact hnothing
  · exact absurd (by simp [hnewline]) hline

/-- What was named is what stands before the rest. -/
theorem text_capture (name : String) (t rest : Text) : (⟨name, t ++ rest, rest⟩ : Capture).text = t := by
  simp [Capture.text]

/-! ## Replacing matches -/

section

variable {ε : Type} {put : Match → Except ε Text}

/-- What a part of a text is put as. -/
def putPart (put : Match → Except ε Text) : Segment → Except ε Text
  | .plain x => .ok [x]
  | .hit m => put m

/-- **What a text turns into** when its matches are put as they are told to, whatever stands before. -/
def Turns (p : Pattern) (put : Match → Except ε Text) (t t' : Text) : Prop :=
  ∀ b, ∃ parts, (p.segmentsFrom b t).mapM (putPart put) = .ok parts ∧ parts.flatten = t'

theorem substituteM_eq (p : Pattern) (put : Match → Except ε Text) (t : Text) :
    p.substituteM put t = ((p.segments t).mapM (putPart put)).bind fun parts => .ok parts.flatten := by
  rw [substituteM]
  congr

theorem substituteM_of_turns {t' : Text} (h : p.Turns put t t') : p.substituteM put t = .ok t' := by
  obtain ⟨parts, hparts, rfl⟩ := h none
  rw [substituteM_eq, segments, hparts]
  rfl

/-- What a part of a text is put as, if nothing can fail. -/
def shownPart (put : Match → Text) : Segment → Text
  | .plain x => [x]
  | .hit m => put m

/-- **What never fails is put as it is told to.** -/
theorem substituteM_ok (p : Pattern) (put : Match → Text) (t : Text) :
    p.substituteM (fun m => (.ok (put m) : Except ε Text)) t = .ok (p.substitute put t) := by
  have hall : ∀ parts : List Segment,
      parts.mapM (putPart fun m => (.ok (put m) : Except ε Text)) = .ok (parts.map (shownPart put)) := by
    intro parts
    induction parts with
    | nil => rfl
    | cons part parts ih =>
      rw [List.mapM_cons, ih]
      cases part <;> rfl
  rw [substituteM_eq, hall, substitute, List.flatMap_def]
  rfl

/-- **A text that was rewritten**: pieces of it as they are put, and all else as it was. -/
inductive Rewritten (puts : Text → Text → Prop) : Text → Text → Prop
  | nil : Rewritten puts [] []
  | plain {t t' : Text} (x : Char) : Rewritten puts t t' → Rewritten puts (x :: t) (x :: t')
  | put {w u t t' : Text} : puts w u → Rewritten puts t t' → Rewritten puts (w ++ t) (u ++ t')

/-- **Replacing matches rewrites a text**, each match being put as it is told to. -/
theorem rewritten_of_substituteM {puts : Text → Text → Prop} {t' : Text}
    (hput : ∀ b t m u, p.matchAt b t = some m → put m = .ok u → puts m.text u) (h : p.substituteM put t = .ok t') :
    Rewritten puts t t' := by
  have hparts : ∀ b t parts, (p.segmentsFrom b t).mapM (putPart put) = .ok parts →
      Rewritten puts t parts.flatten := by
    intro b t
    fun_induction segmentsFrom p b t with
    | case1 =>
      intro parts hparts
      rw [← Except.ok.inj hparts]
      exact .nil
    | case2 b y r m hm hlt ih =>
      intro parts hparts
      rw [List.mapM_cons] at hparts
      obtain ⟨u, hu, hparts⟩ := bind_eq_ok.1 hparts
      obtain ⟨rest, hrest, hparts⟩ := bind_eq_ok.1 hparts
      rw [← Except.ok.inj hparts, List.flatten_cons, ← text_append_rest hm]
      exact .put (hput _ _ _ _ hm hu) (ih rest hrest)
    | case3 b y r m hm hlt ih | case4 b y r hm ih =>
      intro parts hparts
      rw [List.mapM_cons] at hparts
      obtain ⟨u, hu, hparts⟩ := bind_eq_ok.1 hparts
      obtain ⟨rest, hrest, hparts⟩ := bind_eq_ok.1 hparts
      rw [← Except.ok.inj hparts, ← Except.ok.inj hu]
      exact .plain y (ih rest hrest)
  rw [substituteM_eq] at h
  obtain ⟨parts, hmapped, h⟩ := bind_eq_ok.1 h
  rw [← Except.ok.inj h]
  exact hparts none t parts hmapped

/-- **A character stands in a text as often as before**, if it does so in every piece that is put. -/
theorem Rewritten.count_eq {puts : Text → Text → Prop} {t' : Text} {x : Char} (h : Rewritten puts t t')
    (hputs : ∀ w u, puts w u → u.count x = w.count x) : t'.count x = t.count x := by
  induction h with
  | nil => rfl
  | plain y _ ih => rw [List.count_cons, List.count_cons, ih]
  | put hwu _ ih => rw [List.count_append, List.count_append, hputs _ _ hwu, ih]

theorem substitute_of_turns {put : Match → Text} {t' : Text}
    (h : p.Turns (fun m => (.ok (put m) : Except Empty Text)) t t') : p.substitute put t = t' := by
  have hput := substituteM_of_turns h
  rw [substituteM_ok] at hput
  exact Except.ok.inj hput

/-- A text that is one match is put as it is told to. -/
theorem substituteM_of_matchAt {m : Match} (ht : t ≠ []) (hm : p.matchAt none t = some m) (hrest : m.rest = []) :
    p.substituteM put t = put m := by
  obtain ⟨x, t, rfl⟩ := List.exists_cons_of_ne_nil ht
  have hsegments : p.segments (x :: t) = [.hit m] := by
    have hshort : m.rest.length < (x :: t).length := by simp [hrest]
    rw [segments, segmentsFrom, hm]
    dsimp only
    rw [if_pos hshort, hrest, segmentsFrom]
  rw [substituteM_eq, hsegments, List.mapM_cons, List.mapM_nil, putPart]
  cases put m with
  | error e => rfl
  | ok t' => exact congrArg Except.ok (List.append_nil t')

/-- **A stretch in which no match begins stays**, and a match that ends the text is put as it is told to. -/
theorem substituteM_append {w : Text} {m : Match} (ht : t ≠ [])
    (hw : ∀ v, v ≠ [] → v <:+ w → ∀ b, p.matchAt b (v ++ t) = none) (hm : p.matchAt (behind none w) t = some m)
    (hrest : m.rest = []) : p.substituteM put (w ++ t) = (put m).map (w ++ ·) := by
  have hsegments : ∀ {w : Text} {b : Option Char}, (∀ v, v ≠ [] → v <:+ w → ∀ b, p.matchAt b (v ++ t) = none) →
      p.matchAt (behind b w) t = some m → p.segmentsFrom b (w ++ t) = w.map Segment.plain ++ [.hit m] := by
    intro w
    induction w with
    | nil =>
      intro b _ hm
      obtain ⟨x, t, rfl⟩ := List.exists_cons_of_ne_nil ht
      have hshort : m.rest.length < (x :: t).length := by simp [hrest]
      have hm : p.matchAt b (x :: t) = some m := hm
      rw [List.nil_append, segmentsFrom, hm]
      dsimp only
      rw [if_pos hshort, hrest, segmentsFrom]
      rfl
    | cons x w ih =>
      intro b hw hm
      rw [behind_cons] at hm
      have hfirst := hw (x :: w) (List.cons_ne_nil x w) (List.suffix_refl _) b
      rw [List.cons_append] at hfirst ⊢
      rw [segmentsFrom, hfirst, ih (fun v hv hvw => hw v hv (hvw.trans (List.suffix_cons x w))) hm]
      rfl
  have hplain : ∀ w : Text, (w.map Segment.plain).mapM (putPart put) = .ok (w.map fun x => [x]) := by
    intro w
    induction w with
    | nil => rfl
    | cons x w ih =>
      rw [List.map_cons, List.mapM_cons, ih]
      rfl
  rw [substituteM_eq, segments, hsegments hw hm, List.mapM_append, hplain, List.mapM_cons, List.mapM_nil, putPart]
  cases put m with
  | error e => rfl
  | ok t' =>
    show Except.ok (w.map (fun x => [x]) ++ [t']).flatten = Except.ok (w ++ t')
    rw [List.flatten_append, List.flatten_singleton, ← List.flatMap_def, List.flatMap_singleton']

theorem Turns.nil : p.Turns put [] [] := fun b => ⟨[], by rw [segmentsFrom]; rfl, rfl⟩

/-- A match is put as it is told to. -/
theorem Turns.hit {t' x : Text} (hlt : rest.length < t.length)
    (h : ∀ b, ∃ m, p.matchAt b t = some m ∧ m.rest = rest ∧ put m = .ok x)
    (hrest : p.Turns put rest t') : p.Turns put t (x ++ t') := by
  intro b
  obtain ⟨m, hm, rfl, hput⟩ := h b
  obtain ⟨parts, hparts, rfl⟩ := hrest m.closed.before
  refine ⟨x :: parts, ?_, rfl⟩
  obtain ⟨y, t, rfl⟩ := List.exists_cons_of_length_pos (Nat.zero_lt_of_lt hlt)
  rw [segmentsFrom, hm]
  dsimp only
  rw [if_pos hlt, List.mapM_cons, hparts, putPart, hput]
  rfl

/-- A stretch stays as it is if the matches that begin in it end in it and are put back. -/
theorem Turns.through {w u' : Text}
    (h : ∀ v, v ≠ [] → v <:+ w → ∀ b m, p.matchAt b (v ++ u) = some m →
      u.length ≤ m.rest.length ∧ put m = .ok m.text)
    (hu : p.Turns put u u') : p.Turns put (w ++ u) (w ++ u') := by
  -- on the length of the stretch, as a match takes more than one character of it
  induction hn : w.length using Nat.strongRecOn generalizing w with
  | ind n ih =>
    have htail : ∀ v, v <:+ w → v.length < w.length → p.Turns put (v ++ u) (v ++ u') := fun v hv hlt =>
      ih v.length (hn ▸ hlt) (fun x hx hxv => h x hx (hxv.trans hv)) rfl
    cases w with
    | nil => exact hu
    | cons x w =>
      intro b
      have hplain : ∃ parts, (Segment.plain x :: p.segmentsFrom (some x) (w ++ u)).mapM (putPart put) =
          .ok parts ∧ parts.flatten = x :: w ++ u' := by
        obtain ⟨parts, hparts, hflat⟩ := htail w (List.suffix_cons x w) (Nat.lt_succ_self _) (some x)
        refine ⟨[x] :: parts, ?_, ?_⟩
        · rw [List.mapM_cons, hparts]
          rfl
        · rw [List.flatten_cons, hflat]
          rfl
      rw [List.cons_append, segmentsFrom]
      split
      · rename_i m hm
        split
        · rename_i hlt
          obtain ⟨hinside, hput⟩ := h (x :: w) (List.cons_ne_nil x w) (List.suffix_refl _) b m hm
          have htext : m.text ++ m.rest = x :: w ++ u := text_append_rest hm
          -- the match ends in the stretch, so a shorter one is left
          obtain ⟨v, hrest⟩ : u <:+ m.rest :=
            List.suffix_of_suffix_length_le ⟨x :: w, rfl⟩ ⟨m.text, htext⟩ hinside
          have hw : m.text ++ v = x :: w := by
            rw [← hrest, ← List.append_assoc] at htext
            exact List.append_cancel_right htext
          have hshorter : v.length < (x :: w).length := by
            rw [← hrest, List.length_cons, List.length_append, List.length_append] at hlt
            rw [List.length_cons]
            omega
          obtain ⟨parts, hparts, hflat⟩ := htail v ⟨m.text, hw⟩ hshorter m.closed.before
          refine ⟨m.text :: parts, ?_, ?_⟩
          · rw [List.mapM_cons, putPart, hput, ← hrest, hparts]
            rfl
          · rw [List.flatten_cons, hflat, ← List.append_assoc, hw]
        · exact hplain
      · exact hplain

/-- A character at which no match begins stays. -/
theorem Turns.plain {t' : Text} {x : Char} (h : ∀ b, p.matchAt b (x :: t) = none) (ht : p.Turns put t t') :
    p.Turns put (x :: t) (x :: t') := by
  refine Turns.through (w := [x]) (fun v hv hvx b m hm => ?_) ht
  rcases List.suffix_cons_iff.1 hvx with rfl | hvx
  · rw [List.singleton_append, h b] at hm
    cases hm
  · exact absurd (List.suffix_nil.1 hvx) hv

end

end Fenceline.Pattern
