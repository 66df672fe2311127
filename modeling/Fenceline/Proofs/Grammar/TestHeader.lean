import Fenceline.Proofs.Grammar.TestRules

/-!
# The line that tells which test failed

What is told of a failed test begins with a line of its name, an arrow and the place. A name may have arrows in it
as well, and so may the name of a file, so such a line can be divided in several ways (`Divided`). It is read with
the shortest name (`DividedFirst`).

**The law** (`feed_failureLine`): after the heading above the failures such a line opens the report of a failure, with
the name and the file between which the line is first divided and the line and the column of the place. These are
the name and the file that were printed if and only if no shorter name divides the line.

**What it does not establish.** A name with an arrow and something that is not blank behind it is cut off there, and
the rest of it is read as the beginning of the file (`feed_failureLine_misread`).
-/

namespace Fenceline

namespace Grammar

open Pattern Reference

/-- The line of a failed test: its name, an arrow and the place. -/
def failureLine (name file line column : Text) : Text :=
  name ++ (" => ".toList ++ (file ++ (':' :: line ++ ':' :: column)))

/-- **A text divided at an arrow**, into a name and something that is not blank. -/
structure Divided (t name file : Text) : Prop where
  text : t = name ++ (" => ".toList ++ file)
  name_ne : name ≠ []
  solid : ∃ y ∈ file.head?, notBlank y = true

/-- **A text divided at its first arrow.** -/
structure DividedFirst (t name file : Text) : Prop extends Divided t name file where
  first : ∀ other rest, Divided t other rest → name.length ≤ other.length

variable {t name file other rest l k : Text} {c d : Cursor}

/-! ## Dividing a text -/

/-- A text that can be divided is divided at its first arrow. -/
theorem Divided.exists_first (h : Divided t name file) : ∃ other rest, DividedFirst t other rest := by
  induction hn : name.length using Nat.strongRecOn generalizing name file with
  | ind n ih =>
    by_cases hfirst : ∀ other rest, Divided t other rest → name.length ≤ other.length
    · exact ⟨name, file, h, hfirst⟩
    · simp only [not_forall, Nat.not_le] at hfirst
      obtain ⟨other, rest, hother, hlonger⟩ := hfirst
      exact ih other.length (hn ▸ hlonger) hother rfl

/-- The length of the name tells how a text is divided. -/
theorem Divided.eq_of_length (h : Divided t name file) (hother : Divided t other rest)
    (hlength : name.length = other.length) : name = other ∧ file = rest := by
  obtain ⟨rfl, hrest⟩ := List.append_inj (h.text.symm.trans hother.text) hlength
  exact ⟨rfl, List.append_cancel_left hrest⟩

/-- **A text is divided first in one way.** -/
theorem DividedFirst.eq_iff (h : DividedFirst t other rest) (hdivided : Divided t name file) :
    (other = name ∧ rest = file) ↔ ∀ shorter more, Divided t shorter more → name.length ≤ shorter.length := by
  constructor
  · rintro ⟨rfl, rfl⟩
    exact h.first
  · intro hfirst
    exact h.toDivided.eq_of_length hdivided
      (Nat.le_antisymm (h.first name file hdivided) (hfirst other rest h.toDivided))

/-- **What is left of a name behind a shorter one** begins with an arrow. -/
theorem Divided.begins (h : Divided (name ++ (" => ".toList ++ file)) other rest)
    (hlt : other.length < name.length) :
    ∃ u, u ≠ [] ∧ name = other ++ u ∧ u ++ (" => ".toList ++ file) = " => ".toList ++ rest := by
  obtain ⟨u, rfl⟩ : other <+: name :=
    List.prefix_of_prefix_length_le ⟨_, h.text.symm⟩ ⟨_, rfl⟩ (Nat.le_of_lt hlt)
  refine ⟨u, ?_, rfl, List.append_cancel_left ((List.append_assoc ..).symm.trans h.text)⟩
  rintro rfl
  simp at hlt

/-- A name with an arrow at its beginning at most is divided from what stands behind it. -/
theorem dividedFirst_of_absent {x : Char} {run : Text} (harrow : ¬ " =>".toList <:+: run)
    (hfile : ∃ y ∈ file.head?, notBlank y = true) :
    DividedFirst (x :: run ++ (" => ".toList ++ file)) (x :: run) file := by
  refine ⟨⟨rfl, List.cons_ne_nil x run, hfile⟩, fun other rest hother => Nat.le_of_not_lt fun hlt => ?_⟩
  obtain ⟨u, hu, hname, hbegins⟩ := hother.begins hlt
  obtain ⟨y, front, rfl⟩ := List.exists_cons_of_ne_nil hother.name_ne
  obtain ⟨-, rfl⟩ := List.cons.inj hname
  have hmisses := Text.misses_of_not_infix (by decide) harrow ("=> ".toList ++ file)
  refine hmisses u hu (List.suffix_append front u) ?_
  exact hbegins ▸ List.prefix_append " =>".toList (' ' :: rest)

/-! ## Reading the line -/

/-- What is read behind a text as a solid piece begins with what is not blank. -/
theorem exists_notBlank_of_mem {s name : String} {q : Pattern}
    (h : d ∈ (Pattern.seq (lit s) (.seq (group name solid) q)).results c) :
    ∃ y rest, notBlank y = true ∧ c.ahead = s.toList ++ y :: rest := by
  rw [results, List.mem_flatMap] at h
  obtain ⟨e, he, hd⟩ := h
  rw [results, List.mem_flatMap] at hd
  obtain ⟨f, hf, -⟩ := hd
  obtain ⟨y, rest, hy, hahead⟩ := exists_notBlank_of_mem_solid hf
  exact ⟨y, rest, hy, by rw [ahead_of_mem_literal he, hahead]⟩

/-- **Nothing is read behind a name that ends too early**: it would divide the text before. -/
theorem DividedFirst.results_eq_nil {x : Char} {run u numbers : Text} {part : String} {q : Pattern}
    (h : DividedFirst (x :: run ++ (" => ".toList ++ file)) (x :: run) file) (hu : u ≠ []) (hsuffix : u <:+ run)
    (hahead : c.ahead = u ++ (" => ".toList ++ (file ++ numbers))) :
    (Pattern.seq (lit " => ") (.seq (group part solid) q)).results c = [] := by
  refine List.eq_nil_iff_forall_not_mem.2 fun d hd => ?_
  obtain ⟨y, more, hy, hbehind⟩ := exists_notBlank_of_mem hd
  obtain ⟨front, rfl⟩ := hsuffix
  have hpositive := List.length_pos_iff.2 hu
  obtain ⟨z, hz, -⟩ := h.solid
  have hsolid := List.length_pos_iff.2 (List.ne_nil_of_mem (List.mem_of_mem_head? hz))
  -- what is not blank behind the arrow stands before the numbers
  obtain ⟨rest, hrest⟩ : " => ".toList ++ [y] <+: u ++ (" => ".toList ++ file) := by
    have hnumbers : u ++ (" => ".toList ++ file) <+: c.ahead := ⟨numbers, by simp [hahead]⟩
    refine List.prefix_of_prefix_length_le ⟨more, by simp [hbehind]⟩ hnumbers ?_
    simp only [List.length_append, List.length_cons, List.length_nil]
    omega
  have hearlier : Divided (x :: (front ++ u) ++ (" => ".toList ++ file)) (x :: front) (y :: rest) := by
    refine ⟨?_, List.cons_ne_nil x front, y, rfl, hy⟩
    rw [List.cons_append, List.append_assoc, ← hrest]
    simp
  have hle := h.first _ _ hearlier
  simp only [List.length_append, List.length_cons] at hle
  omega

/-- **The line of a failed test is read with the parts between which it is first divided.** -/
theorem read?_failureLine (h : DividedFirst (name ++ (" => ".toList ++ file)) name file)
    (hname : ∃ x ∈ name.head?, notBlank x = true) (hnameline : '\n' ∉ name) (hfileline : '\n' ∉ file)
    (hl : Digits l) (hk : Digits k) :
    ∃ reading, testFailure.read? (failureLine name file l k) = some reading ∧
      reading.captured = [("name", name), ("file", file), ("line", l), ("column", k)] := by
  obtain ⟨x, hx, hsolid⟩ := hname
  obtain ⟨run, rfl⟩ := List.head?_eq_some_iff.1 (Option.mem_def.1 hx)
  obtain ⟨y, hy, hfile⟩ := h.solid
  obtain ⟨rest, rfl⟩ := List.head?_eq_some_iff.1 (Option.mem_def.1 hy)
  let numbers := ':' :: l ++ ':' :: k
  let behindName := " => ".toList ++ (y :: rest ++ numbers)
  have hrun : '\n' ∉ run := fun hmem => hnameline (List.mem_cons_of_mem x hmem)
  obtain ⟨b, hplace⟩ := first_place hfile (fun hmem => hfileline (List.mem_cons_of_mem y hmem)) hl hk
    (behind (behind (some x) run) " => ".toList) [⟨"name", x :: run ++ behindName, behindName⟩]
  have hfirst : (all (group "name" solid :: lit " => " :: Grammar.place ++ [atEnd])).First
      ⟨none, x :: run ++ behindName, []⟩ _ :=
    first_solid hsolid hrun (fun z u hu hsuffix hahead => h.results_eq_nil hu hsuffix hahead)
      ((first_lit " => ").seq hplace)
  refine ⟨_, read?_of_first rfl hfirst, ?_⟩
  show [("name", (⟨"name", x :: run ++ behindName, behindName⟩ : Capture).text),
    ("file", (⟨"file", y :: rest ++ numbers, numbers⟩ : Capture).text),
    ("line", (⟨"line", l ++ ':' :: k, ':' :: k⟩ : Capture).text),
    ("column", (⟨"column", k, []⟩ : Capture).text)] = _
  rw [text_capture, text_capture, text_capture]
  simp [Capture.text]

/-- The line of a failed test has no escape sequences if the name and the file have none. -/
theorem esc_not_mem_failureLine (hname : Text.esc ∉ name) (hfile : Text.esc ∉ file) (hl : Digits l) (hk : Digits k) :
    Text.esc ∉ failureLine name file l k := by
  have hdigit : Text.isDecimal Text.esc = false := by decide +kernel
  have hnumber : ∀ {t : Text}, Digits t → Text.esc ∉ ':' :: t := fun ht =>
    List.not_mem_cons_of_ne_of_not_mem (by decide) fun hmem => Bool.eq_false_iff.1 hdigit (ht.isDecimal _ hmem)
  exact List.not_mem_append hname (List.not_mem_append (by decide)
    (List.not_mem_append hfile (List.not_mem_append (hnumber hl) (hnumber hk))))

/-- **The line of a failed test opens the report of a failure**, if no rule before reads it. The report has the line
and the column of the place, and the name and the file between which the line is first divided; these are the ones
that were printed if and only if no shorter name divides the line. -/
theorem feed_failureLine {r : Reader} {line : Line} (hgrammar : r.grammar = test) (hstate : r.state = "errors")
    (hfinal : line.final = true) (hline : line.text = failureLine name file l k)
    (hname : (∃ x ∈ name.head?, notBlank x = true) ∧ '\n' ∉ name ∧ Text.esc ∉ name)
    (hfile : (∃ y ∈ file.head?, notBlank y = true) ∧ '\n' ∉ file ∧ Text.esc ∉ file)
    (hl : Digits l) (hk : Digits k)
    (hbefore : ∀ rule ∈ [testOutput, testOutputEnd, testOutputLine, testErrors, testFailures, testSummary],
      rule.applies "errors" = true → (rule.read? line.text).isNone = true) :
    ∃ (first rest : Text) (draft : Draft),
      DividedFirst (name ++ (" => ".toList ++ file)) first rest ∧
      r.feed line = (r.deliver ++ [.flush draft false],
        { r with state := "failure", pending := some ⟨draft, true⟩ }) ∧
      draft.kind = .ok .failure ∧ draft.message = .ok line.text ∧
      draft.get? "name" = some first ∧ draft.get? "file" = some rest ∧
      draft.get? "line" = some l ∧ draft.get? "column" = some k ∧
      ((first = name ∧ rest = file) ↔
        ∀ other more, Divided (name ++ (" => ".toList ++ file)) other more → name.length ≤ other.length) := by
  obtain ⟨⟨x, hx, hsolid⟩, hnameline, hnameesc⟩ := hname
  obtain ⟨hfilesolid, hfileline, hfileesc⟩ := hfile
  have hprinted : Divided (name ++ (" => ".toList ++ file)) name file :=
    ⟨rfl, List.ne_nil_of_mem (List.mem_of_mem_head? hx), hfilesolid⟩
  obtain ⟨first, rest, hdivided⟩ := hprinted.exists_first
  -- what stands in the name and the file stands in what is printed
  have hlines : '\n' ∉ first ++ (" => ".toList ++ rest) :=
    hdivided.text ▸ List.not_mem_append hnameline (List.not_mem_append (by decide) hfileline)
  have hfirst : ∃ x ∈ first.head?, notBlank x = true := by
    obtain ⟨y, front, hfront⟩ := List.exists_cons_of_ne_nil hdivided.name_ne
    obtain ⟨run, rfl⟩ := List.head?_eq_some_iff.1 (Option.mem_def.1 hx)
    have hsame := hdivided.text
    rw [hfront] at hsame ⊢
    exact ⟨y, rfl, (List.cons.inj hsame).1 ▸ hsolid⟩
  have hsaid : line.said = line.text :=
    Text.stripEscapes_of_not_mem (hline ▸ esc_not_mem_failureLine hnameesc hfileesc hl hk)
  have hsame : line.text = failureLine first rest l k := by
    rw [hline]
    simpa [failureLine] using congrArg (· ++ (':' :: l ++ ':' :: k)) hdivided.text
  obtain ⟨reading, hread, hcaptured⟩ := read?_failureLine (hdivided.text ▸ hdivided) hfirst
    (fun hmem => hlines (List.mem_append_left _ hmem))
    (fun hmem => hlines (List.mem_append_right _ (List.mem_append_right _ hmem))) hl hk
  have hreads : r.grammar.Reads r.state line.said (.opens .failure)
      [("name", first), ("file", rest), ("line", l), ("column", k)] "failure" := by
    rw [hgrammar, hstate, hsaid]
    refine reads_of_first [testOutput, testOutputEnd, testOutputLine, testErrors, testFailures, testSummary] test_eq
      (by decide) (hsame ▸ hread) (fun rule hrule => ?_) hcaptured rfl
    cases happlies : rule.applies "errors" with
    | false => exact .inl rfl
    | true => exact .inr (hbefore rule hrule happlies)
  refine ⟨first, rest, _, hdivided, feed_of_reads r hfinal hreads, rfl, ?_, rfl, rfl, rfl, rfl,
    hdivided.eq_iff hprinted⟩
  exact hsaid ▸ Draft.message_of_get? (Draft.get?_opened_message ..)

/-- A name with an arrow and two blanks behind it. -/
theorem feed_failureLine_blank :
    let line : Line := ⟨.stdout, "a =>  b => ./m.ts:1:2".toList, true⟩
    let r : Reader := { grammar := test, state := "errors" }
    ∃ draft : Draft, (r.feed line).1 = [.flush draft false] ∧ (r.feed line).2.state = "failure" ∧
      draft.get? "name" = some "a =>  b".toList ∧ draft.get? "file" = some "./m.ts".toList := by
  intro line r
  let name := "a =>  b".toList
  let file := "./m.ts".toList
  have hname : (∃ x ∈ name.head?, notBlank x = true) ∧ '\n' ∉ name ∧ Text.esc ∉ name :=
    ⟨⟨'a', rfl, by decide +kernel⟩, by decide, by decide⟩
  have hfile : (∃ y ∈ file.head?, notBlank y = true) ∧ '\n' ∉ file ∧ Text.esc ∉ file :=
    ⟨⟨'.', rfl, by decide +kernel⟩, by decide, by decide⟩
  have hdigits : Digits "1".toList ∧ Digits "2".toList := by decide +kernel
  have hbefore : ∀ rule ∈ [testOutput, testOutputEnd, testOutputLine, testErrors, testFailures, testSummary],
      rule.applies "errors" = true → (rule.read? line.text).isNone = true := by decide +kernel
  -- behind the first arrow there is a blank, so nothing shorter than the name divides the line
  have hshortest : ∀ other more,
      Divided (name ++ (" => ".toList ++ file)) other more → name.length ≤ other.length := by
    have hblank : ∀ i < name.length, " => ".toList <+: (name ++ (" => ".toList ++ file)).drop i →
        ((name ++ (" => ".toList ++ file)).drop (i + 4)).head?.all (!notBlank ·) = true := by decide +kernel
    refine fun other more h => Nat.le_of_not_lt fun hlt => ?_
    obtain ⟨y, hy, hsolid⟩ := h.solid
    have hdrop : (name ++ (" => ".toList ++ file)).drop other.length = " => ".toList ++ more := by
      rw [h.text, List.drop_left]
    have hmore : (name ++ (" => ".toList ++ file)).drop (other.length + 4) = more := by
      rw [← List.drop_drop, hdrop]
      rfl
    have hnone := hblank other.length hlt (hdrop ▸ List.prefix_append _ _)
    rw [hmore, Option.mem_def.1 hy, Option.all_some, hsolid] at hnone
    cases hnone
  obtain ⟨first, rest, draft, -, hfeed, -, -, hdraft, hplace, -, -, hiff⟩ :=
    feed_failureLine (r := r) rfl rfl (rfl : line.final = true) rfl hname hfile hdigits.1 hdigits.2 hbefore
  obtain ⟨rfl, rfl⟩ := hiff.2 hshortest
  rw [hfeed]
  exact ⟨draft, rfl, rfl, hdraft, hplace⟩

/-- Names with an arrow and something that is not blank behind it: the rest of the name is read as the beginning of
the file. -/
theorem feed_failureLine_misread :
    let r : Reader := { grammar := test, state := "errors" }
    let read (text : String) : List (Option Text × Option Text) :=
      (r.feed ⟨.stdout, text.toList, true⟩).1.map fun
        | .flush draft _ => (draft.get? "name", draft.get? "file")
        | .unrecognized _ => (none, none)
    read (String.ofList (failureLine "maps a => b".toList "./m.ts".toList "1".toList "2".toList)) =
        [(some "maps a".toList, some "b => ./m.ts".toList)] ∧
      read (String.ofList (failureLine "x =>".toList "./m.ts".toList "1".toList "2".toList)) =
        [(some "x".toList, some "=> ./m.ts".toList)] := by
  decide +kernel

end Grammar

end Fenceline
