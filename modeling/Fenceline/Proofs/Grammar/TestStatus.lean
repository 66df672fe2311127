import Fenceline.Proofs.Grammar.TestRules
import Fenceline.Proofs.Text.Trim
import Fenceline.Report.Reporter

/-!
# What is told of tests while they run

A line tells how many tests are in a file (`fileLine`). Then a line tells that a test has begun, or what it came to
and how long it took (`testLine`); a step of a test is told of in the same way, two spaces further in.

**The laws.** `reads_fileLine`, `reads_testLine`: such a line opens a report with its parts, and the reader stays
where it is.

**What it does not establish.** A line is not read in this way if the name of the test stands for something else:
if it looks like a line about a file or about all tests, or has three dots in it.
-/

namespace Fenceline

namespace Grammar

open Pattern Reference

variable {name file rest t : Text} {caps : List Capture} {depth count : Nat} {plural : Bool}

/-! ## Lines about a file -/

/-- The line that tells how many tests are in a file. -/
def fileLine (count : Nat) (plural : Bool) (file : Text) : Text :=
  "running ".toList ++ (Text.ofNat count ++ (" test".toList ++
    ((if plural then "s".toList else []) ++ (" from ".toList ++ file))))

theorem read?_fileLine (count : Nat) (plural : Bool) (hne : file ≠ []) (hline : '\n' ∉ file) :
    ∃ reading, testFile.read? (fileLine count plural file) = some reading ∧
      reading.captured = [("file", file)] := by
  let behindCount := " test".toList ++ ((if plural then "s".toList else []) ++ (" from ".toList ++ file))
  have hcount : ∀ b, digits.First ⟨b, Text.ofNat count ++ behindCount, []⟩
      ⟨behind b (Text.ofNat count), behindCount, []⟩ := fun b =>
    first_some1 (digits_ofNat count).ne_nil (digits_ofNat count).isDecimal (noDigit_cons (by decide +kernel) _)
  have hplural : ∀ b, ∃ b', (maybe "s").First
      ⟨b, (if plural then "s".toList else []) ++ (" from ".toList ++ file), []⟩ ⟨b', " from ".toList ++ file, []⟩ := by
    intro b
    cases plural with
    | true => exact ⟨_, (first_lit "s").opt⟩
    | false =>
      refine ⟨b, first_opt_of_results (results_literal_of_ne 's' [] ?_)⟩
      exact (by decide : some ' ' ≠ some 's')
  have hfile : ∀ b, (group "file" (some1 .greedy notNewline)).First ⟨b, file ++ [], []⟩
      ⟨behind b file, [], ⟨"file", file ++ [], []⟩ :: []⟩ := fun b =>
    (first_some1 hne (notNewline_of_not_mem hline) (by simp)).group
  rw [List.append_nil] at hfile
  obtain ⟨b, hplural⟩ := hplural (behind (behind (behind none "running ".toList) (Text.ofNat count)) " test".toList)
  have hfirst : (all (filePieces ++ [atEnd])).First ⟨none, fileLine count plural file, []⟩ _ :=
    (first_lit "running ").seq ((hcount _).seq ((first_lit " test").seq (hplural.seq
      ((first_lit " from ").seq ((hfile _).seq (first_atEnd rfl))))))
  refine ⟨_, read?_of_first rfl hfirst, ?_⟩
  show [("file", (⟨"file", file, []⟩ : Capture).text)] = _
  simp [Capture.text]

/-- A file with tests is no file without them. -/
theorem testNone_isNone (hpos : 0 < count) (hline : '\n' ∉ fileLine count plural file) :
    (testNone.read? (fileLine count plural file)).isNone = true := by
  refine isNone_of_not_spells rfl hline ?_
  rintro ⟨u, v, rfl, -, hspelled⟩
  have hzero : Text.ofNat count = ['0'] := by
    have hcount : Text.ofNat count ++ ' ' :: _ = ['0'] ++ ' ' :: ("test".toList ++ v) :=
      List.append_cancel_left hspelled
    exact (Text.eq_of_append_cons (Text.not_mem_ofNat (by decide)) (by decide) hcount).1
  have hvalue := Text.valueOfDigits_ofNat count
  rw [hzero] at hvalue
  exact Nat.ne_of_gt hpos hvalue.symm

theorem newline_not_mem_fileLine (count : Nat) (plural : Bool) (hline : '\n' ∉ file) :
    '\n' ∉ fileLine count plural file := by
  have hcount : '\n' ∉ Text.ofNat count := Text.not_mem_ofNat (by decide)
  have hplural : '\n' ∉ (if plural then "s".toList else []) := by cases plural <;> decide
  exact List.not_mem_append (by decide) (List.not_mem_append hcount (List.not_mem_append (by decide)
    (List.not_mem_append hplural (List.not_mem_append (by decide) hline))))

/-- **A line about a file opens a report on it.** -/
theorem reads_fileLine (hpos : 0 < count) (hne : file ≠ []) (hline : '\n' ∉ file) :
    test.Reads "default" (fileLine count plural file) (.opens .test) [("file", file)] "default" := by
  have hnewline := newline_not_mem_fileLine count plural hline
  have hhead : (fileLine count plural file).head? = some 'r' := by
    unfold fileLine
    rfl
  obtain ⟨reading, hread, hcaptured⟩ := read?_fileLine count plural hne hline
  have hbefore := default_of_not_mem_headings hnewline
    (fun hmem => absurd (hhead ▸ List.mem_map_of_mem (f := List.head?) hmem) (by decide))
    (testSummary_isNone hnewline (not_beforeDigit_of_head? rfl (by rw [hhead]; decide))
      (not_beforeDigit_of_head? rfl (by rw [hhead]; decide))
      (fun he => absurd (he ▸ hhead) (by decide)) (fun hbar => absurd (hhead.symm.trans hbar) (by decide)))
  refine reads_of_first (testEarly ++ [body ["failure"], testNone]) test_eq rfl hread
    (List.forall_mem_append.2 ⟨hbefore, ?_⟩) hcaptured rfl
  exact List.forall_mem_cons.2 ⟨.inl (by decide), List.forall_mem_singleton.2 (.inr (testNone_isNone hpos hnewline))⟩

/-! ## Lines about a test -/

/-- **A name that a test may have**: it begins with something that is not blank and stands for nothing else. -/
structure TestName (name : Text) : Prop where
  solid : ∃ x ∈ name.head?, notBlank x = true
  newline : '\n' ∉ name
  dots : ¬ " ...".toList <:+: name
  starts : ∀ s ∈ ["running ", "ok | ", "FAILED | "], ¬ s.toList <+: name

/-- What a test can come to. -/
inductive Verdict where
  | ok
  | ignored
  | failed
  | incomplete
  deriving DecidableEq, Repr

namespace Verdict

/-- How it is told. -/
def word : Verdict → String
  | ok => "ok"
  | ignored => "ignored"
  | failed => "FAILED"
  | incomplete => "INCOMPLETE"

/-- Whether it is no failure. -/
def passed : Verdict → Bool
  | ok | ignored => true
  | failed | incomplete => false

theorem isSuccess_word (v : Verdict) : TestRun.isSuccess v.word.toList = v.passed := by
  cases v <;> decide

end Verdict

/-- What a test came to, and how long it took if that is told. -/
structure TestResult where
  verdict : Verdict
  time : Option Text
  deriving DecidableEq, Repr

/-- **A result that can be told**: no time has a parenthesis, or ends the line. -/
def TestResult.Told (r : TestResult) : Prop :=
  ∀ t ∈ r.time, '(' ∉ t ∧ ')' ∉ t ∧ '\n' ∉ t

instance (r : TestResult) : Decidable r.Told :=
  inferInstanceAs (Decidable (∀ t ∈ r.time, _))

/-- What stands behind the dots. -/
def TestResult.text (r : TestResult) : Text :=
  " ".toList ++ (r.verdict.word.toList ++ r.time.elim [] fun t => " ".toList ++ ("(".toList ++ (t ++ ")".toList)))

/-- The steps that a line stands further in. -/
def indent (depth : Nat) : Text :=
  (List.replicate depth "  ".toList).flatten

/-- The line that tells that a test has begun, or what it came to. -/
def testLine (depth : Nat) (name : Text) (result : Option TestResult) : Text :=
  indent depth ++ (name ++ (" ...".toList ++ result.elim [] TestResult.text))

/-- The parts of such a line. -/
def testParts (depth : Nat) (name : Text) (result : Option TestResult) : List (String × Text) :=
  [("step", indent depth), ("name", name)] ++
    result.elim [] fun r => ("status", r.verdict.word.toList) :: (r.time.map ("time", ·)).toList

theorem length_indent (depth : Nat) : (indent depth).length = 2 * depth := by
  simp [indent]
  omega

theorem not_mem_indent {x : Char} (hx : x ≠ ' ') (depth : Nat) : x ∉ indent depth := by
  intro hmem
  obtain ⟨step, hstep, hmem⟩ := List.mem_flatten.1 hmem
  rw [List.eq_of_mem_replicate hstep] at hmem
  rcases List.mem_pair.1 hmem with rfl | rfl
  · exact hx rfl
  · exact hx rfl

/-- The spaces in front are read as steps. -/
theorem first_indent (caps : List Capture) (depth : Nat) (hrest : rest.head? ≠ some ' ') (b : Option Char) :
    ∃ b', (star (lit "  ")).First ⟨b, indent depth ++ rest, caps⟩ ⟨b', rest, caps⟩ := by
  have go : ∀ depth n b, depth ≤ n → ∃ b', (starResults (lit "  ").results n ⟨b, indent depth ++ rest, caps⟩).head? =
      some ⟨b', rest, caps⟩ := by
    intro depth
    induction depth with
    | zero =>
      intro n b _
      have hnone : (lit "  ").results ⟨b, rest, caps⟩ = [] := results_literal_of_ne ' ' [' '] hrest
      refine ⟨b, ?_⟩
      cases n with
      | zero => rfl
      | succ n =>
        show (starResults _ (n + 1) ⟨b, rest, caps⟩).head? = _
        rw [starResults, hnone]
        rfl
    | succ depth ih =>
      intro n b hn
      obtain ⟨n, rfl⟩ : ∃ m, n = m + 1 := ⟨n - 1, by omega⟩
      have hone : (lit "  ").results ⟨b, "  ".toList ++ (indent depth ++ rest), caps⟩ =
          [⟨some ' ', indent depth ++ rest, caps⟩] := results_literal "  ".toList
      have hshorter : (indent depth ++ rest).length < ("  ".toList ++ (indent depth ++ rest)).length :=
        Nat.lt_succ_of_lt (Nat.lt_succ_self _)
      obtain ⟨b', hmore⟩ := ih n (some ' ') (by omega)
      refine ⟨b', ?_⟩
      show (starResults _ (n + 1) ⟨b, "  ".toList ++ (indent depth ++ rest), caps⟩).head? = _
      rw [starResults, hone, List.filter_cons_of_pos (by exact decide_eq_true hshorter), List.filter_nil,
        List.flatMap_singleton, List.head?_append, hmore]
      rfl
  refine go depth _ b ?_
  simp only [List.length_append, length_indent]
  omega

/-- A verdict is read as it is told. -/
theorem first_verdict (caps : List Capture) (v : Verdict) (b : Option Char) (rest : Text) :
    ∃ b', (group "status" (anyOf (lit "FAILED") [lit "INCOMPLETE", lit "ok", lit "ignored"])).First
      ⟨b, v.word.toList ++ rest, caps⟩ ⟨b', rest, ⟨"status", v.word.toList ++ rest, rest⟩ :: caps⟩ := by
  have hnot : ∀ (x y : Char) (text behind : Text), y ≠ x →
      (literal (x :: text)).results ⟨b, y :: behind, caps⟩ = [] := fun x y text behind hne =>
    results_literal_of_ne x text fun hhead => hne (Option.some.inj hhead)
  cases v with
  | failed => exact ⟨_, ((first_lit "FAILED").alt _).group⟩
  | incomplete =>
    exact ⟨_, (first_alt_of_results (hnot 'F' 'I' _ _ (by decide)) ((first_lit "INCOMPLETE").alt _)).group⟩
  | ok =>
    exact ⟨_, (first_alt_of_results (hnot 'F' 'o' _ _ (by decide)) (first_alt_of_results
      (hnot 'I' 'o' _ _ (by decide)) ((first_lit "ok").alt _))).group⟩
  | ignored =>
    exact ⟨_, (first_alt_of_results (hnot 'F' 'i' _ _ (by decide)) (first_alt_of_results
      (hnot 'I' 'i' _ _ (by decide)) (first_alt_of_results (hnot 'o' 'i' _ _ (by decide))
        (first_lit "ignored")))).group⟩

/-- A time in parentheses. -/
theorem first_time (caps : List Capture) (hopen : '(' ∉ t) (hclose : ')' ∉ t) (b : Option Char) :
    ∃ b', timePieces.First ⟨b, " ".toList ++ ("(".toList ++ (t ++ ")".toList)), caps⟩
      ⟨b', [], ⟨"time", t ++ ")".toList, ")".toList⟩ :: caps⟩ := by
  have hinside : ∀ x ∈ t, (x != '(' && x != ')') = true := by
    intro x hx
    rw [Bool.and_eq_true, bne_iff_ne, bne_iff_ne]
    exact ⟨fun he => hopen (he ▸ hx), fun he => hclose (he ▸ hx)⟩
  have hbehind : ∀ x ∈ (")".toList).head?, (x != '(' && x != ')') = false := by
    intro x hx
    obtain rfl := Option.some.inj hx
    rfl
  have htime : ∀ b, (group "time" (many .greedy fun c => c != '(' && c != ')')).First ⟨b, t ++ ")".toList, caps⟩
      ⟨behind b t, ")".toList, ⟨"time", t ++ ")".toList, ")".toList⟩ :: caps⟩ := fun b =>
    (first_greedy hinside hbehind).group
  exact ⟨_, ((first_lit " ").seq (first_lazy.seq ((first_lit "(").seq ((htime _).seq (first_char ')'))))).opt⟩

/-- What is named of a result. -/
def resultCaptures : Option TestResult → List Capture
  | none => []
  | some ⟨v, none⟩ => [⟨"status", v.word.toList, []⟩]
  | some ⟨v, some t⟩ =>
    let rest := " ".toList ++ ("(".toList ++ (t ++ ")".toList))
    [⟨"time", t ++ ")".toList, ")".toList⟩, ⟨"status", v.word.toList ++ rest, rest⟩]

/-- **What stands behind the dots is read as a result**, or as none. -/
theorem first_result (result : Option TestResult) (htold : ∀ r ∈ result, r.Told) (b : Option Char)
    (caps : List Capture) :
    ∃ b', (Pattern.seq verdictPieces atEnd).First ⟨b, result.elim [] TestResult.text, caps⟩
      ⟨b', [], resultCaptures result ++ caps⟩ := by
  match result with
  | none => exact ⟨b, (first_opt_of_results rfl).seq (first_atEnd rfl)⟩
  | some ⟨v, none⟩ =>
    obtain ⟨b', hverdict⟩ := first_verdict caps v (behind b " ".toList) []
    rw [List.append_nil] at hverdict
    have htime : timePieces.First ⟨b', [], ⟨"status", v.word.toList, []⟩ :: caps⟩ _ := first_opt_of_results rfl
    have hall := ((first_lit " ").seq (hverdict.seq htime)).opt.seq (first_atEnd rfl)
    refine ⟨b', ?_⟩
    show (Pattern.seq verdictPieces atEnd).First ⟨b, " ".toList ++ (v.word.toList ++ []), caps⟩ _
    rw [List.append_nil]
    exact hall
  | some ⟨v, some t⟩ =>
    obtain ⟨hopen, hclose, -⟩ := htold _ rfl t rfl
    obtain ⟨b', hverdict⟩ :=
      first_verdict caps v (behind b " ".toList) (" ".toList ++ ("(".toList ++ (t ++ ")".toList)))
    obtain ⟨b'', htime⟩ := first_time (_ :: caps) hopen hclose b'
    exact ⟨b'', ((first_lit " ").seq (hverdict.seq htime)).opt.seq (first_atEnd rfl)⟩

/-- **A line about a test is read with its parts.** -/
theorem read?_testLine (depth : Nat) (hname : TestName name) (result : Option TestResult)
    (htold : ∀ r ∈ result, r.Told) :
    ∃ reading, testStatus.read? (testLine depth name result) = some reading ∧
      reading.captured = testParts depth name result := by
  obtain ⟨⟨x, hx, hsolid⟩, hnewline, hdots, -⟩ := hname
  obtain ⟨run, rfl⟩ := List.head?_eq_some_iff.1 (Option.mem_def.1 hx)
  let behindName := " ...".toList ++ result.elim [] TestResult.text
  let named := x :: run ++ behindName
  have hspace : named.head? ≠ some ' ' := by
    intro hhead
    rw [Option.some.inj hhead] at hsolid
    exact absurd hsolid (by decide +kernel)
  obtain ⟨b, hindent⟩ := first_indent [] depth hspace none
  obtain ⟨b', hresult⟩ := first_result result htold (behind (behind (some x) run) " ...".toList)
    [⟨"name", named, behindName⟩, ⟨"step", indent depth ++ named, named⟩]
  have hmisses : Text.Misses " ...".toList run behindName :=
    Text.misses_of_not_infix (by decide) (fun h => hdots (h.trans (List.suffix_cons x run).isInfix)) _
  have hrun : '\n' ∉ run := fun hmem => hnewline (List.mem_cons_of_mem x hmem)
  have hfirst : (all (statusPieces ++ [atEnd])).First ⟨none, testLine depth (x :: run) result, []⟩ _ :=
    hindent.group.seq (first_named hsolid hrun hmisses hresult)
  refine ⟨_, read?_of_first rfl hfirst, ?_⟩
  have hstep : (⟨"step", indent depth ++ named, named⟩ : Capture).text = indent depth := text_capture ..
  have htitle : (⟨"name", named, behindName⟩ : Capture).text = x :: run := text_capture ..
  match result with
  | none =>
    show [("step", (⟨"step", indent depth ++ named, named⟩ : Capture).text),
      ("name", (⟨"name", named, behindName⟩ : Capture).text)] = _
    rw [hstep, htitle]
    rfl
  | some ⟨v, none⟩ =>
    show [("step", (⟨"step", indent depth ++ named, named⟩ : Capture).text),
      ("name", (⟨"name", named, behindName⟩ : Capture).text),
      ("status", (⟨"status", v.word.toList, []⟩ : Capture).text)] = _
    rw [hstep, htitle]
    simp [Capture.text, testParts]
  | some ⟨v, some t⟩ =>
    let rest := " ".toList ++ ("(".toList ++ (t ++ ")".toList))
    show [("step", (⟨"step", indent depth ++ named, named⟩ : Capture).text),
      ("name", (⟨"name", named, behindName⟩ : Capture).text),
      ("status", (⟨"status", v.word.toList ++ rest, rest⟩ : Capture).text),
      ("time", (⟨"time", t ++ ")".toList, ")".toList⟩ : Capture).text)] = _
    rw [hstep, htitle, text_capture, text_capture]
    rfl

/-! ## Other rules -/

/-- A line about a test ends in something that is neither blank nor a bar. -/
theorem getLast?_testLine (depth : Nat) (name : Text) (result : Option TestResult) :
    ∃ x, (testLine depth name result).getLast? = some x ∧ Text.isBlank x = false ∧ x ≠ '|' := by
  have hbehind := fun (front : Text) {t : Text} {x : Char} (h : t.getLast? = some x) =>
    Text.getLast?_append_of_eq_some front h
  match result with
  | none => exact ⟨'.', hbehind _ (hbehind _ rfl), by decide +kernel, by decide⟩
  | some ⟨v, none⟩ =>
    have hword : ∃ x, (v.word.toList ++ []).getLast? = some x ∧ Text.isBlank x = false ∧ x ≠ '|' := by
      cases v with
      | ok => exact ⟨'k', rfl, by decide +kernel, by decide⟩
      | ignored => exact ⟨'d', rfl, by decide +kernel, by decide⟩
      | failed => exact ⟨'D', rfl, by decide +kernel, by decide⟩
      | incomplete => exact ⟨'E', rfl, by decide +kernel, by decide⟩
    obtain ⟨x, hlast, hends⟩ := hword
    exact ⟨x, hbehind _ (hbehind _ (hbehind _ (hbehind _ hlast))), hends⟩
  | some ⟨v, some t⟩ =>
    exact ⟨')', hbehind _ (hbehind _ (hbehind _ (hbehind _ (hbehind _ (hbehind _ (hbehind _ (hbehind t rfl))))))),
      by decide +kernel, by decide⟩

/-- A line about a test is no other line, as its name does not begin as one. -/
theorem not_beforeDigit_testLine (depth : Nat) (hname : TestName name) (result : Option TestResult) {s : String}
    (hs : s ∈ ["running ", "ok | ", "FAILED | "]) : ¬ BeforeDigit s.toList (testLine depth name result) := by
  have hplain : ∀ s ∈ ["running ", "ok | ", "FAILED | "],
      '.' ∉ s.toList ∧ s.toList.head? ≠ none ∧ s.toList.head? ≠ some ' ' := by decide
  obtain ⟨hdot, hhead, hspace⟩ := hplain s hs
  cases depth with
  | zero => exact not_beforeDigit_of_name (hname.starts s hs) hdot (by decide +kernel)
  | succ depth =>
    obtain ⟨x, hx⟩ := Option.ne_none_iff_exists'.1 hhead
    exact not_beforeDigit_of_head? hx fun hindent => hspace (hx.trans hindent.symm)

theorem newline_not_mem_testLine (depth : Nat) (hname : TestName name) (result : Option TestResult)
    (htold : ∀ r ∈ result, r.Told) : '\n' ∉ testLine depth name result := by
  have hindent : '\n' ∉ indent depth := not_mem_indent (by decide) depth
  have hword : ∀ v : Verdict, '\n' ∉ v.word.toList := by
    intro v
    cases v <;> decide
  have hresult : '\n' ∉ result.elim [] TestResult.text := by
    match result with
    | none => exact List.not_mem_nil
    | some ⟨v, none⟩ => exact List.not_mem_append (by decide) (List.not_mem_append (hword v) List.not_mem_nil)
    | some ⟨v, some t⟩ =>
      obtain ⟨-, -, hline⟩ := htold _ rfl t rfl
      exact List.not_mem_append (by decide) (List.not_mem_append (hword v) (List.not_mem_append (by decide)
        (List.not_mem_append (by decide) (List.not_mem_append hline (by decide)))))
  exact List.not_mem_append hindent (List.not_mem_append hname.newline (List.not_mem_append (by decide) hresult))

/-- **A line about a test opens a report on it.** -/
theorem reads_testLine (depth : Nat) (hname : TestName name) (result : Option TestResult)
    (htold : ∀ r ∈ result, r.Told) :
    test.Reads "default" (testLine depth name result) (.opens .test) (testParts depth name result) "default" := by
  have hline := newline_not_mem_testLine depth hname result htold
  have hnot := fun (s : String) (hs : s ∈ ["running ", "ok | ", "FAILED | "]) =>
    not_beforeDigit_testLine depth hname result hs
  obtain ⟨x, hlast, -, hbar⟩ := getLast?_testLine depth name result
  have hdot : '.' ∈ testLine depth name result :=
    List.mem_append_right _ (List.mem_append_right _ (List.mem_append_left _ (by decide)))
  obtain ⟨reading, hread, hcaptured⟩ := read?_testLine depth hname result htold
  obtain ⟨herror, hheading⟩ := ne_heading_of_mem hdot (by decide)
  have hbefore := default_of_not_mem_headings hline hheading
    (testSummary_isNone hline (hnot "ok | " (by decide)) (hnot "FAILED | " (by decide)) herror
      (fun _ hbarred => hbar (Option.some.inj (hlast.symm.trans hbarred))))
  obtain ⟨hnofile, hfile⟩ := testFile_isNone hline (hnot "running " (by decide))
  refine reads_of_first (testEarly ++ [body ["failure"], testNone, testFile]) test_eq rfl hread
    (List.forall_mem_append.2 ⟨hbefore, ?_⟩) hcaptured rfl
  exact List.forall_mem_cons.2 ⟨.inl (by decide),
    List.forall_mem_cons.2 ⟨.inr hnofile, List.forall_mem_singleton.2 (.inr hfile)⟩⟩

end Grammar

end Fenceline
