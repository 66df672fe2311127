import Fenceline.Proofs.Grammar.TestRules
import Mathlib.Data.List.Infix

/-!
# What a test prints

What a test prints stands between two markers. Each line of it is a part of one report, whatever it looks like:
in the state that the first marker leads to, only another such marker is read by a rule that opens a report, and
only a marker of the end by one that leads out of the state. Parts of lines write nothing into the report, as its
text is only collected from lines that are finished.

**The law** (`readAll_output`): what is printed between the markers is one report, verbatim, wherever the chunks
of the stream end.
-/

namespace Fenceline

namespace Grammar

open Pattern

variable {t marker : Text} {lines : List Text} {stream : Stream}

/-- The line behind what a test prints. -/
def outputEnd : Text :=
  "----- output end -----".toList

/-- **A line that a test may print**: it is one line, does not begin with the marker of other output, and does not
end this one. -/
structure OutputLine (t : Text) : Prop where
  newline : '\n' ∉ t
  carriage : '\r' ∉ t
  escape : Text.esc ∉ t
  marker : ∀ m ∈ outputMarkers, ¬ m <+: t
  ends : t ∉ outputEnds

instance (t : Text) : Decidable (OutputLine t) :=
  decidable_of_iff
    ('\n' ∉ t ∧ '\r' ∉ t ∧ Text.esc ∉ t ∧ (∀ m ∈ outputMarkers, ¬ m <+: t) ∧ t ∉ outputEnds)
    ⟨fun ⟨h₁, h₂, h₃, h₄, h₅⟩ => ⟨h₁, h₂, h₃, h₄, h₅⟩, fun h => ⟨h.1, h.2, h.3, h.4, h.5⟩⟩

/-- What is known of the report when it says a message and these lines were printed. -/
def outputSaying (message : Text) (lines : List Text) : Draft :=
  [("kind", Kind.output.name.toList), ("message", message)] ++
    if lines = [] then [] else [("output", Text.joinWith ['\n'] lines)]

/-- **The report of what a test printed**: the markers and the lines, and the lines alone if there are any. -/
def outputDraft (marker : Text) (lines : List Text) : Draft :=
  outputSaying (Text.joinWith ['\n'] (marker :: (lines ++ [outputEnd]))) lines

theorem isOf_outputSaying (message : Text) (lines : List Text) : (outputSaying message lines).IsOf .output := rfl

/-! ## Lines between the markers -/

/-- **Whatever is printed is read as what is printed.** -/
theorem reads_outputLine (hline : '\n' ∉ t) (hmarker : t ∉ outputMarkers) (hend : t ∉ outputEnds) :
    test.Reads "output" t (.extends ["output"]) [("output", t)] "output" := by
  have hfirst : (all ([group "output" anything] ++ [atEnd])).First ⟨none, t, []⟩ _ :=
    first_reason hline "output"
  refine reads_of_first [testOutput, testOutputEnd] test_eq rfl (read?_of_first rfl hfirst) ?_ ?_ rfl
  · intro r hr
    rcases List.mem_pair.1 hr with rfl | rfl
    · exact .inr (testOutput_isNone hline hmarker)
    · exact .inr (testOutputEnd_isNone hline hend)
  · show [("output", (⟨"output", t, []⟩ : Capture).text)] = _
    simp [Capture.text]

/-- A marker of the end is part of the report, and leads out of it. -/
theorem reads_outputEnd : ∀ t ∈ outputEnds, test.Reads "output" t (.extends []) [] "default" := by
  intro t ht
  rcases List.mem_pair.1 ht with rfl | rfl
  · exact reads_of_select (by decide +kernel)
  · exact reads_of_select (by decide +kernel)

/-- What a part of a line would write into the report is only collected from finished lines. -/
theorem reads_output (hline : '\n' ∉ t) (hmarker : t ∉ outputMarkers) :
    ∃ collected captured after, test.Reads "output" t (.extends collected) captured after ∧
      ∀ d : Draft, d.absorb collected captured = d := by
  by_cases hend : t ∈ outputEnds
  · exact ⟨_, _, _, reads_outputEnd t hend, fun d => rfl⟩
  · exact ⟨_, _, _, reads_outputLine hline hmarker hend, fun d => rfl⟩

/-! ## The report -/

/-- One more line of a message. -/
theorem joinWith_line (lines : List Text) (first t : Text) :
    Text.joinWith ['\n'] (first :: lines) ++ '\n' :: t = Text.joinWith ['\n'] (first :: (lines ++ [t])) := by
  rw [← List.cons_append, Text.joinWith_concat (List.cons_ne_nil first lines), List.append_assoc]
  rfl

/-- One more line of what is printed. -/
theorem extended_outputSaying (marker : Text) (lines : List Text) (t : Text) :
    (outputSaying (Text.joinWith ['\n'] (marker :: lines)) lines).extended ["output"] [("output", t)] t =
      outputSaying (Text.joinWith ['\n'] (marker :: (lines ++ [t]))) (lines ++ [t]) := by
  rw [← joinWith_line]
  cases lines with
  | nil => rfl
  | cons first lines =>
    rw [List.cons_append, outputSaying, outputSaying, ← joinWith_line lines]
    rfl

/-- The marker of the end is the last line of the report. -/
theorem extended_outputEnd (marker : Text) (lines : List Text) :
    (outputSaying (Text.joinWith ['\n'] (marker :: lines)) lines).extended [] [] outputEnd =
      outputDraft marker lines := by
  rw [outputDraft, ← joinWith_line]
  rfl

/-! ## Bursts -/

/-- A part of a line that does not begin with a marker is none. -/
theorem not_mem_of_begun {begun : Text} (hmarker : ∀ m ∈ outputMarkers, ¬ m <+: t) (hbegun : begun <+: t) :
    begun ∉ outputMarkers :=
  fun hmem => hmarker begun hmem hbegun

variable {done : List Line} {b : Burst} {d : Draft}

/-- **Parts of a line change nothing in the report.** -/
theorem tellsFrom_outputParts (h : test.TellsFrom (·.IsOf .output) "default" done d "output")
    (hkind : d.IsOf .output) (hb : b.IsOf stream t) (hline : '\n' ∉ t) (hesc : Text.esc ∉ t)
    (hmarker : ∀ m ∈ outputMarkers, ¬ m <+: t) :
    test.TellsFrom (·.IsOf .output) "default" (done ++ b.parts) d "output" := by
  refine h.pass hkind fun l hl => ?_
  obtain ⟨begun, rfl, hbegun⟩ := hb.parts l hl
  rw [Line.said_of_not_mem fun hmem => hesc (hbegun.subset hmem)]
  obtain ⟨collected, captured, after, hreads, hkept⟩ :=
    reads_output (fun hmem => hline (hbegun.subset hmem)) (not_mem_of_begun hmarker hbegun)
  exact ⟨rfl, collected, captured, after, hreads, hkept d⟩

/-- **What is printed goes into the report, line by line.** -/
theorem tellsFrom_outputLines {texts : List Text} {bursts : List Burst}
    (h : test.TellsFrom (·.IsOf .output) "default" done
      (outputSaying (Text.joinWith ['\n'] (marker :: lines)) lines) "output")
    (hbursts : List.Forall₂ (Burst.IsOf stream) texts bursts) (htexts : ∀ t ∈ texts, OutputLine t) :
    test.TellsFrom (·.IsOf .output) "default" (done ++ bursts.flatMap Burst.lines)
      (outputSaying (Text.joinWith ['\n'] (marker :: (lines ++ texts))) (lines ++ texts)) "output" := by
  induction hbursts generalizing done lines with
  | nil => simpa using h
  | @cons t b texts bursts hb _ ih =>
    obtain ⟨ht, htexts⟩ := List.forall_mem_cons.1 htexts
    have hparts := tellsFrom_outputParts h (isOf_outputSaying _ _) hb ht.newline ht.escape ht.marker
    have hsaid : b.line.said = t := by
      rw [hb.line, Line.said_of_not_mem ht.escape]
    have hreads : test.Reads "output" b.line.said (.extends ["output"]) [("output", t)] "output" := by
      rw [hsaid]
      exact reads_outputLine ht.newline (not_mem_of_begun ht.marker (List.prefix_refl t)) ht.ends
    have hone := hparts.extend (by rw [hb.line]) hreads (by rw [hsaid, extended_outputSaying]; rfl)
    rw [hsaid, extended_outputSaying] at hone
    have hall := ih hone htexts
    rwa [List.append_assoc, List.append_assoc, List.append_assoc, ← List.append_assoc b.parts] at hall

/-- Whatever the parts of a marker open is of the same kind. -/
theorem output_of_begun (hmarker : marker ∈ outputMarkers) {begun : Text} (hbegun : begun <+: marker)
    {kind : Kind} {captured : List (String × Text)} {after : String}
    (hreads : test.Reads "default" begun (.opens kind) captured after) : kind = .output := by
  have hall : ∀ m ∈ outputMarkers, ∀ b ∈ m.inits,
      (test.select "default" b).bind (·.rule.report?) ∈ [none, some Kind.output] := by
    decide +kernel
  obtain ⟨s, hs, he, -⟩ := hreads
  have hone := hall marker hmarker begun ((List.mem_inits _ _).2 hbegun)
  rw [hs, Option.bind_some, Rule.report?, he] at hone
  simpa using hone

/-- **The marker opens the report**, whatever parts of it came before. -/
theorem tellsFrom_outputMarker (hmarker : marker ∈ outputMarkers) (hb : b.IsOf stream marker) :
    test.TellsFrom (·.IsOf .output) "default" b.lines (outputSaying marker []) "output" := by
  have hesc : Text.esc ∉ marker := by
    rcases List.mem_pair.1 hmarker with rfl | rfl <;> decide
  have hsaid : b.line.said = marker := by
    rw [hb.line, Line.said_of_not_mem hesc]
  have hreads := reads_outputMarker marker hmarker
  rw [← hsaid] at hreads ⊢
  refine tellsFrom_burst idle_test (fun l hl => ?_) (fun l hl kind captured after hpart => ?_)
    (by rw [hb.line]) hreads (Draft.get?_opened_kind ..)
  · obtain ⟨begun, rfl, -⟩ := hb.parts l hl
    rfl
  · obtain ⟨begun, rfl, hbegun⟩ := hb.parts l hl
    rw [Line.said_of_not_mem fun hmem => hesc (hbegun.subset hmem)] at hpart ⊢
    rw [output_of_begun hmarker hbegun hpart]
    exact Draft.get?_opened_kind ..

/-- What is related to a list with a first and a last element has a first and a last element. -/
theorem exists_between_of_forall₂ {α β : Type} {R : α → β → Prop} {a z : α} {between : List α} {bs : List β}
    (h : List.Forall₂ R (a :: (between ++ [z])) bs) :
    ∃ first inside last, bs = first :: (inside ++ [last]) ∧ R a first ∧ List.Forall₂ R between inside ∧ R z last := by
  obtain ⟨first, rest, hfirst, hrest, rfl⟩ := List.forall₂_cons_left_iff.1 h
  have hinside := List.forall₂_take between.length hrest
  have hlast := List.forall₂_drop between.length hrest
  rw [List.take_left] at hinside
  rw [List.drop_left] at hlast
  obtain ⟨last, none, hlast, hnone, hdrop⟩ := List.forall₂_cons_left_iff.1 hlast
  cases hnone
  refine ⟨first, rest.take between.length, last, ?_, hfirst, hinside, hlast⟩
  rw [← hdrop, List.take_append_drop]

/-- **What a test prints is one report, verbatim.** When a marker, lines that a test may print, and the marker of
the end are read from a stream, wherever its chunks end, one report is given out as finished: it says the markers
and the lines, and has the lines as its output if there are any. Whatever else is given out is a report of the
same kind as far as it has come; no line is left over. -/
theorem readAll_output (hmarker : marker ∈ outputMarkers) (hlines : ∀ t ∈ lines, OutputLine t) (stream : Stream)
    {chunks : List Bytes}
    (hbytes : chunks.flatten = Utf8.encode (Text.unlines (marker :: (lines ++ [outputEnd])))) :
    let outcomes := (({ grammar := test } : Reader).readAll (({ stream } : Splitter).read chunks)).1
    outcomes.filterMap Outcome.settled? = [outputDraft marker lines] ∧
      ∀ o ∈ outcomes, o = .flush (outputDraft marker lines) true ∨
        ∃ d : Draft, d.IsOf .output ∧ o = .flush d false := by
  intro outcomes
  have hend : outputEnd.OneLine ∧ Text.esc ∉ outputEnd ∧ ∀ m ∈ outputMarkers, ¬ m <+: outputEnd := by decide
  have hone : ∀ t ∈ marker :: (lines ++ [outputEnd]), t.OneLine := by
    rw [List.forall_mem_cons, List.forall_mem_append, List.forall_mem_singleton]
    refine ⟨?_, fun t ht => ⟨(hlines t ht).newline, ?_⟩, hend.1⟩
    · rcases List.mem_pair.1 hmarker with rfl | rfl <;> decide
    · exact fun hlast => (hlines t ht).carriage (List.mem_of_getLast? hlast)
  obtain ⟨first, inside, last, hbursts, hfirst, hinside, hlast⟩ :=
    exists_between_of_forall₂ (Splitter.bursts_read stream hone hbytes)
  have hread : ({ stream } : Splitter).read chunks =
      first.lines ++ inside.flatMap Burst.lines ++ last.parts ++ [last.line] := by
    rw [← Splitter.lines_bursts, hbursts]
    simp [Burst.lines]
  -- one report is told by all of them
  have hopened := tellsFrom_outputMarker hmarker hfirst
  have hprinted : test.TellsFrom (·.IsOf .output) "default" _
      (outputSaying (Text.joinWith ['\n'] (marker :: ([] ++ lines))) ([] ++ lines)) "output" :=
    tellsFrom_outputLines hopened hinside hlines
  have hparts := tellsFrom_outputParts hprinted (isOf_outputSaying _ _) hlast hend.1.newline hend.2.1 hend.2.2
  have hsaid : last.line.said = outputEnd := by
    rw [hlast.line, Line.said_of_not_mem hend.2.1]
  have hclosing : test.Reads "output" last.line.said (.extends []) [] "default" :=
    hsaid ▸ reads_outputEnd outputEnd (by decide)
  have hdraft : Draft.extended (outputSaying (Text.joinWith ['\n'] (marker :: lines)) lines) [] []
      last.line.said = outputDraft marker lines := by
    rw [hsaid, extended_outputEnd]
  have htells := hparts.extend (by rw [hlast.line]) hclosing (by rw [List.nil_append, hdraft]; rfl)
  rw [List.nil_append, hdraft, ← hread] at htells
  obtain ⟨hsettled, hall⟩ := (Recounts.single htells).readAll { grammar := test } rfl rfl
  refine ⟨hsettled, fun o ho => ?_⟩
  rcases hall o ho with ho | ⟨d, hd, rfl⟩ | hpart
  · cases ho
  · exact .inl (by rw [List.mem_singleton.1 hd])
  · exact .inr hpart

/-- Output that looks like a result, like nothing and like the end, and a chunk that stops where it looks like the
end. -/
theorem readAll_output_lookalike :
    let marker : Text := "------- output -------".toList
    let lines : List Text := ["a ... FAILED (1ms)", "", "----- output end ------"].map String.toList
    let chunks : List Bytes := [marker ++ "\na ... FAILED (1ms)\n\n----- output end -----".toList,
      "-\n----- output end -----\n".toList].map Utf8.encode
    let outcomes := (({ grammar := test } : Reader).readAll (({ stream := .stdout } : Splitter).read chunks)).1
    marker ∈ outputMarkers ∧ (∀ t ∈ lines, OutputLine t) ∧
      outcomes.filterMap Outcome.settled? = [[("kind", "output".toList),
        ("message",
          "------- output -------\na ... FAILED (1ms)\n\n----- output end ------\n----- output end -----".toList),
        ("output", "a ... FAILED (1ms)\n\n----- output end ------".toList)]] := by
  intro marker lines chunks outcomes
  have hmarker : marker ∈ outputMarkers := by decide
  have hlines : ∀ t ∈ lines, OutputLine t := by decide
  have hbytes : chunks.flatten = Utf8.encode (Text.unlines (marker :: (lines ++ [outputEnd]))) := by
    decide +kernel
  exact ⟨hmarker, hlines, (readAll_output hmarker hlines .stdout hbytes).1⟩

end Grammar

end Fenceline
