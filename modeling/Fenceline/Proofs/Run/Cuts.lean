import Fenceline.Proofs.Grammar.Fragments
import Fenceline.Proofs.Run.Filing

/-!
# What comes of a stream does not depend on how it was cut

A stream is written in one piece and read in chunks, and where it is cut depends on the moment. The cuts
show as parts of lines. If these are harmless, the ledger and the reader at the end of the stream are
those of its finished lines, and with them those of its bytes.

**The law** (`takeStream_cut`): two quiet cuts of the same bytes come to the same ledger and the same
reader, and neither fails; and a cut is quiet exactly if, up to every finished line, it gives out what the
finished lines alone give out and leaves the reader where they leave it.

**What it does not establish.** Not every cut is quiet. A summary of an error that is cut off before the
line goes on opens a report of its own, and the location below it is lost for the error
(`takeStream_cut_check`).
-/

namespace Fenceline

namespace Ledger

/-- Only what lasts is filed. -/
theorem foldl_filed_lasting (watch : Watch) (outcomes : List Outcome) (l : Ledger) :
    outcomes.foldl (filed watch) l = (Reader.lasting outcomes).foldl (filed watch) l := by
  induction outcomes generalizing l with
  | nil => rfl
  | cons o outcomes ih =>
    have hsplit : Reader.lasting (o :: outcomes) =
        if o.shown?.isNone then o :: Reader.lasting outcomes else Reader.lasting outcomes :=
      List.filter_cons
    rw [List.foldl_cons, ih, hsplit]
    cases hlasts : o.shown?.isNone with
    | true => rfl
    | false =>
      rw [filed_of_not_lasting hlasts]
      rfl

end Ledger

namespace Reader

/-- A whole output lasts as its finished lines do if its bursts are harmless. -/
theorem readAll_of_quiet {r : Reader} {bs : List Burst}
    (hbs : ∀ b ∈ bs, (∀ l ∈ b.parts, l.final = false) ∧ b.line.final = true)
    (hdone : ∀ p ∈ r.pending, p.done = true) (h : r.Quiet bs) :
    lasting (r.readAll (bs.flatMap Burst.lines)).1 = lasting (r.readAll (bs.map (·.line))).1 ∧
      (r.readAll (bs.flatMap Burst.lines)).2 = (r.readAll (bs.map (·.line))).2 := by
  obtain ⟨hout, hreader⟩ := (quiet_iff hbs r hdone).1 h bs.length
  rw [List.take_length] at hout hreader
  simp only [readAll, lasting_append, hout, hreader, and_self]

/-- The chunks of a stream show no part of a line that leaves a trace. -/
def QuietCut (g : Grammar) (stream : Stream) (chunks : List Bytes) : Prop :=
  ({ grammar := g } : Reader).Quiet (Burst.ofLines (({ stream } : Splitter).read chunks))

instance (g : Grammar) (stream : Stream) (chunks : List Bytes) : Decidable (QuietCut g stream chunks) :=
  decidableQuiet _ _

end Reader

namespace Intake

open Reader

/-- The intake after a stream that came in chunks and has ended. -/
def takeStream (i : Intake) (stream : Stream) (chunks : List Bytes) : Intake :=
  (i.feedAll (({ stream } : Splitter).read chunks)).close

/-- **A quiet cut comes to what the finished lines come to.** -/
theorem takeStream_of_quietCut {g : Grammar} (hg : g.SparesHead) {i : Intake}
    (hreader : i.reader = { grammar := g }) (hfailure : i.failure = none) (hresolver : i.resolver = none)
    {stream : Stream} {chunks : List Bytes} (h : QuietCut g stream chunks) :
    let lines := Splitter.finished (({ stream } : Splitter).read chunks)
    ∃ events, i.takeStream stream chunks =
      { i with
        events := events
        reader := (i.reader.readAll lines).2
        ledger := (lasting (i.reader.readAll lines).1).foldl (Ledger.filed i.watch) i.ledger } := by
  intro lines
  have hnone : ∀ p ∈ i.reader.pending, False := by simp [hreader]
  obtain ⟨events, htaken⟩ := close_feedAll_filed (({ stream } : Splitter).read chunks)
    (by rw [hreader]; exact hg.spares_kind) (fun p hp => (hnone p hp).elim) hfailure
    (fun o _ => by rw [hresolver]; exact o.isPlaced_none)
  obtain ⟨hout, hlast⟩ := readAll_of_quiet Burst.final_of_mem_ofLines
    (fun p hp => (hnone p (by rwa [hreader])).elim) h
  rw [Splitter.lines_bursts, Burst.map_line_ofLines (Splitter.final_getLast?_read _ _).1] at hout hlast
  refine ⟨events, ?_⟩
  have hstay : (i.reader.readAll (({ stream } : Splitter).read chunks)).1.map (·.placed i.resolver) =
      (i.reader.readAll (({ stream } : Splitter).read chunks)).1 := by
    simp only [hresolver, Outcome.placed_none, List.map_id']
  rw [takeStream, htaken, hstay, Ledger.foldl_filed_lasting, hreader, hout, hlast]

/-- **Two quiet cuts of the same bytes come to the same**, and quiet are exactly the cuts that last, up to
every finished line, as the finished lines alone do. -/
theorem takeStream_cut {g : Grammar} (hg : g ∈ Grammar.shipped) (watch : Watch) (files : List Text)
    (reporter : Option Reporter) (stream : Stream) :
    let start : Intake :=
      { watch, reader := { grammar := g }, ledger := Ledger.ofFiles files reporter }
    (∀ a b : List Bytes, a.flatten = b.flatten → QuietCut g stream a → QuietCut g stream b →
      (start.takeStream stream a).failure = none ∧ (start.takeStream stream b).failure = none ∧
        (start.takeStream stream a).ledger = (start.takeStream stream b).ledger ∧
        (start.takeStream stream a).reader = (start.takeStream stream b).reader) ∧
      ∀ chunks, QuietCut g stream chunks ↔
        ∀ n, start.reader.Agrees ((Burst.ofLines (({ stream } : Splitter).read chunks)).take n) := by
  intro start
  have hspares := Grammar.sparesHead_of_mem_shipped g hg
  refine ⟨fun a b hbytes ha hb => ?_, fun chunks => ?_⟩
  · have hlines : Splitter.finished (({ stream } : Splitter).read a) =
        Splitter.finished (({ stream } : Splitter).read b) := by
      rw [Splitter.finished_read (Splitter.within_fresh stream),
        Splitter.finished_read (Splitter.within_fresh stream), hbytes]
    obtain ⟨_, hgoesA⟩ := takeStream_of_quietCut hspares (i := start) rfl rfl rfl ha
    obtain ⟨_, hgoesB⟩ := takeStream_of_quietCut hspares (i := start) rfl rfl rfl hb
    rw [hgoesA, hgoesB, hlines]
    exact ⟨rfl, rfl, rfl, rfl⟩
  · exact quiet_iff Burst.final_of_mem_ofLines _ (fun p hp => by cases hp)

/-- An error that is cut within its first line: the part and the line open the same report. -/
theorem takeStream_cut_opening :
    let start : Intake :=
      { reader := { grammar := Grammar.check }
        ledger := Ledger.ofFiles ["mod.ts".toList] (some .diagnostic) }
    let a := ["TS2322 [ERROR]: b", "ad\n"].map fun t => Utf8.encode t.toList
    let b := ["TS2322 [ERROR]: bad\n"].map fun t => Utf8.encode t.toList
    (start.takeStream .stderr a).ledger = (start.takeStream .stderr b).ledger ∧
      (start.takeStream .stderr b).ledger.results.map (·.problems.length) = [0, 1] := by
  intro start a b
  obtain ⟨_, _, hledger, _⟩ := (takeStream_cut (g := Grammar.check) List.mem_cons_self {}
    ["mod.ts".toList] (some .diagnostic) .stderr).1 a b (by decide +kernel) (by decide +kernel) (by decide +kernel)
  exact ⟨hledger, by decide +kernel⟩

/-- The same bytes, and two cuts that do not come to the same: a summary that is cut off before its line
goes on takes the location from the error. -/
theorem takeStream_cut_check :
    let start : Intake :=
      { reader := { grammar := Grammar.check }
        ledger := Ledger.ofFiles ["mod.ts".toList] (some .diagnostic) }
    let a := ["TS2322 [ERROR]: bad\nFound 1 error.", " Retry\n    at file:///mod.ts:1:2\n"].map
      fun t => Utf8.encode t.toList
    let b := ["TS2322 [ERROR]: bad\nFound 1 error. Retry\n    at file:///mod.ts:1:2\n"].map
      fun t => Utf8.encode t.toList
    a.flatten = b.flatten ∧
      (start.takeStream .stderr a).ledger.results ≠ (start.takeStream .stderr b).ledger.results := by
  refine ⟨by decide +kernel, by decide +kernel⟩

end Intake

end Fenceline
