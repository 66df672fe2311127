import Fenceline.Proofs.Grammar.Conservation
import Fenceline.Proofs.Text.Coloured
import Mathlib.Data.List.Forall2

/-!
# Colours are not seen

A reader looks at its lines without their escape sequences, so lines that say the same but for their colours
(`Line.Coloured`) are the same to it, in every state and under every grammar (`feed_coloured`).

**The law** (`feedAll_coloured`): colours change nothing that a run gives out, whatever its grammar and wherever it
stands, and nothing of the reader that it leaves.
-/

namespace Fenceline

/-- **A line and the same line in colours.** -/
structure Line.Coloured (line coloured : Line) : Prop where
  stream : coloured.stream = line.stream
  final : coloured.final = line.final
  text : Text.Coloured line.text coloured.text

namespace Reader

open Text

variable {line coloured : Line} {lines others : List Line}

/-- A reader sees no colours. -/
theorem feed_coloured (h : line.Coloured coloured) (r : Reader) : r.feed coloured = r.feed line := by
  have hreject : ∀ text, reject coloured text = reject line text := fun text => by
    rw [reject, reject, h.stream, h.final]
  have hadvance : ∀ rule pending, r.advance rule coloured pending = r.advance rule line pending := fun rule pending => by
    rw [advance, advance, h.final]
  simp only [feed, h.text.stripEscapes_eq, hreject, hadvance, h.final]

/-- **Nor does a run.** -/
theorem feedAll_coloured (h : List.Forall₂ Line.Coloured lines others) (r : Reader) :
    r.feedAll others = r.feedAll lines := by
  induction h generalizing r with
  | nil => rfl
  | cons hline _ ih => simp only [feedAll, feed_coloured hline, ih]

/-- **Colours are not seen.** The texts that are a plain text without their escape sequences are just the text in
colours; and lines in colours give what the lines themselves give: the same reports and the same lines that no rule
accounts for, with the same reader behind each line, and the same in the end. -/
theorem readAll_coloured :
    (∀ t u : Text, esc ∉ t → (stripEscapes u = t ↔ Text.Coloured t u)) ∧
      ∀ (r : Reader) (lines others : List Line), List.Forall₂ Line.Coloured lines others →
        (∀ n, r.feedAll (others.take n) = r.feedAll (lines.take n)) ∧ r.readAll others = r.readAll lines := by
  refine ⟨fun t u ht => stripEscapes_eq_iff ht, fun r lines others h => ⟨fun n => ?_, ?_⟩⟩
  · exact feedAll_coloured (List.forall₂_take n h) r
  · rw [readAll, readAll, feedAll_coloured h]

/-- An error of a check with colours, a link and a title in its first line. -/
theorem readAll_coloured_check :
    let red : Text := esc :: '[' :: ("1;31".toList ++ ([] ++ ['m']))
    let link : Text := esc :: ']' :: ("8;;file:///m.ts".toList ++ [esc, '\\'])
    let title : Text := esc :: ']' :: ("0;check".toList ++ [bel])
    let plain : Text := "TS2322 ".toList ++ ("[ERROR]: bad".toList ++ [])
    let coloured : Text := red ++ ("TS2322 ".toList ++ (link ++ ("[ERROR]: bad".toList ++ (title ++ (red ++ [])))))
    let second : Line := ⟨.stderr, "    at file:///m.ts:1:2".toList, true⟩
    let lines : List Line := [⟨.stderr, plain, true⟩, second]
    let others : List Line := [⟨.stderr, coloured, true⟩, second]
    let r : Reader := { grammar := Grammar.check }
    esc ∉ plain ∧ stripEscapes coloured = plain ∧ List.Forall₂ Line.Coloured lines others ∧
      (r.feedAll (others.take 1)).2.state = "check" ∧
      messages (r.readAll others).1 = [some "TS2322 [ERROR]: bad\n    at file:///m.ts:1:2".toList] := by
  intro red link title plain coloured second lines others r
  have hred : IsSequence red :=
    .control (List.all_eq_true.1 (by decide)) (List.forall_mem_nil _) (by decide)
  have hcommand : ∀ words : Text, (words.all fun x => x != bel && x != esc) = true → ∀ x ∈ words, x ≠ bel ∧ x ≠ esc :=
    fun words h x hx => by simpa using List.all_eq_true.1 h x hx
  have hlink : IsSequence link := .command (hcommand _ (by decide)) (.inr rfl)
  have htitle : IsSequence title := .command (hcommand _ (by decide)) (.inl rfl)
  have hcoloured : Text.Coloured plain coloured :=
    .put hred (.append_plain (by decide) (.put hlink (.append_plain (by decide) (.put htitle (.put hred .nil)))))
  have hplain : esc ∉ plain := by decide
  have hlines : List.Forall₂ Line.Coloured lines others :=
    .cons ⟨rfl, rfl, hcoloured⟩ (.cons ⟨rfl, rfl, .refl _⟩ .nil)
  obtain ⟨hstrip, hrun⟩ := readAll_coloured
  obtain ⟨hstages, hall⟩ := hrun r lines others hlines
  refine ⟨hplain, (hstrip plain coloured hplain).2 hcoloured, hlines, ?_, ?_⟩
  · rw [hstages 1]
    decide +kernel
  · rw [hall]
    decide +kernel

end Reader

end Fenceline
