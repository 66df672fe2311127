import Fenceline.Location.Resolver
import Fenceline.Proofs.Pattern.Lines
import Fenceline.Proofs.Text.Numeral
import Fenceline.Proofs.Text.Replace

/-!
# Messages are brought back line by line

The paths of sample files and the references in a message are read by patterns that stay within a line, if
no line feed stands in the directory of the sample files. So no place of a message depends on what its other
lines say.

**The law** (`resolveMessage_joinWith`): what a message becomes are the lines that its lines become, and it
becomes nothing just if one of them does.
-/

namespace Fenceline.Resolver

open Pattern

variable {r : Resolver} {root : Text}

theorem inline_samplePath {sep : Char} (hsep : inSampleName sep = false) (h : sep ∉ root) :
    (samplePath root).Inline sep :=
  ⟨h, hsep, hsep⟩

theorem inline_embedded : Reference.embedded.Inline '\n' := by
  decide

/-- No reference goes on behind a blank. -/
theorem inline_embedded_of_isBlank {x : Char} (h : Text.isBlank x = true) : Reference.embedded.Inline x :=
  Text.forall_isBlank (P := fun x => Reference.embedded.Inline x) (by decide +kernel) h

/-- What stands for a reference depends on its parts only. -/
theorem local_unmark (r : Resolver) (offset : Offset) (current : Option Path) :
    Local (r.unmark offset current) := by
  intro sep tail m m' h
  simp only [unmark, placeOf, h.get]

/-- **Sample files are named on both sides of a character that is none of a path.** -/
theorem nameSamples_append {sep : Char} (hsep : inSampleName sep = false) (h : ∀ root ∈ r.sampleRoot?, sep ∉ root)
    (t u : Text) : r.nameSamples (t ++ sep :: u) = r.nameSamples t ++ sep :: r.nameSamples u := by
  unfold nameSamples
  cases hroot : r.sampleRoot? with
  | none => rfl
  | some root =>
    apply substitute_line (inline_samplePath hsep (h root hroot))
    intro sep tail m m' halike
    rw [halike.text]

/-- **What stands before a separator is brought back whatever stands behind it**, if no name of a sample and no
reference goes on behind it. -/
theorem resolveMessage_append {sep : Char}
    (hnames : ∀ t u, r.nameSamples (t ++ sep :: u) = r.nameSamples t ++ sep :: r.nameSamples u)
    (hsep : Reference.embedded.Inline sep) (offset : Offset) (current : Option Text) (t u : Text) :
    r.resolveMessage (t ++ sep :: u) offset current = do
      let t' ← r.resolveMessage t offset current
      let u' ← r.resolveMessage u offset current
      return t' ++ sep :: u' := by
  simp only [resolveMessage]
  cases current.mapM r.absolute with
  | error e => rfl
  | ok place =>
    show Reference.embedded.substituteM _ _ = _
    rw [hnames]
    exact substituteM_line hsep (local_unmark r offset place) _ _

/-- **A line of a message is brought back whatever the other lines say.** -/
theorem resolveMessage_line (h : ∀ root ∈ r.sampleRoot?, '\n' ∉ root) (offset : Offset)
    (current : Option Text) (t u : Text) :
    r.resolveMessage (t ++ '\n' :: u) offset current = do
      let t' ← r.resolveMessage t offset current
      let u' ← r.resolveMessage u offset current
      return t' ++ '\n' :: u' :=
  resolveMessage_append (nameSamples_append (by decide) h) inline_embedded offset current t u

end Fenceline.Resolver

namespace Fenceline.Text

variable {ε : Type} {f : Text → Except ε Text}

/-- **What is done line by line** is done to every line. -/
theorem joinWith_mapM (hf : ∀ t u, f (t ++ '\n' :: u) = do
      let t' ← f t
      let u' ← f u
      return t' ++ '\n' :: u') {lines : List Text} (hne : lines ≠ []) :
    f (joinWith ['\n'] lines) = do
      let done ← lines.mapM f
      return joinWith ['\n'] done := by
  induction lines with
  | nil => exact absurd rfl hne
  | cons l lines ih =>
    cases lines with
    | nil =>
      rw [List.mapM_cons, List.mapM_nil]
      cases hl : f l with
      | error e => exact hl
      | ok t => exact hl
    | cons m lines =>
      have hrest := ih (List.cons_ne_nil m lines)
      rw [joinWith_cons_cons, List.append_assoc, List.singleton_append, hf, hrest,
        List.mapM_cons (a := l), List.mapM_cons (a := m)]
      cases f l with
      | error e => rfl
      | ok t =>
        cases f m with
        | error e => rfl
        | ok u =>
          cases lines.mapM f with
          | error e => rfl
          | ok rest =>
            show Except.ok (t ++ '\n' :: joinWith ['\n'] (u :: rest)) =
              Except.ok (joinWith ['\n'] (t :: u :: rest))
            rw [joinWith_cons_cons, List.append_assoc, List.singleton_append]

end Fenceline.Text

namespace Fenceline.Resolver

variable {r : Resolver}

/-- **What a message becomes are the lines that its lines become.** -/
theorem resolveMessage_joinWith (h : ∀ root ∈ r.sampleRoot?, '\n' ∉ root) (offset : Offset)
    (current : Option Text) {lines : List Text} (hne : lines ≠ []) :
    r.resolveMessage (Text.joinWith ['\n'] lines) offset current = do
      let done ← lines.mapM fun line => r.resolveMessage line offset current
      return Text.joinWith ['\n'] done :=
  Text.joinWith_mapM (f := fun line => r.resolveMessage line offset current)
    (resolveMessage_line h offset current) hne

end Fenceline.Resolver
