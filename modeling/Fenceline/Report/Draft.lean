import Fenceline.Failure
import Fenceline.Keyed
import Fenceline.Report.Kind

/-!
# Drafts

A draft is a report that is still being put together: texts under names, each name once. What its kind
is and what it says are two of them, and both are needed to make a report of it.

**The law.** `message_eq_ok_iff`: a draft says what stands under the name of the message, and nothing else
makes it say something.
-/

namespace Fenceline

/-- Texts under names. -/
abbrev Draft := Keyed String Text

namespace Draft

/-- Whether there is a text under a name. -/
def has (d : Draft) (name : String) : Bool :=
  (d.get? name).isSome

/-- The text under a name that is needed. -/
def need (d : Draft) (name : String) : Except Failure Text :=
  match d.get? name with
  | some value => .ok value
  | none => .error (.missingField name)

/-- The kind of the report. -/
def kind (d : Draft) : Except Failure Kind := do
  let name ← d.need "kind"
  match Kind.ofText? name with
  | some kind => .ok kind
  | none => .error (.unknownKind name)

/-- What the report says. -/
def message (d : Draft) : Except Failure Text :=
  d.need "message"

/-- The draft with texts under several names. -/
def setAll (d : Draft) (fields : List (String × Text)) : Draft :=
  fields.foldl (fun d f => d.set f.1 f.2) d

/-! ## What a kind and a message are read from -/

theorem kind_of_get? {d : Draft} {kind : Kind} (h : d.get? "kind" = some kind.name.toList) :
    d.kind = .ok kind := by
  refine bind_eq_ok.2 ⟨kind.name.toList, by simp only [need, h], ?_⟩
  rw [Kind.ofText?_name]

theorem message_of_get? {d : Draft} {text : Text} (h : d.get? "message" = some text) :
    d.message = .ok text := by
  simp only [message, need, h]

theorem message_eq_ok_iff {d : Draft} {text : Text} :
    d.message = .ok text ↔ d.get? "message" = some text := by
  unfold message need
  cases d.get? "message" <;> simp

theorem kind_congr {d e : Draft} (h : d.get? "kind" = e.get? "kind") : d.kind = e.kind := by
  simp only [Draft.kind, need, h]

theorem message_set (d : Draft) (text : Text) : Draft.message (d.set "message" text) = .ok text :=
  message_of_get? (Keyed.get?_set_self ..)

end Draft

end Fenceline
