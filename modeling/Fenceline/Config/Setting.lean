import Fenceline.Config.Amount
import Fenceline.Failure
import Fenceline.Keyed

/-!
# Settings as they are written

What a configuration file may say under a name: any value of its format, of which only some are good for
a setting. Numbers are kept exactly as they are written.

**The law.** `at?_append`: following two keys is following the one and then the other.
-/

namespace Fenceline

/-- A value as it is written. -/
inductive Setting where
  | null
  | bool (value : Bool)
  | int (value : Int)
  /-- The digits of a number times a power of ten; zero has a sign, too. -/
  | decimal (negative : Bool) (digits : Nat) (exponent : Int)
  | infinity (negative : Bool)
  | nan
  | text (value : Text)
  /-- A date or a time, as it is spelled. -/
  | other (spelling : Text)
  | list (items : List Setting)
  | table (entries : List (Text × Setting))
  deriving Repr, Inhabited

/-- Values under names. -/
abbrev Table := Keyed Text Setting

namespace Setting

/-- The value that a key leads to. -/
def at? : Setting → List Text → Option Setting
  | v, [] => some v
  | .table entries, name :: key =>
    match Keyed.get? entries name with
    | some v => v.at? key
    | none => none
  | _, _ :: _ => none

/-- **Following two keys is following the one and then the other.** -/
theorem at?_append (v : Setting) (a b : List Text) : v.at? (a ++ b) = (v.at? a).bind (·.at? b) := by
  induction a generalizing v with
  | nil => cases v <;> rfl
  | cons name a ih =>
    cases v with
    | table entries =>
      simp only [List.cons_append, at?]
      split
      · exact ih _
      · rfl
    | _ => rfl

/-- What tells values apart that are no lists and no tables. Numbers are told apart by their amount
alone, and a truth value is the number one or zero. -/
inductive Scalar where
  | null
  | number (amount : Amount)
  | nan
  | text (value : Text)
  | other (spelling : Text)
  deriving DecidableEq, Repr

/-- What tells a value apart, if it is neither a list nor a table. -/
def scalar? : Setting → Option Scalar
  | .null => some .null
  | .bool value => some (.number (.ofInt (if value then 1 else 0)))
  | .int value => some (.number (.ofInt value))
  | .decimal negative digits exponent => some (.number (.ofDecimal negative digits exponent))
  | .infinity negative => some (.number (.infinite negative))
  | .nan => some .nan
  | .text value => some (.text value)
  | .other spelling => some (.other spelling)
  | .list _ | .table _ => none

/-- The values without those that are not told apart from an earlier one; none of them may be a list or
a table. -/
def distinct (items : List Setting) : Except Failure (List Setting) := do
  let scalars ← items.mapM fun v =>
    match v.scalar? with
    | some s => Except.ok (s, v)
    | none => .error .nestedNames
  return (scalars.foldl (fun seen p => if seen.any (·.1 == p.1) then seen else seen ++ [p]) []).map (·.2)

end Setting

end Fenceline
