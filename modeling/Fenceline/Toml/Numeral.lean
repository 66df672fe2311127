import Fenceline.Config.Setting
import Fenceline.Pattern.Match
import Fenceline.Toml.Quoted

/-!
# Numbers, dates and times of TOML

Numbers are read by their shape: whole numbers in four bases, and decimals. A date has to be one of the
calendar. Between two digits there may be an underscore.
-/

namespace Fenceline.Toml

open Pattern

/-! ## Shapes -/

/-- One character of a text. -/
def among (s : String) : Pattern :=
  one (s.toList.contains ·)

/-- One digit. -/
def digit : Pattern :=
  one Char.isDigit

/-- A given number of digits. -/
def digitsOf (n : Nat) : Pattern :=
  all (List.replicate n digit)

/-- At least one piece, underscores allowed between two of them. -/
def spaced (p : Pattern) : Pattern :=
  seq p (star (seq (maybe "_") p))

/-- A whole number in a base of its own. -/
def based (mark : String) (name : String) (p : Pattern) : Pattern :=
  seq (lit mark) (group name (spaced p))

/-- A sign or nothing. -/
def sign : Pattern :=
  opt (among "+-")

/-- The digits of a whole number, which begin with a zero only if that is all. -/
def wholePart : Pattern :=
  alt (lit "0") (seq (among "123456789") (star (seq (maybe "_") digit)))

/-- A whole number or a decimal. -/
def number : Pattern :=
  anyOf
    (seq (lit "0")
      (anyOf (based "x" "hexadecimal" (one fun c => (Quoted.hexDigit? c).isSome))
        [based "b" "binary" (among "01"), based "o" "octal" (among "01234567")]))
    [all [group "sign" sign, group "whole" wholePart,
      opt (seq (lit ".") (group "fraction" (spaced digit))),
      opt (seq (among "eE") (group "exponent" (seq sign (spaced digit))))]]

/-- A number of two digits whose first is below a given one, or is that and followed by another. -/
def twoDigits (below first then_ : String) : Pattern :=
  alt (seq (among below) digit) (seq (lit first) (among then_))

/-- A time of the day. -/
def time : Pattern :=
  all [twoDigits "01" "2" "0123", lit ":", among "012345", digit, lit ":", among "012345", digit,
    opt (seq (lit ".") (some1 .greedy Char.isDigit))]

/-- What says which zone a time is of. -/
def zone : Pattern :=
  alt (among "Zz")
    (all [among "+-", twoDigits "01" "2" "0123", lit ":", among "012345", digit])

/-- A date, and perhaps a time of that day. -/
def date : Pattern :=
  all [group "year" (digitsOf 4), lit "-",
    group "month" (alt (seq (lit "0") (among "123456789")) (seq (lit "1") (among "012"))), lit "-",
    group "day"
      (anyOf (seq (lit "0") (among "123456789"))
        [seq (among "12") digit, seq (lit "3") (among "01")]),
    opt (all [among "Tt ", time, opt zone])]

/-! ## Values -/

/-- The value of digits in a base. -/
def valueIn (base : Nat) (digits : Text) : Nat :=
  digits.foldl (fun value c => ((Quoted.hexDigit? c).map (value * base + ·)).getD value) 0

/-- The digits of a spelled number. -/
def digitsIn (t : Text) : Text :=
  t.filter (· != '_')

/-- A number with its sign. -/
def signed (sign : Text) (n : Nat) : Int :=
  if sign = ['-'] then -n else n

/-- The number that a sign and digits stand for. -/
def readSigned : Text → Int
  | '-' :: r => -valueIn 10 r
  | '+' :: r => valueIn 10 r
  | t => valueIn 10 t

/-- The value of a number. -/
def valueOf (m : Match) : Except Fault Setting :=
  match m.get? "hexadecimal", m.get? "binary", m.get? "octal" with
  | some t, _, _ => .ok (.int (valueIn 16 t))
  | none, some t, _ => .ok (.int (valueIn 2 t))
  | none, none, some t => .ok (.int (valueIn 8 t))
  | none, none, none =>
    let whole := digitsIn (m.get "whole")
    let sign := m.get "sign"
    match m.get? "fraction", m.get? "exponent" with
    | none, none =>
      if whole.length ≤ Text.maxDigits then .ok (.int (signed sign (valueIn 10 whole)))
      else .error (.longNumeral whole.length)
    | fraction, exponent =>
      let fraction := digitsIn (fraction.getD [])
      let exponent := readSigned (exponent.getD [])
      .ok (.decimal (sign == ['-']) (valueIn 10 (whole ++ fraction)) (exponent - fraction.length))

/-- Whether a year has a 29th of February. -/
def isLeap (year : Nat) : Bool :=
  (year % 4 == 0 && year % 100 != 0) || year % 400 == 0

/-- The number of days of a month. -/
def days (year month : Nat) : Nat :=
  if month = 2 then if isLeap year then 29 else 28
  else if month = 4 ∨ month = 6 ∨ month = 9 ∨ month = 11 then 30
  else 31

/-- Whether a date is one of the calendar. -/
def isCalendarDate (m : Match) : Bool :=
  let year := valueIn 10 (m.get "year")
  year != 0 && decide (valueIn 10 (m.get "day") ≤ days year (valueIn 10 (m.get "month")))

/-- Infinity, and the number that is none. -/
def special : Pattern :=
  seq (group "sign" sign) (alt (lit "inf") (group "nan" (lit "nan")))

/-- A number, a date or a time. -/
def numeral (t : Text) : Except Fault (Setting × Text) :=
  match date.matchStart t, time.matchStart t, number.matchStart t, special.matchStart t with
  | some m, _, _, _ => if isCalendarDate m then .ok (.other m.text, m.rest) else .error .malformed
  | none, some m, _, _ => .ok (.other m.text, m.rest)
  | none, none, some m, _ => (valueOf m).map (·, m.rest)
  | none, none, none, some m =>
    .ok (if (m.get? "nan").isSome then .nan else .infinity (m.get "sign" == ['-']), m.rest)
  | none, none, none, none => .error .malformed

end Fenceline.Toml
