import Fenceline.Failure
import Fenceline.Pattern.Match
import Fenceline.Sample.Basic

/-!
# References to samples

A reference is a document's path with the mark of a sample's lines behind it, `$first-last`, and
perhaps an extension: the toolchain names code inside documents so, and so do the names of sample
files. Three patterns read it back: at the end of a path, as a whole path, and inside of a message with
a line and a column behind it.
-/

namespace Fenceline.Reference

open Pattern

/-- An extension behind a mark, or nothing. -/
def extension : Pattern :=
  opt (seq (lit ".") word)

/-- The mark of a sample's lines with its numbers named. -/
def marked : List Pattern :=
  [lit "$", group "start" digits, lit "-", group "end" digits, extension]

/-- The mark of a sample's lines at the end of a path. -/
def suffix : Pattern :=
  all [lit "$", digits, lit "-", digits, extension, atEnd]

/-- A path that is a reference. -/
def whole : Pattern :=
  all (atStart :: group "file" something :: marked ++ [atEnd])

/-- As little as possible up to the next blank. -/
def upToBlank : Pattern :=
  many .lazy notBlank

/-- A character that a number in a message does not begin behind. -/
def bindsNumber (c : Char) : Bool :=
  c.isDigit || c == '['

/-- A number that is read from its first digit. -/
def number (name : String) : Pattern :=
  seq (notAfter bindsNumber) (group name digits)

/-- A path that says where it begins, up to a blank or a dollar sign. -/
def rooted : Pattern :=
  seq (anyOf (lit "/") [lit "./", lit "../"]) (many .lazy fun c => notBlank c && c != '$')

/-- A reference in a message, with the line and the column behind it and what stands between them. -/
def embedded : Pattern :=
  all (group "url" (seq (maybe "file://") (group "file" rooted)) :: marked ++
    [group "a1" upToBlank, lit ":", group "a2" upToBlank, number "line", group "a3" upToBlank,
      lit ":", group "a4" upToBlank, number "column"])

/-- The number that a run of digits stands for. -/
def readNumber (t : Text) : Except Failure Nat :=
  if t.length ≤ Text.maxDigits then .ok (Text.valueOfDigits t) else .error (.longNumeral t.length)

/-- The digits of a number. -/
def writeNumber (n : Int) : Except Failure Text :=
  let t := Text.ofInt n
  if (Text.ofNat n.natAbs).length ≤ Text.maxDigits then .ok t else .error .longNumber

/-- A path without the mark of a sample's lines at its end. -/
def unmarked (t : Text) : Text :=
  suffix.substitute (fun _ => []) t

end Fenceline.Reference
