import Fenceline.Text.Basic

/-!
# Addresses in brackets

The hosts that may stand between brackets in a URL: addresses of the sixth version, which may end in
one of the fourth, and marked addresses of versions to come.
-/

namespace Fenceline.Address

/-- A hexadecimal digit of ASCII. -/
def isHexDigit (c : Char) : Bool :=
  c.isDigit || (decide ('a' ≤ c) && decide (c ≤ 'f')) || (decide ('A' ≤ c) && decide (c ≤ 'F'))

/-- A number from 0 to 255 without leading zeros. -/
def isOctet (t : Text) : Bool :=
  t.all Char.isDigit && decide (1 ≤ t.length) && decide (t.length ≤ 3) &&
    (t.length == 1 || t.head? != some '0') &&
    decide (t.foldl (fun n c => 10 * n + (c.toNat - 0x30)) 0 ≤ 255)

/-- An address of the fourth version: four octets. -/
def isFourth (t : Text) : Bool :=
  let octets := t.cutAt '.'
  octets.length == 4 && octets.all isOctet

/-- A group of an address of the sixth version: one to four hexadecimal digits. -/
def isGroup (t : Text) : Bool :=
  t.all isHexDigit && decide (1 ≤ t.length) && decide (t.length ≤ 4)

/-- Groups that stand for those that an address of the fourth version at the end is written with. -/
def unfoldFourth (groups : List Text) : Option (List Text) :=
  match groups.getLast? with
  | some last =>
    if last.contains '.' then
      if isFourth last then some (groups.dropLast ++ [['0'], ['0']]) else none
    else some groups
  | none => some groups

/-- The places of the empty groups that are neither the first nor the last. -/
def gaps (groups : List Text) : List Nat :=
  (List.range groups.length).filter fun i =>
    decide (0 < i) && decide (i + 1 < groups.length) && groups[i]? == some []

/-- The groups on one side of a gap; a colon at the very beginning or end is a part of the gap. -/
def beside (groups : List Text) : List Text :=
  if groups == [[]] then [] else groups

/-- Whether groups between colons are an address: eight of them, or fewer with one gap. -/
def areGroups (groups : List Text) : Bool :=
  match gaps groups with
  | [] => groups.length == 8 && groups.all isGroup
  | [gap] =>
    let before := beside (groups.take gap)
    let after := beside (groups.drop (gap + 1))
    before.all isGroup && after.all isGroup && decide (before.length + after.length < 8)
  | _ => false

/-- An address of the sixth version, a zone behind a percent sign allowed. -/
def isSixth (t : Text) : Bool :=
  let address := t.takeWhile (· != '%')
  let zone := t.dropWhile (· != '%')
  let zoned := zone.isEmpty || (decide (2 ≤ zone.length) && !(zone.drop 1).contains '%')
  let groups := Text.cutAt ':' address
  zoned && decide (3 ≤ groups.length) &&
    match unfoldFourth groups with
    | some groups => decide (groups.length ≤ 9) && areGroups groups
    | none => false

/-- An address of a version to come: `v`, the version in hexadecimal digits, a dot, the address. -/
def isFuture (t : Text) : Bool :=
  match t with
  | 'v' :: r =>
    let version := r.takeWhile isHexDigit
    match r.dropWhile isHexDigit with
    | '.' :: rest => !version.isEmpty && !rest.isEmpty && !rest.contains '\n'
    | _ => false
  | _ => false

end Fenceline.Address
