import Fenceline.Failure
import Fenceline.Location.Address
import Fenceline.Utf8

/-!
# File URLs

The path that a `file://` URL leads to: tabs and line ends left out, the authority dropped, the query
and the fragment cut off, percent escapes read as UTF-8. Other values are paths already.

**The law.** `path_of_not_url`: a value that is no file URL is left as it is.
-/

namespace Fenceline.FileUrl

/-- How a file URL begins. -/
def scheme : Text :=
  "file://".toList

/-- The value of a hexadecimal digit. -/
def hexValue? (c : Char) : Option UInt8 :=
  let n := c.toNat
  if c.isDigit then some (UInt8.ofNat (n - 0x30))
  else if 'a' ≤ c ∧ c ≤ 'f' then some (UInt8.ofNat (n - 0x61 + 10))
  else if 'A' ≤ c ∧ c ≤ 'F' then some (UInt8.ofNat (n - 0x41 + 10))
  else none

/-- The bytes of an ASCII text, percent escapes read. -/
def escapedBytes : Text → Bytes
  | [] => []
  | c :: r =>
    match c, r with
    | '%', a :: b :: r' =>
      match hexValue? a, hexValue? b with
      | some x, some y => (16 * x + y) :: escapedBytes r'
      | _, _ => 0x25 :: escapedBytes (a :: b :: r')
    | c, r => UInt8.ofNat c.toNat :: escapedBytes r

/-- A text with its percent escapes read, each run of ASCII characters by itself. `run` is the run
before the text, its last character first. -/
def unescapeFrom (run : Text) : Text → Text
  | [] => Utf8.decodeLossy (escapedBytes run.reverse)
  | c :: r =>
    if c.toNat < 0x80 then unescapeFrom (c :: run) r
    else Utf8.decodeLossy (escapedBytes run.reverse) ++ c :: unescapeFrom [] r

/-- A text with its percent escapes read. -/
def unescape (t : Text) : Text :=
  unescapeFrom [] t

/-- Characters that stand for one of `/`, `?`, `#`, `@` and `:` in another form. -/
def hiddenDelimiters : List Char := [
  '\u2047', '\u2048', '\u2049', '\u2100', '\u2101', '\u2105', '\u2106', '\u2A74', '\uFE13', '\uFE16',
  '\uFE55', '\uFE56', '\uFE5F', '\uFE6B', '\uFF03', '\uFF0F', '\uFF1A', '\uFF1F', '\uFF20']

/-- The host and the port of an authority: what stands behind the name of the user. -/
def hostAndPort (authority : Text) : Text :=
  ((authority.cutAt '@').getLast?).getD []

/-- The host before its port: what is between brackets if it begins with one. Nothing may stand beside
the brackets but a colon and what follows it. -/
def hostOf (place : Text) : Except UrlFault Text :=
  if place.contains '[' then
    let inner := (place.dropWhile (· != '[')).drop 1
    match place.head?, (inner.dropWhile (· != ']')).drop 1 with
    | some '[', [] | some '[', ':' :: _ => .ok (inner.takeWhile (· != ']'))
    | _, _ => .error .besideBrackets
  else .ok (place.takeWhile (· != ':'))

/-- What is wrong with a host that has to be an address, if something is. -/
def hostFault? (host : Text) : Option UrlFault :=
  if host.head? = some 'v' then if Address.isFuture host then none else some .futureVersion
  else if Address.isFourth host then some .fourthVersion
  else if Address.isSixth host then none
  else some (.notAnAddress host)

/-- What is wrong with the brackets of an authority, if something is. Where there are some, even in the
name of the user, the host has to be an address. -/
def bracketFault? (authority : Text) : Option UrlFault :=
  match authority.contains '[', authority.contains ']' with
  | false, false => none
  | true, true =>
    match hostOf (hostAndPort authority) with
    | .ok host => hostFault? host
    | .error fault => some fault
  | _, _ => some .unbalancedBrackets

/-- What is wrong with an authority, if something is. -/
def authorityFault? (authority : Text) : Option UrlFault :=
  match bracketFault? authority with
  | some fault => some fault
  | none =>
    if authority.any hiddenDelimiters.contains then some (.hiddenDelimiter authority) else none

/-- A character that ends an authority. -/
def endsAuthority (c : Char) : Bool :=
  c == '/' || c == '?' || c == '#'

/-- The path of a file URL whose beginning has been read. -/
def pathBehindScheme (t : Text) : Except Failure Text :=
  let url := t.filter fun c => c != '\t' && c != '\r' && c != '\n'
  match authorityFault? (url.takeWhile (!endsAuthority ·)) with
  | some fault => .error (.badUrl fault)
  | none =>
    let path := url.dropWhile (!endsAuthority ·)
    .ok (unescape ((path.takeWhile (· != '#')).takeWhile (· != '?')))

/-- The path that a value leads to. -/
def path (value : Text) : Except Failure Text :=
  match Text.cutPrefix? scheme value with
  | some rest => pathBehindScheme rest
  | none => .ok value

/-- **A value that is no file URL is a path.** -/
theorem path_of_not_url {value : Text} (h : ¬ scheme <+: value) : path value = .ok value := by
  unfold path
  split
  · rename_i rest hr
    rw [Text.cutPrefix?_eq_some_iff] at hr
    exact absurd ⟨rest, hr.symm⟩ h
  · rfl

end Fenceline.FileUrl
