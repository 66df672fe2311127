import Fenceline.Config.Basic
import Fenceline.Host
import Fenceline.Text.Blank
import Fenceline.Toml.Document

/-!
# Finding the configuration

The settings come from the first table that is met on the way up from a directory. In each directory
two files may hold one; a file that is missing or no TOML is passed over. The environment may name
another executable, and the caller may give any setting.
-/

namespace Fenceline

namespace Config

/-- The files of a directory that may hold a table, each with the tables that are looked for in it. -/
def sources : List (Text × List (List Text)) :=
  let shared := ["tool", "deno-report"].map String.toList
  let own := ["deno-report"].map String.toList
  [("pyproject.toml".toList, [shared]), (".deno-report.toml".toList, [own, shared])]

/-- The table of a file of the tree. -/
def tableOf (t : FileTree) (file : Absolute) : Except Failure (Option Table) :=
  match t.look [] (.ofAbsolute file) with
  | .error .nameTooLong => .error (.refused (.ofAbsolute file) .nameTooLong)
  | .error _ | .ok .directory => .ok none
  | .ok (.file f) =>
    match Utf8.decode? f.bytes with
    | none => .error .malformedText
    | some text =>
      match Toml.read text with
      | .ok table => .ok (some table)
      | .error .malformed => .ok none
      | .error (.longNumeral digits) => .error (.longNumeral digits)

/-- The settings of the first of several tables that a file holds. -/
def settingsIn (file : Path) (root : Table) (tables : List (List Text)) :
    Except Failure (Option Settings) :=
  match tables.findSome? fun key => ((Setting.table root).at? key).map (·, key) with
  | some (v, key) => (Settings.ofValue v file key).map some
  | none => .ok none

/-- The settings of a file, if it holds some. -/
def settingsOf (t : FileTree) (file : Absolute) (tables : List (List Text)) :
    Except Failure (Option Settings) := do
  match ← tableOf t file with
  | some root => settingsIn (.ofAbsolute file) root tables
  | none => return none

/-- The first settings that files hold. -/
def firstSettings (t : FileTree) : List (Absolute × List (List Text)) → Except Failure Settings
  | [] => .ok {}
  | (file, tables) :: rest => do
    match ← settingsOf t file tables with
    | some s => return s
    | none => firstSettings t rest

/-- A directory and those above it, the root last. -/
def upward (a : Absolute) : List Absolute :=
  (List.range (a.length + 1)).map fun n => a.take (a.length - n)

/-- The files that are looked at from a directory, in the order of looking. -/
def candidates (a : Absolute) : List (Absolute × List (List Text)) :=
  (upward a).flatMap fun directory => sources.map fun (name, tables) => (directory ++ [name], tables)

/-- The settings for a directory. -/
def load (t : FileTree) (a : Absolute) : Except Failure Settings :=
  firstSettings t (candidates a)

/-- The executable that the environment names, or else another one. -/
def executableIn (environment : Keyed Text Text) (default : Setting) : Except Failure Setting :=
  match environment.get? executableVariable.toList with
  | none => .ok default
  | some value =>
    if value.trim.isEmpty then .error (.config .blankExecutable) else .ok (.text value.trim)

/-- The configuration for a directory of a host. The directory has the name `search_path`, which is no
setting. -/
def build (h : Host) (a : Absolute) (overrides : List (Text × Setting)) : Except Failure Config := do
  Settings.refuse "search_path" overrides
  let s ← load h.tree a
  let s := { s with executable := ← executableIn h.environment s.executable }
  let s ← s.override overrides
  ofSettings (← s.normalize)

end Config

end Fenceline
