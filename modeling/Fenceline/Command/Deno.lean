import Fenceline.Command.Basic
import Fenceline.Grammar.Deno

/-!
# The deno commands

What each command accepts, what it is called with, and how its output is read. Markdown documents are
only searched for samples, but for the formatter, which formats the samples in them itself.
-/

namespace Fenceline.Command

/-- Type checking of files and of the samples in them. -/
def check (permitsNoFiles : Bool := false) : Command where
  name := "check".toList
  extensions := some (Extension.typescript ++ Extension.markdown)
  permitsNoFiles := permitsNoFiles
  extracts := true
  scannedOnly := Extension.markdown
  languages := Extension.typescript
  args := ["--quiet".toList]
  grammar := Grammar.check
  reporter := some .diagnostic

/-- Formatting of files and of the samples in them, or with `checkOnly` a report of what is not
formatted. -/
def fmt (checkOnly : Bool := false) (permitsNoFiles : Bool := false) : Command where
  name := "fmt".toList
  permitsNoFiles := permitsNoFiles
  extracts := true
  unscanned := Extension.markdown
  args := [if checkOnly then "--check".toList else "--quiet".toList]
  grammar := Grammar.fmt
  reporter := some .diagnostic

/-- Documentation of scripts, which goes to the standard output, or with `lint` a report of problems in
documentation comments. -/
def doc (json : Bool := false) (lint : Bool := false) (permitsNoFiles : Bool := false) : Command where
  name := "doc".toList
  extensions := some Extension.scripts
  permitsNoFiles := permitsNoFiles
  args := ["--quiet".toList] ++ (if json then ["--json".toList] else []) ++
    (if lint then ["--lint".toList] else [])
  grammar := if lint then Grammar.lint else Grammar.doc
  reporter := some .diagnostic
  inheritsStdout := !lint

/-- Linting of files and of the samples in them, with `fix` a repair of what can be repaired. -/
def lint (fix : Bool := false) (permitsNoFiles : Bool := false) : Command where
  name := "lint".toList
  extensions := some (Extension.scripts ++ Extension.markdown)
  permitsNoFiles := permitsNoFiles
  extracts := true
  scannedOnly := Extension.markdown
  args := "--quiet".toList :: if fix then ["--fix".toList] else []
  grammar := Grammar.lint
  reporter := some .diagnostic

/-- Tests in scripts and in documents, with `update` a renewal of what they compare with, with `filter`
only those of matching names. -/
def test (update : Bool := false) (filter : Option Text := none) (permitsNoFiles : Bool := false) :
    Command where
  name := "test".toList
  extensions := some (Extension.scripts ++ Extension.markdown)
  permitsNoFiles := permitsNoFiles
  args := ["--quiet", "--permit-no-files", "--no-check", "--doc",
      if update then "--allow-all" else "--permission-set"].map String.toList ++
    (match filter with
      | none | some [] => []
      | some name => ["--filter".toList, name])
  conditionalArgs := ["--coverage".toList]
  scriptArgs := if update then ["--update".toList] else []
  grammar := Grammar.test
  reporter := some (.tests {})
  offsets := Offset.test

/-- An option with its value, if it has one that says something. -/
def optionWith (name : String) (value : Option Text) : List Text :=
  match value with
  | none | some [] => []
  | some value => [name.toList, value]

/-- Compilation of a script into an executable that runs it with the arguments given. -/
def compile (scriptArgs : List Text := []) (target : Option Text := none)
    (includes : List Text := []) (output : Option Text := none) : Command where
  name := "compile".toList
  extensions := some Extension.scripts
  args := ["--quiet".toList, "--permission-set".toList] ++ optionWith "--target" target ++
    includes.flatMap (["--include".toList, ·]) ++ optionWith "--output" output
  scriptArgs := scriptArgs
  separator := none
  grammar := Grammar.compile
  reporter := some .diagnostic

end Fenceline.Command
