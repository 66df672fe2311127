import Fenceline.Grammar.Rule
import Fenceline.Location.Resolver
import Fenceline.Report.Reporter
import Fenceline.Sample.Language

/-!
# Commands

A command of the toolchain is described by the files that it accepts, which of them are searched for
samples and which are passed on, what it is called with, and how its output is read.

**The law.** `accepted_sublist`: a command accepts files in the order in which they are given.
-/

namespace Fenceline

/-- A command of the toolchain. -/
structure Command where
  name : Text
  /-- The extensions of the files that are accepted; none stands for all. -/
  extensions : Option (List Text) := none
  /-- Whether a run without files is no failure. -/
  permitsNoFiles : Bool := false
  /-- Whether the files are searched for samples. -/
  extracts : Bool := false
  /-- The extensions of files that are not searched for samples. -/
  unscanned : List Text := []
  /-- The extensions of files that are searched for samples and not passed on. -/
  scannedOnly : List Text := []
  /-- The languages of the samples, by the extensions of their files. -/
  languages : List Text := Extension.scripts
  args : List Text := []
  conditionalArgs : List Text := []
  scriptArgs : List Text := []
  separator : Option Text := some "--".toList
  grammar : Grammar := []
  /-- Who turns drafts into reports, at the beginning of a run. -/
  reporter : Option Reporter := none
  offsets : Keyed Kind Offset := []
  /-- Whether the standard output goes where that of the program goes, without being read. -/
  inheritsStdout : Bool := false

namespace Command

/-- The extension of a spelled path. -/
def extensionOf (file : Text) : Text :=
  (Path.ofText file).extension

variable (c : Command)

/-- The files that the command accepts. -/
def accepted (files : List Text) : List Text :=
  files.filter fun file => c.extensions.all (·.contains (extensionOf file))

/-- The files that are passed on. -/
def direct (files : List Text) : List Text :=
  files.filter fun file => !c.scannedOnly.contains (extensionOf file)

/-- Whether a file is searched for samples. -/
def isScanned (file : Text) : Bool :=
  !c.unscanned.contains (extensionOf file)

/-- Whether there is a script among the files. -/
def hasScripts (files : List Text) : Bool :=
  files.any fun file => Extension.scripts.contains (extensionOf file)

/-- **Files are accepted in the order in which they are given.** -/
theorem accepted_sublist (files : List Text) : (c.accepted files).Sublist files :=
  List.filter_sublist

end Command

end Fenceline
