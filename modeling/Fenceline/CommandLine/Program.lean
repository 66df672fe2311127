import Fenceline.Command.Deno
import Fenceline.CommandLine.Switch
import Fenceline.Config.Lookup
import Fenceline.Files.Find
import Fenceline.Run.Basic

/-!
# The program

A command line names a command of the toolchain, switches for the program and for the command, and the
files to run it over. Problems are printed as they are found; the program ends with code 1 if there were
some, and with code 2 if the command line or the configuration was wrong.
-/

namespace Fenceline.CommandLine

/-! ## What is printed -/

/-- A piece of text printed on one of the two streams. -/
structure Printed where
  stream : Stream
  text : Text
  deriving DecidableEq, Repr

/-- A sequence that colours what follows it. -/
def colouring : Pattern :=
  .seq (.literal ['\x1b', '[']) (.seq (.many .greedy fun c => c.isDigit || c == ';' || c == '?')
    (.one Char.isAlpha))

/-- A line without colours, on a stream. -/
def line (stream : Stream) (text : Text) : Printed :=
  ⟨stream, colouring.substitute (fun _ => []) text ++ ['\n']⟩

/-- What a test came to, in one line. -/
def outcomeLine (o : TestOutcome) : Printed :=
  let label := if o.success then "PASS ".toList else "FAIL ".toList
  let time :=
    match o.time with
    | none | some [] => []
    | some time => " (".toList ++ time ++ [')']
  line (if o.success then .stdout else .stderr)
    (label ++ o.file ++ ": ".toList ++ Text.joinWith " > ".toList o.test ++ time)

/-- The line of a log file for a record. -/
def logLine (r : LogRecord) : Text :=
  r.level.name.toList ++ ' ' :: r.topic.logger.toList ++ ": ".toList ++ r.message ++ ['\n']

/-- What is printed of an event: problems, warnings or with `verbose` all log records, and with `tests`
what each test came to. -/
def print (verbose tests : Bool) : Event → List Printed
  | .log r =>
    if verbose || decide (Level.warning.rank ≤ r.level.rank) then
      [⟨.stderr, "[deno-report] ".toList ++ r.level.name.toList ++ ' ' :: r.message ++ ['\n']⟩]
    else []
  | .signal (.problem report) => [line .stderr (report.message ++ ['\n'])]
  | .signal (.info (.test o)) => if tests then [outcomeLine o] else []
  | .signal _ => []

/-- How the program ends. -/
structure Ending where
  code : Nat
  printed : List Printed := []
  /-- A failure that the program has no words for. -/
  failure : Option Failure := none
  session : Session

namespace Ending

/-- All that was printed on a stream. -/
def textOn (e : Ending) (stream : Stream) : Text :=
  (e.printed.filter (·.stream == stream)).flatMap (·.text)

end Ending

/-! ## Why the program stops before a run -/

/-- A reason to stop before a run; the command is the one whose part of the command line it is about. -/
inductive Stop where
  | version
  | help (command : Option Text)
  | usage (command : Option Text) (fault : UsageFault)
  | failure (failure : Failure)
  deriving DecidableEq, Repr

/-- The name of the program. -/
def programName : Text :=
  "deno-report".toList

/-- The program's name and the command's. -/
def invoked (command : Option Text) : Text :=
  programName ++ (command.map (' ' :: ·)).getD []

/-- How the program is used. -/
def usage (command : Option Text) : Text :=
  "Usage: ".toList ++ invoked command ++
    if command.isSome then " [OPTIONS] [PATHS]...".toList else " [OPTIONS] COMMAND [ARGS]...".toList

/-- Where to look for help. -/
def hint (command : Option Text) : Text :=
  "Try '".toList ++ invoked command ++ " --help' for help.".toList

namespace Stop

/-- The ending that a stop brings about. -/
def ending (h : Host) : Stop → Ending
  | version =>
    { code := 0, printed := [line .stdout (programName ++ ", version 0.1.0".toList)],
      session := { host := h } }
  | help command =>
    { code := 0, printed := [line .stdout (CommandLine.usage command)], session := { host := h } }
  | usage command fault =>
    let shown :=
      if fault.showsUsage then
        [line .stderr (CommandLine.usage command), line .stderr (hint command), line .stderr []]
      else []
    { code := 2, printed := shown ++ [line .stderr ("Error: ".toList ++ fault.message)],
      session := { host := h } }
  | failure f => { code := 1, failure := some f, session := { host := h } }

end Stop

/-! ## The words of the command line -/

/-- The switch for help, which every command has. -/
def helpSwitch : Switch :=
  { name := "--help".toList }

/-- The switches of the program. -/
def programSwitches : List Switch := [
  { name := "--version".toList },
  { name := "--cwd".toList, takesValue := true },
  { name := "--executable".toList, takesValue := true },
  { name := "--verbose".toList, letter := some 'v' },
  { name := "--log-file".toList, takesValue := true },
  helpSwitch]

/-- The commands of the program, each with its switches. -/
def commands : List (Text × List Switch) := [
  ("check".toList, [helpSwitch]),
  ("fmt".toList, [{ name := "--check".toList }, helpSwitch]),
  ("lint".toList, [{ name := "--fix".toList }, helpSwitch]),
  ("doc".toList, [{ name := "--lint".toList }, { name := "--json".toList }, helpSwitch]),
  ("test".toList,
    [{ name := "--update".toList }, { name := "--filter".toList, takesValue := true }, helpSwitch])]

/-- The command of the toolchain that words ask for. -/
def commandFor (name : Text) (w : Words) : Command :=
  if name = "fmt".toList then Command.fmt (w.has "--check") true
  else if name = "lint".toList then Command.lint (w.has "--fix") true
  else if name = "doc".toList then Command.doc (w.has "--json") (w.has "--lint") true
  else if name = "test".toList then Command.test (w.has "--update") (w.value? "--filter") true
  else Command.check true

/-- What stands where a spelled path leads; a slash at its end asks for a directory. -/
def look (h : Host) (path : Text) : Except Failure (Option FileTree.Node) :=
  let p := Path.ofText path
  if p.hasNull then .error .nullInPath
  else if path.isEmpty || !FileTree.fits FileTree.maxPath path then .ok none
  else
    match h.tree.look h.cwd p with
    | .ok (.file f) =>
      let last := Host.lastName path
      .ok (if last = [] ∨ last = ['.'] then none else some (.file f))
    | .ok .directory => .ok (some .directory)
    | .error _ => .ok none

/-- Nothing, unless a path is not what a parameter asks for. -/
def checkPath (h : Host) (command : Option Text) (parameter : String) (kind : PathKind)
    (path : Text) : Except Stop Unit := do
  let bad := fun problem => Stop.usage command (.badPath parameter.toList kind path problem)
  match kind, look h path with
  | _, .error f => .error (.failure f)
  | .file, .ok none => .ok ()
  | _, .ok none => .error (bad .missing)
  | .file, .ok (some .directory) => .error (bad .isDirectory)
  | .directory, .ok (some (.file _)) => .error (bad .isFile)
  | _, .ok (some _) => .ok ()

/-- The words before the name of a command, checked, and the words from there. -/
def readProgram (h : Host) (words : List Text) : Except Stop Words := do
  let w ←
    match Words.read programSwitches false words with
    | .ok w => .ok w
    | .error fault => .error (.usage none fault)
  for name in w.switches.map (·.1) do
    if name = "--version".toList then Except.error Stop.version
    if name = "--help".toList then Except.error (Stop.help none)
  for name in (w.switches.map (·.1)).eraseDups do
    if name = "--cwd".toList then checkPath h none "--cwd" .directory ((w.value? "--cwd").getD [])
    if name = "--log-file".toList then
      checkPath h none "--log-file" .file ((w.value? "--log-file").getD [])
  return w

/-- Whether a word looks like a switch. -/
def looksLikeSwitch (word : Text) : Bool :=
  word.head?.any fun c => c == '_' || !Text.isWord c

/-- The command that is named, its switches, and the words behind its name. A name that looks like a
switch asks for help. -/
def selectCommand (words : List Text) : Except Stop (Text × List Switch × List Text) :=
  match words with
  | [] => .error (.usage none .missingCommand)
  | name :: rest =>
    match commands.find? (·.1 == name) with
    | some (name, switches) => .ok (name, switches, rest)
    | none =>
      if looksLikeSwitch name then .error (.help none)
      else .error (.usage none (.noSuchCommand name))

/-- The words behind the name of a command, checked. -/
def readCommand (h : Host) (name : Text) (switches : List Switch) (words : List Text) :
    Except Stop Words := do
  let w ←
    match Words.read switches true words with
    | .ok w => .ok w
    | .error fault => .error (.usage (some name) fault)
  if w.has "--help" then Except.error (Stop.help (some name))
  for path in w.arguments do
    checkPath h (some name) "[PATHS]..." .path path
  return w

/-! ## The run -/

/-- The extensions of the files that are looked for. -/
def supported : List Text :=
  Extension.scripts ++ Extension.markdown

/-- The spelling of a place as seen from a directory, if it is within, or its own. -/
def spelledFrom (base place : Absolute) : Text :=
  if base.isPrefixOf place then (⟨.relative, place.drop base.length⟩ : Path).toText
  else (Path.ofAbsolute place).toText

/-- The spelling of a found file as seen from a directory. -/
def respelled (cwd base : Absolute) (file : Text) : Except Failure Text :=
  let p := Path.ofText file
  if p.hasNull then .error .nullInPath else .ok (spelledFrom base (p.resolve cwd))

/-- The files that paths stand for, spelled as seen from the directory that the toolchain runs in; no
paths stand for that directory. -/
def collect (h : Host) (base : Absolute) (paths : List Text) : Except Failure (List Text) := do
  let paths := if paths.isEmpty then [(Path.ofAbsolute base).toText] else paths
  let found ← h.tree.find h.cwd paths (some supported)
  found.mapM (respelled h.cwd base)

/-- The place of a log file, and the host with that file. -/
def openLog (h : Host) (path : Text) : Except Failure (Absolute × Host) :=
  let p := Path.ofText path
  let place := p.resolve h.cwd
  let shown : Path := ⟨if p.root = .doubleSlash then .doubleSlash else .slash, place⟩
  match h.tree.look [] shown with
  | .ok .directory => .error (.refused shown .isDirectory)
  | .ok (.file _) => .ok (place, h)
  | .error .noEntry =>
    if h.tree.isDirectory place.dropLast then .ok (place, { h with tree := h.tree.put place [] })
    else .error (.refused shown .noEntry)
  | .error fault => .error (.refused shown fault)

/-- The session with the records of its log at the end of the log file. -/
def writeLog (place : Absolute) (s : Session) : Session :=
  let lines := (s.events.filterMap Event.log?).flatMap logLine
  let before := ((s.host.tree.file? place).map (·.bytes)).getD []
  { s with host := { s.host with tree := s.host.tree.put place (before ++ Utf8.encode lines) } }

/-- Whether there are words for a failure that is not about the command line: those for runs and for
files. -/
def hasWords : Failure → Bool
  | .inaccessible .. | .notRegular _ | .changed _ | .refused .. | .unreadable _ => true
  | .noTargets | .executableNotFound _ | .run _ => true
  | _ => false

/-- The last line for results that hold problems. -/
def summary (results : List FileResult) : List Printed :=
  match (results.flatMap (·.problems)).length with
  | 0 => []
  | n =>
    [line .stderr ("Found ".toList ++ Text.ofNat n ++ " problem".toList ++
      if n = 1 then [] else ['s'])]

/-- The ending of a run. -/
def endingOf (verbose tests : Bool) (r : Except Failure (List FileResult)) (s : Session) : Ending :=
  let printed := s.events.flatMap (print verbose tests)
  match r with
  | .ok results =>
    let last := summary results
    { code := if last.isEmpty then 0 else 1, printed := printed ++ last, session := s }
  | .error f =>
    if hasWords f then
      { code := 1, printed := printed ++ [line .stderr ("Error: ".toList ++ f.message)], session := s }
    else { code := 1, printed, failure := some f, session := s }

/-- The setup of the run that the words of a command ask for. -/
def setup (toolchain : Toolchain) (base : Absolute) (config : Config) (name : Text) (w : Words) :
    Run.Setup where
  command := commandFor name w
  config := config
  watch := { growing := false }
  toolchain := toolchain
  cwd := base

/-- The directory that the toolchain runs in. -/
def baseOf (h : Host) (w : Words) : Absolute :=
  match w.value? "--cwd" with
  | some directory => (Path.ofText directory).resolve h.cwd
  | none => h.cwd

/-- The run of a command with the words behind its name. -/
def runCommand (h : Host) (toolchain : Toolchain) (w : Words) (name : Text)
    (switches : List Switch) (words : List Text) : Except Stop Ending := do
  let base := baseOf h w
  let given := [("executable".toList, (w.value? "--executable").elim Setting.null Setting.text)]
  let config ←
    match Config.build h base given with
    | .ok config => .ok config
    | .error (.config fault) => .error (.usage none (.badConfig fault))
    | .error f => .error (.failure f)
  let own ← readCommand h name switches words
  let files ←
    match collect h base own.arguments with
    | .ok files => .ok files
    | .error f => .error (.failure f)
  let (r, s) := (Run.perform (setup toolchain base config name own) files).perform { host := h }
  return endingOf (w.has "--verbose") (name = "test".toList) r s

/-- The program on a host, with a toolchain and the words of its command line. -/
def run (h : Host) (toolchain : Toolchain) (words : List Text) : Ending :=
  if words.isEmpty then (Stop.help none).ending h
  else
    let selected := do
      let w ← readProgram h words
      return (w, ← selectCommand w.arguments)
    match selected with
    | .error stop => stop.ending h
    | .ok (w, name, switches, rest) =>
      match (w.value? "--log-file").map (openLog h) with
      | some (.error f) => (Stop.failure f).ending h
      | some (.ok (place, h)) =>
        let ending :=
          match runCommand h toolchain w name switches rest with
          | .ok ending => ending
          | .error stop => stop.ending h
        { ending with session := writeLog place ending.session }
      | none =>
        match runCommand h toolchain w name switches rest with
        | .ok ending => ending
        | .error stop => stop.ending h

end Fenceline.CommandLine
