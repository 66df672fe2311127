import Fenceline.Failure
import Fenceline.Text.Similarity

/-!
# Switches

A switch is a word of a command line that begins with a hyphen. Its value is behind an equals sign or is
the next word; switches of one letter may be written as one word. Two hyphens alone end the switches.
-/

namespace Fenceline

/-- A word that a command line may have. -/
structure Switch where
  /-- With two hyphens before it. -/
  name : Text
  letter : Option Char := none
  takesValue : Bool := false
  deriving DecidableEq, Repr

/-- What a path on a command line has to be one of. -/
inductive PathKind where
  | path
  | file
  | directory
  deriving DecidableEq, Repr

namespace PathKind

/-- The name of a kind at the beginning of a sentence. -/
def title : PathKind → String
  | path => "Path"
  | file => "File"
  | directory => "Directory"

end PathKind

/-- What is wrong with a path on a command line. -/
inductive PathProblem where
  | missing
  | isFile
  | isDirectory
  deriving DecidableEq, Repr

namespace PathProblem

/-- The words for a problem. -/
def message : PathProblem → String
  | missing => "does not exist."
  | isFile => "is a file."
  | isDirectory => "is a directory."

end PathProblem

/-- What is wrong with a command line. -/
inductive UsageFault where
  | noSuchSwitch (name : Text) (similar : List Text)
  | missingValue (name : Text)
  | unwantedValue (name : Text)
  | missingCommand
  | noSuchCommand (name : Text)
  | badPath (parameter : Text) (kind : PathKind) (value : Text) (problem : PathProblem)
  | badConfig (fault : ConfigFault)
  deriving DecidableEq, Repr

namespace UsageFault

/-- The words for a fault. -/
def message : UsageFault → Text
  | noSuchSwitch name similar =>
    let names := Text.joinWith ", ".toList similar
    "No such option: ".toList ++ name ++
      match similar with
      | [] => []
      | [_] => " Did you mean ".toList ++ names ++ ['?']
      | _ => " (Possible options: ".toList ++ names ++ [')']
  | missingValue name => "Option ".toList ++ name.quoted ++ " requires an argument.".toList
  | unwantedValue name => "Option ".toList ++ name.quoted ++ " does not take a value.".toList
  | missingCommand => "Missing command.".toList
  | noSuchCommand name => "No such command ".toList ++ name.quoted ++ ['.']
  | badPath parameter kind value problem =>
    "Invalid value for '".toList ++ parameter ++ "': ".toList ++ kind.title.toList ++ ' ' ::
      value.quoted ++ ' ' :: problem.message.toList
  | badConfig fault => "Invalid value: ".toList ++ fault.message

/-- Whether the usage is shown with a fault. -/
def showsUsage : UsageFault → Bool
  | missingValue _ | unwantedValue _ => false
  | _ => true

end UsageFault

/-- The switches of a command line in their order, each with its value, and the other words. -/
structure Words where
  switches : List (Text × Text) := []
  arguments : List Text := []
  deriving DecidableEq, Repr

namespace Words

/-- Whether a switch is there. -/
def has (w : Words) (name : String) : Bool :=
  w.switches.any (·.1 == name.toList)

/-- The value of a switch, the last one if there are several. -/
def value? (w : Words) (name : String) : Option Text :=
  (w.switches.reverse.find? (·.1 == name.toList)).map (·.2)

/-- A switch and its value, and the words behind them. -/
def readNamed (s : Switch) (name : Text) (value : Option Text) (rest : List Text) :
    Except UsageFault ((Text × Text) × List Text) :=
  match s.takesValue, value, rest with
  | true, some value, rest => .ok ((s.name, value), rest)
  | true, none, value :: rest => .ok ((s.name, value), rest)
  | true, none, [] => .error (.missingValue name)
  | false, some _, _ => .error (.unwantedValue name)
  | false, none, rest => .ok ((s.name, []), rest)

/-- The switches of one letter that are written as one word, and the words behind them. -/
def readLetters (known : List Switch) : Text → List Text →
    Except UsageFault (List (Text × Text) × List Text)
  | [], rest => .ok ([], rest)
  | c :: more, rest =>
    match known.find? (·.letter == some c) with
    | none => .error (.noSuchSwitch ['-', c] [])
    | some s =>
      if s.takesValue then do
        let value := if more.isEmpty then none else some more
        let (first, rest) ← readNamed s ['-', c] value rest
        return ([first], rest)
      else do
        let (switches, rest) ← readLetters known more rest
        return ((s.name, []) :: switches, rest)

/-- The switches of a word that begins with a hyphen, and the words behind them. -/
def readSwitch (known : List Switch) (word : Text) (rest : List Text) :
    Except UsageFault (List (Text × Text) × List Text) :=
  let name := word.takeWhile (· != '=')
  let value :=
    match word.dropWhile (· != '=') with
    | [] => none
    | _ :: value => some value
  match known.find? (·.name == name) with
  | some s => do
    let (first, rest) ← readNamed s name value rest
    return ([first], rest)
  | none =>
    if "--".toList.isPrefixOf word then
      .error (.noSuchSwitch name (Text.similarTo name (known.map (·.name))))
    else readLetters known (word.drop 1) rest

/-- The words of a command line; their number bounds the steps. If `mixed`, switches may stand behind
other words. -/
def readFrom (known : List Switch) (mixed : Bool) : Nat → List Text → Except UsageFault Words
  | 0, _ | _, [] => .ok {}
  | n + 1, word :: rest =>
    if word = "--".toList then .ok { arguments := rest }
    else if word.head? = some '-' ∧ 1 < word.length then do
      let (switches, rest) ← readSwitch known word rest
      let more ← readFrom known mixed n rest
      return { more with switches := switches ++ more.switches }
    else if mixed then do
      let more ← readFrom known mixed n rest
      return { more with arguments := word :: more.arguments }
    else .ok { arguments := word :: rest }

/-- The words of a command line. -/
def read (known : List Switch) (mixed : Bool) (words : List Text) : Except UsageFault Words :=
  readFrom known mixed words.length words

end Words

end Fenceline
