import Fenceline.Path.Basic
import Fenceline.Text.Quoted

/-!
# Failures

Everything that can go wrong, by its cause, and in one place the words for it.

**The law.** `bind_eq_ok`: what is done in two steps succeeds if and only if both steps do.
-/

namespace Fenceline

/-- Why a file tree refuses a path. -/
inductive Fault where
  | noEntry
  | notDirectory
  | isDirectory
  /-- A name on the way, or the path as a whole, has too many bytes. -/
  | nameTooLong
  deriving DecidableEq, Repr

namespace Fault

/-- The words for a fault at a path. -/
def message (fault : Fault) (path : Path) : Text :=
  let text :=
    match fault with
    | noEntry => "[Errno 2] No such file or directory: "
    | notDirectory => "[Errno 20] Not a directory: "
    | isDirectory => "[Errno 21] Is a directory: "
    | nameTooLong => "[Errno 36] File name too long: "
  text.toList ++ path.toText.quoted

end Fault

/-- What is wrong with the authority of a URL. -/
inductive UrlFault where
  /-- One of the two brackets without the other. -/
  | unbalancedBrackets
  /-- Text before the brackets of a host, or behind them without a colon. -/
  | besideBrackets
  /-- Brackets around what is no address. -/
  | notAnAddress (host : Text)
  /-- Brackets around an address of the fourth version. -/
  | fourthVersion
  /-- Brackets around an address of a version to come that is not well-formed. -/
  | futureVersion
  /-- A character that stands for a delimiter in another form. -/
  | hiddenDelimiter (authority : Text)
  deriving DecidableEq, Repr

namespace UrlFault

/-- The words for a fault. -/
def message : UrlFault → Text
  | unbalancedBrackets | besideBrackets => "Invalid IPv6 URL".toList
  | notAnAddress host => host.quoted ++ " does not appear to be an IPv4 or IPv6 address".toList
  | fourthVersion => "An IPv4 address cannot be in brackets".toList
  | futureVersion => "IPvFuture address is invalid".toList
  | hiddenDelimiter authority =>
    "netloc '".toList ++ authority ++
      "' contains invalid characters under NFKC normalization".toList

end UrlFault

/-- What is wrong with a configuration. -/
inductive ConfigFault where
  /-- A table that is none, or that holds a name that is no setting. -/
  | badTable (table : List Text) (file : Path)
  /-- An environment variable that names the executable with nothing. -/
  | blankExecutable
  | badExecutable
  | badVariables
  | notInteger (name : String)
  | notPositive (name : String)
  deriving DecidableEq, Repr

/-- The environment variable that names the executable. -/
def executableVariable : String := "DENO_REPORT_EXECUTABLE"

namespace ConfigFault

/-- The words for a fault. -/
def message : ConfigFault → Text
  | badTable table file =>
    "Invalid `[".toList ++ Text.joinWith ['.'] table ++ "]` settings in ".toList ++ file.toText
  | blankExecutable => (executableVariable ++ " must not be empty").toList
  | badExecutable => "`executable` must be a non-empty string".toList
  | badVariables => "`env_passthrough` must be a list of variable names".toList
  | notInteger name => ("`" ++ name ++ "` must be an integer").toList
  | notPositive name => ("`" ++ name ++ "` must be a positive integer").toList

end ConfigFault

/-- A run whose output could not be accounted for. -/
structure RunFault where
  command : Text
  args : List Text
  code : Option Int
  /-- The lines that no rule accounts for and the fatal messages, in the order of their coming. -/
  lines : List Text
  cwd : Option Text
  deriving DecidableEq, Repr

namespace RunFault

/-- The words for a run that failed. -/
def message (f : RunFault) : Text :=
  let code := f.code.elim "None".toList Text.ofInt
  "Error running deno command: ".toList ++ f.command ++ " (exit code ".toList ++ code ++
    "):\n\n".toList ++ Text.joinWith ['\n'] f.lines

end RunFault

/-- Everything that can go wrong. -/
inductive Failure where
  /-- A draft lacks a field that is needed. -/
  | missingField (name : String)
  /-- A draft names a kind that does not exist. -/
  | unknownKind (name : Text)
  | badUrl (fault : UrlFault)
  /-- A numeral has too many digits to be read. -/
  | longNumeral (digits : Nat)
  /-- A number has too many digits to be written. -/
  | longNumber
  /-- A path holds the null character. -/
  | nullInPath
  | inaccessible (path : Path) (fault : Fault)
  | notRegular (path : Path)
  /-- A file is no longer what it was when it was looked at. -/
  | changed (path : Path)
  /-- A file is not UTF-8. -/
  | malformedText
  /-- A path cannot be followed, and that is all there is to say. -/
  | refused (path : Path) (fault : Fault)
  /-- The system stopped what was being done, in these words: a stream could not be read, or a document not be
  written. -/
  | unreadable (message : Text)
  /-- Nobody is allowed to work on the documents. -/
  | noWorkers
  | noTargets
  | executableNotFound (name : Text)
  | run (fault : RunFault)
  | config (fault : ConfigFault)
  /-- A list of names holds a list or a table. -/
  | nestedNames
  /-- A setting has a value that cannot be worked with. -/
  | unusableSetting (name : String)
  /-- A setting of this name does not exist. -/
  | unknownSetting (name : Text)
  deriving DecidableEq, Repr

namespace Failure

/-- The words for a failure. -/
def message : Failure → Text
  | missingField name => Text.quoted name.toList
  | unknownKind name => name.quoted ++ " is not a valid ReportKind".toList
  | badUrl fault => fault.message
  | longNumeral digits =>
    "Exceeds the limit (4300 digits) for integer string conversion: value has ".toList ++
      Text.ofNat digits ++ " digits; use sys.set_int_max_str_digits() to increase the limit".toList
  | longNumber =>
    ("Exceeds the limit (4300 digits) for integer string conversion; " ++
      "use sys.set_int_max_str_digits() to increase the limit").toList
  | nullInPath => "embedded null byte".toList
  | inaccessible path fault =>
    "Error accessing ".toList ++ path.toText ++ ": ".toList ++ fault.message path
  | notRegular path => path.toText ++ " is not a regular file.".toList
  | changed path =>
    path.toText ++ " changed during processing; refusing to overwrite.".toList
  | malformedText => "malformed UTF-8".toList
  | refused path fault => fault.message path
  | unreadable message => message
  | noWorkers => "max_workers must be greater than 0".toList
  | noTargets => "No target files found".toList
  | executableNotFound name => "Cannot find deno executable: ".toList ++ name
  | run fault => fault.message
  | config fault => fault.message
  | nestedNames => "a list of names holds a list or a table".toList
  | unusableSetting name => ("unusable setting: " ++ name).toList
  | unknownSetting name => "no such setting: ".toList ++ name

end Failure

/-- **Two steps succeed if and only if both do.** -/
theorem bind_eq_ok {ε α β : Type} {x : Except ε α} {f : α → Except ε β} {b : β} :
    (x >>= f) = .ok b ↔ ∃ a, x = .ok a ∧ f a = .ok b := by
  cases x <;> simp [bind, Except.bind]

end Fenceline
