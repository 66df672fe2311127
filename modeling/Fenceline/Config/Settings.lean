import Fenceline.Config.Setting

/-!
# Settings

The settings of a program, each as it is written until the whole is checked: every setting has a name,
and one that is not written has a default.

**The laws.** `get_set_self`, `get_set_of_ne`: setting one changes that one and no other.
-/

namespace Fenceline

/-- The settings there are. -/
inductive Field where
  | executable
  | passedOn
  | extractWorkers
  | patchWorkers
  | chunkSize
  deriving DecidableEq, Repr

namespace Field

/-- The name under which a setting is written. -/
def name : Field → String
  | executable => "executable"
  | passedOn => "env_passthrough"
  | extractWorkers => "extract_concurrency"
  | patchWorkers => "rewrite_concurrency"
  | chunkSize => "chunk_size"

/-- All settings. -/
def all : List Field :=
  [executable, passedOn, extractWorkers, patchWorkers, chunkSize]

/-- The setting of a name. -/
def ofName? (name : Text) : Option Field :=
  all.find? (·.name.toList == name)

end Field

/-- What is written for each setting. -/
structure Settings where
  /-- The executable of the toolchain. -/
  executable : Setting := .text "deno".toList
  /-- The names of the environment variables that the toolchain gets. -/
  passedOn : Setting := .list [.text "NO_COLOR".toList, .text "FORCE_COLOR".toList]
  /-- How many documents are searched for samples at once. -/
  extractWorkers : Setting := .int 10
  /-- How many documents are patched at once. -/
  patchWorkers : Setting := .int 4
  /-- How many bytes are read from a stream at once. -/
  chunkSize : Setting := .int 65536
  deriving Repr

namespace Settings

/-- What is written for a setting. -/
def get (s : Settings) : Field → Setting
  | .executable => s.executable
  | .passedOn => s.passedOn
  | .extractWorkers => s.extractWorkers
  | .patchWorkers => s.patchWorkers
  | .chunkSize => s.chunkSize

/-- The settings with something else written for one of them. -/
def set (s : Settings) (f : Field) (v : Setting) : Settings :=
  match f with
  | .executable => { s with executable := v }
  | .passedOn => { s with passedOn := v }
  | .extractWorkers => { s with extractWorkers := v }
  | .patchWorkers => { s with patchWorkers := v }
  | .chunkSize => { s with chunkSize := v }

@[simp] theorem get_set_self (s : Settings) (f : Field) (v : Setting) : (s.set f v).get f = v := by
  cases f <;> rfl

theorem get_set_of_ne (s : Settings) {f g : Field} (v : Setting) (h : g ≠ f) :
    (s.set f v).get g = s.get g := by
  cases f <;> cases g <;> first | rfl | exact absurd rfl h

/-- The settings with all that is given under names; none, if one of the names is no setting. -/
def setAll? (s : Settings) : List (Text × Setting) → Option Settings
  | [] => some s
  | (name, v) :: rest =>
    match Field.ofName? name with
    | some f => (s.set f v).setAll? rest
    | none => none

/-- The name of a setting as it may be written in a table, a hyphen standing for an underscore. -/
def unhyphenated (name : Text) : Text :=
  name.map fun c => if c = '-' then '_' else c

/-- The settings that a table gives, the defaults for those that it does not. -/
def ofTable? : Setting → Option Settings
  | .null => some {}
  | .table entries => setAll? {} (entries.map fun (name, v) => (unhyphenated name, v))
  | _ => none

/-- The settings that the value at a place of a file gives. -/
def ofValue (v : Setting) (file : Path) (table : List Text) : Except Failure Settings :=
  match ofTable? v with
  | some s => .ok s
  | none => .error (.config (.badTable table file))

/-- Those of the settings given that say something. -/
def spoken (overrides : List (Text × Setting)) : List (Text × Setting) :=
  overrides.filter fun
    | (_, .null) => false
    | _ => true

/-- Nothing, unless something is given under a name that stands for something else than a setting. -/
def refuse (name : String) (overrides : List (Text × Setting)) : Except Failure Unit :=
  if overrides.any (·.1 == name.toList) then .error (.unknownSetting name.toList) else .ok ()

/-- The settings with those that are given and say something in their place. The settings as a whole
have the name `config`, under which not even nothing may be said. -/
def override (s : Settings) (overrides : List (Text × Setting)) : Except Failure Settings := do
  refuse "config" overrides
  match s.setAll? (spoken overrides) with
  | some s => return s
  | none =>
    .error (.unknownSetting
      (((spoken overrides).find? fun p => (Field.ofName? p.1).isNone).elim [] (·.1)))

/-- The settings with the names of variables as a list without repetitions. -/
def normalize (s : Settings) : Except Failure Settings :=
  match s.passedOn with
  | .text name => .ok { s with passedOn := .list [.text name] }
  | .list names => do return { s with passedOn := .list (← Setting.distinct names) }
  | _ => .ok s

end Settings

end Fenceline
