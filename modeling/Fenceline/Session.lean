import Fenceline.Event
import Fenceline.Files.Document
import Fenceline.Host

/-!
# Sessions

A session is a host together with what has been told and launched on it. An act changes a session and
gives a result or fails; what it did before it failed stays done and told. Acts that are handed to a pool of
workers are all done, also if some of them fail (`Act.pooled`).
-/

namespace Fenceline

/-- A toolchain as it is started. -/
structure Launch where
  /-- The executable and its arguments. -/
  argv : List Text
  cwd : Absolute
  environment : Keyed Text Text
  /-- Whether the standard output goes where that of the program goes. -/
  inheritsStdout : Bool
  /-- The file tree at that time. -/
  tree : FileTree

/-- A host, what has been told, and what has been launched. -/
structure Session where
  host : Host
  events : List Event := []
  launches : List Launch := []

/-- A change of a session that may fail. -/
abbrev Act := ExceptT Failure (StateM Session)

namespace Act

/-- The host as it is. -/
def host : Act Host :=
  return (← get).host

/-- Another host in the place of the one that was. -/
def setHost (h : Host) : Act Unit :=
  modify fun s => { s with host := h }

/-- Another file tree in the place of the one that was. -/
def setTree (t : FileTree) : Act Unit :=
  modify fun s => { s with host := { s.host with tree := t } }

/-- Events that are told. -/
def tell (events : List Event) : Act Unit :=
  modify fun s => { s with events := s.events ++ events }

/-- A log record that is told. -/
def log (level : Level) (topic : Topic) (message : Text) : Act Unit :=
  tell [.logged level topic message]

/-- A result that may be a failure. -/
def ofExcept {α : Type} (r : Except Failure α) : Act α :=
  ExceptT.mk (pure r)

/-- A failure. -/
def fail {α : Type} (failure : Failure) : Act α :=
  ofExcept (.error failure)

/-- An act and, whether it fails or not, a change of the session after it. -/
def andThen {α : Type} (act : Act α) (change : Session → Session) : Act α :=
  ExceptT.mk do
    let r ← act.run
    modify change
    return r

/-- The session and the result of an act. -/
def perform {α : Type} (act : Act α) (s : Session) : Except Failure α × Session :=
  act.run.run s

/-- The results of an act for each of several things, all of which a pool of workers was handed at once. An act
that fails does not keep the others from being done; the first failure, in the order of the things, is what is
told of them all. -/
def pooled {α β : Type} (f : α → Act β) : List α → Act (List β)
  | [] => return []
  | x :: xs => ExceptT.mk do
    let first ← (f x).run
    let others ← (pooled f xs).run
    return do return (← first) :: (← others)

end Act

end Fenceline
