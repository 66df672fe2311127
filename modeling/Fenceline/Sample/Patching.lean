import Fenceline.Sample.Block
import Fenceline.Session

/-!
# Patching documents

A sample whose file says something else than the sample is a change of its document. The changes of a
document are made one after the other in its text, and the document is written once if that changed
the text at all. Documents are handed to a pool of workers, so one that fails does not keep the others from
being patched.
-/

namespace Fenceline

namespace Sample

/-- A sample and what its file says now. -/
structure Change where
  sample : Sample
  content : Text

/-- The text with all changes made. -/
def patchAll (text : Text) (changes : List Change) : Text :=
  changes.foldl (fun text c => c.sample.patch c.content text) text

/-- What is logged while the changes are made. -/
def patchAllNotices (text : Text) : List Change → List Event
  | [] => []
  | c :: rest => c.sample.patchNotices text ++ patchAllNotices (c.sample.patch c.content text) rest

/-- The change that the file of a sample asks for. -/
def change? (s : Sample) (path : Path) : Act (Option Change) := do
  let host ← Act.host
  let content ← Act.ofExcept (host.tree.read host.cwd path)
  return if content = s.content then none else some ⟨s, content⟩

/-- The changes that the files of samples ask for. -/
def changes (samples : List Sample) : Act (List Change) := do
  let asked ← samples.mapM fun s =>
    match s.path with
    | some path => s.change? path
    | none => return none
  return asked.filterMap id

/-- Whether a document was patched with the samples that stand in it. -/
def patchDocument (document : Path) (samples : List Sample) : Act Bool := do
  let changes ← changes samples
  if changes.isEmpty then
    return false
  let host ← Act.host
  let stamp ← Act.ofExcept (host.tree.stamp host.cwd document)
  let text ← Act.ofExcept (host.tree.read host.cwd document)
  Act.tell (patchAllNotices text changes)
  let patched := patchAll text changes
  if patched = text then
    return false
  Act.setHost (← Act.ofExcept (host.write document patched stamp))
  Act.log .info .patching
    ("Updated ".toList ++ Text.ofNat changes.length ++ " code samples in ".toList ++
      document.toText)
  return true

/-- Samples by their documents, in the order of each document's first sample. -/
def byDocument (samples : List Sample) : List (Path × List Sample) :=
  let stored := samples.filter (·.path.isSome)
  (stored.map (·.file)).eraseDups.map fun document =>
    (document, stored.filter (·.file == document))

/-- The documents that a number of workers patched with stored samples. -/
def patchDocuments (samples : List Sample) (workers : Int) : Act (List Path) := do
  if workers ≤ 0 then Act.fail .noWorkers
  let patched ← Act.pooled (fun (document, samples) => do
    return (document, ← patchDocument document samples)) (byDocument samples)
  return (patched.filter (·.2)).map (·.1)

end Sample

end Fenceline
