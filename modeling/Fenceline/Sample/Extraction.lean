import Fenceline.Sample.Language
import Fenceline.Sample.Scan
import Fenceline.Session

/-!
# Extracting samples

Every sample of a document whose language is wanted is written to a file of its own; the file's name
ends in the mark of the sample's lines, so that a location in it tells where the sample stands. Documents are
handed to a pool of workers.
-/

namespace Fenceline

namespace Sample

/-- The samples of a document in one of the languages, each with the extension of its file. -/
def chosen (text : Text) (document : Path) (languages : List Text) : List (Sample × Text) :=
  (findAll text document).filterMap fun s => (s.extension? languages).map (s, ·)

/-- The end of the name of a sample's file. -/
def fileEnding (s : Sample) (extension : Text) : Text :=
  mark s.startLine s.endLine ++ '.' :: extension

/-- The sample with the file that its content was written to. -/
def store (directory : Absolute) (s : Sample) (extension : Text) : Act Sample := do
  let (place, host) :=
    (← Act.host).addFile directory (s.fileEnding extension) (Utf8.encode s.content)
  Act.setHost host
  return { s with path := some (.ofAbsolute place) }

/-- The samples of one document, stored; a document that is not there has none. -/
def extractFrom (directory : Absolute) (languages : List Text) (document : Path) :
    Act (List Sample) := do
  let host ← Act.host
  match ← Act.ofExcept (host.tree.read? host.cwd document) with
  | none =>
    Act.log .debug .sampling ("Skipping missing document ".toList ++ document.toText)
    return []
  | some text =>
    let samples ← (chosen text document languages).mapM fun (s, extension) =>
      store directory s extension
    Act.log .debug .sampling
      ("Extracted ".toList ++ Text.ofNat samples.length ++ " samples from ".toList ++
        document.toText)
    return samples

/-- The samples of documents, stored in a directory by a number of workers. -/
def extract (directory : Absolute) (languages : List Text) (workers : Int) (documents : List Path) :
    Act (List Sample) := do
  if workers ≤ 0 then Act.fail .noWorkers
  return (← Act.pooled (extractFrom directory languages) documents).flatten

end Sample

end Fenceline
