import Fenceline.Path.Basic

/-!
# Code samples

A sample is a fenced block of code that stands in a document: where it stands, what stands before each
of its lines, what language it is in, and what it says.
-/

namespace Fenceline

/-- A fenced block of code in a document. -/
structure Sample where
  /-- The document. -/
  file : Path
  /-- The line of the opening fence, counted from one. -/
  startLine : Int
  /-- The number of lines between the fences. -/
  lineCount : Int
  /-- The column at which the content begins, counted from one. -/
  column : Int
  /-- What stands before the opening fence. -/
  indent : Text
  /-- The language that the opening fence names. -/
  language : Option Text
  /-- The lines between the fences without the indent, each with its line feed. -/
  content : Text
  /-- The file that the content was written to. -/
  path : Option Path := none
  deriving DecidableEq, Repr

namespace Sample

/-- The line of the closing fence. -/
def endLine (s : Sample) : Int :=
  s.startLine + s.lineCount + 1

/-- The mark of lines `first` to `last` of a document, as it stands behind the document's path. -/
def mark (first last : Int) : Text :=
  '$' :: Text.ofInt first ++ '-' :: Text.ofInt last

/-- The document's path with the mark of the sample's lines. -/
def reference (s : Sample) : Text :=
  s.file.toText ++ mark s.startLine s.endLine

end Sample

end Fenceline
