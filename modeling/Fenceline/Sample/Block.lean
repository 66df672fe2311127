import Fenceline.Event
import Fenceline.Sample.Fence
import Fenceline.Sample.Basic
import Fenceline.Text.Blank

/-!
# Blocks

A sample as it stands in its document: the fences and between them its lines, all behind the indent.
A document is patched by putting one block in the place of another wherever that stands; a document without the
block stays as it is.
-/

namespace Fenceline

namespace Sample

/-- The lines of the block with `content` between the fences of a sample. No line has blanks at its
end. -/
def blockLines (s : Sample) (content : Text) : List Text :=
  (((Fence.marker ++ s.language.getD []) :: (Text.trimEnd content).cutAt '\n') ++ [Fence.marker]).map
    fun line => Text.trimEnd (s.indent ++ line)

/-- The block with `content` between the fences of a sample. -/
def block (s : Sample) (content newline : Text) : Text :=
  Text.joinWith newline (s.blockLines content)

/-- What may end a line of a document. -/
def newlines : List Text :=
  [['\n'], ['\r', '\n']]

/-- The way in which the lines of the sample's block end in a text, if it stands there. -/
def newlineIn? (s : Sample) (text : Text) : Option Text :=
  newlines.find? fun newline => (s.block s.content newline).occursIn text

/-- The text with the block of the new content in the place of the sample's block. -/
def patch (s : Sample) (content text : Text) : Text :=
  match s.newlineIn? text with
  | some newline => text.replaceAll (s.block s.content newline) (s.block content newline)
  | none => text

/-- What is logged when a text is patched: a sample that does not stand there. -/
def patchNotices (s : Sample) (text : Text) : List Event :=
  if (s.newlineIn? text).isSome then []
  else
    [.logged .warning .patching
      ("Code sample at ".toList ++ s.file.toText ++ ':' :: Text.ofInt s.startLine ++
        " not found".toList)]

end Sample

end Fenceline
