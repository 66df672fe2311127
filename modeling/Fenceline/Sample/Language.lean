import Fenceline.Sample.Basic
import Fenceline.Text.Case

/-!
# Languages and extensions

Which files hold scripts and which hold documents, and the extension of a file for a sample in some
language.
-/

namespace Fenceline

namespace Extension

/-- Extensions of scripts in TypeScript. -/
def typescript : List Text :=
  ["ts", "tsx"].map String.toList

/-- Extensions of scripts. -/
def scripts : List Text :=
  typescript ++ ["js", "jsx", "mts", "mjs", "cts", "cjs"].map String.toList

/-- Extensions of Markdown documents. -/
def markdown : List Text :=
  ["md".toList]

/-- The extension of a script in a language, whose name may also be an extension. -/
def ofLanguage? (language : Text) : Option Text :=
  if language = "typescript".toList then some "ts".toList
  else if language = "javascript".toList then some "js".toList
  else if scripts.contains language then some language
  else none

end Extension

namespace Sample

/-- The extension of the file that a sample goes to, if its language is one of those wanted. -/
def extension? (s : Sample) (languages : List Text) : Option Text :=
  match s.language with
  | none => none
  | some language => (Extension.ofLanguage? language.lower).filter languages.contains

end Sample

end Fenceline
