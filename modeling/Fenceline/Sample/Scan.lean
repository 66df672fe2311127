import Fenceline.Line.Basic
import Fenceline.Sample.Basic
import Fenceline.Sample.Fence

/-!
# Finding samples in a document

A document is read line by line. Outside of a block, an opening fence begins one; inside, the closing
fence ends it, and every other line has to repeat what stands before the fence. A block that a line
breaks off, or that the document does not close, was none: reading goes on behind its opening fence.

**The laws.** `scan_of_open?`, `scan_of_isClosedBy`, `scan_of_collect?`: what one line does to the reading of a
document, it does to all of it.
-/

namespace Fenceline

/-- Where the reading of a document is: outside of all blocks, or inside of one, with the index of its
opening fence and the lines behind it. -/
inductive Scan where
  | outside
  | inside (fence : Fence) (start : Int) (lines : List Text)
  deriving DecidableEq, Repr

namespace Scan

/-- Inside of the block that a line with this index opens. -/
def open? (s : Scan) (line : Text) (index : Int) : Option Scan :=
  match s with
  | outside => (Fence.read? line).map fun f => inside f index []
  | inside .. => none

/-- Whether a line closes the block. -/
def isClosedBy (s : Scan) (line : Text) : Bool :=
  match s with
  | outside => false
  | inside f _ _ => f.isClosedBy line

/-- The block with one more line. -/
def collect? (s : Scan) (line : Text) : Option Scan :=
  match s with
  | outside => none
  | inside f start lines => if f.admits line then some (inside f start (lines ++ [line])) else none

end Scan

/-- The lines of a document without their ends; nothing behind the last line feed is no line. -/
def Text.documentLines (t : Text) : List Text :=
  let lines := (t.cutAt '\n').map dropReturn
  if lines.getLast? = some [] then lines.dropLast else lines

namespace Sample

/-- The sample of a block: its fence, the index of the fence's line, and the lines behind it. -/
def ofBlock (file : Path) (fence : Fence) (start : Int) (lines : List Text) : Sample where
  file := file
  startLine := start + 1
  lineCount := lines.length
  column := fence.indent.length + 1
  indent := fence.indent
  language := fence.language
  content := lines.flatMap fun line => line.drop fence.indent.length ++ ['\n']

/-- The samples in what is left of a document, `index` being the index of its first line. -/
def scan (file : Path) (state : Scan) (index : Int) (rest : List Text) : List Sample :=
  match state, rest with
  | .outside, [] => []
  | .outside, line :: rest =>
    match Fence.read? line with
    | some fence => scan file (.inside fence index []) (index + 1) rest
    | none => scan file .outside (index + 1) rest
  | .inside _ start lines, [] => scan file .outside (start + 1) lines
  | .inside fence start lines, line :: rest =>
    if fence.isClosedBy line then
      ofBlock file fence start lines :: scan file .outside (index + 1) rest
    else if fence.admits line then
      scan file (.inside fence start (lines ++ [line])) (index + 1) rest
    else scan file .outside (start + 1) (lines ++ line :: rest)
termination_by
  (match state with
    | .outside => 2 * rest.length
    | .inside _ _ lines => 2 * (lines.length + rest.length) + 1,
   rest.length)
decreasing_by
  all_goals simp_wf
  all_goals omega

/-- The samples of a document, in the order of their lines. -/
def findAll (text : Text) (file : Path) : List Sample :=
  scan file .outside 0 text.documentLines

section reading

variable {file : Path} {state next : Scan} {index : Int} {line : Text}

/-- **Behind a line that opens a block**, the block is read. -/
theorem scan_of_open? (h : state.open? line index = some next) (rest : List Text) :
    scan file state index (line :: rest) = scan file next (index + 1) rest := by
  cases state with
  | outside =>
    obtain ⟨fence, hread, rfl⟩ := Option.map_eq_some_iff.1 h
    rw [scan, hread]
  | inside fence start lines => cases h

/-- **A line that closes a block** makes a sample of it. -/
theorem scan_of_isClosedBy {fence : Fence} {start : Int} {lines : List Text}
    (h : (Scan.inside fence start lines).isClosedBy line = true) (rest : List Text) :
    scan file (.inside fence start lines) index (line :: rest) =
      ofBlock file fence start lines :: scan file .outside (index + 1) rest := by
  rw [scan]
  exact if_pos h

/-- **A line that joins a block** is read as one of its lines. -/
theorem scan_of_collect? (h : state.collect? line = some next) (hclosed : state.isClosedBy line = false)
    (rest : List Text) : scan file state index (line :: rest) = scan file next (index + 1) rest := by
  cases state with
  | outside => cases h
  | inside fence start lines =>
    have hopen : ¬ fence.isClosedBy line = true := Bool.eq_false_iff.1 hclosed
    rw [Scan.collect?] at h
    split at h
    · rename_i hadmits
      rw [scan, if_neg hopen, if_pos hadmits, ← Option.some.inj h]
    · cases h

end reading

end Sample

end Fenceline
