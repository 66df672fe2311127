import Fenceline.Event
import Fenceline.Location.FileUrl
import Fenceline.Location.Reference

/-!
# Bringing locations back to documents

The toolchain speaks of sample files and of marked documents; a resolver turns what it says into places
of the documents themselves, in the fields of a draft and inside of its message. It does what it can:
what does not say a place stays as it is.

A place in a sample is a place in its document: the sample's first line is the one below the opening
fence, its first column the one behind the indent. A mark that no sample is known for counts from the
marked line, with offsets for what the toolchain adds by itself.

**The law.** `resolve_get?_of_ne`: no field but the file, the line, the column and the message changes.
-/

namespace Fenceline

/-- What the toolchain adds to marked places by itself. -/
structure Offset where
  /-- Added to the line of a report, and to lines inside of messages. -/
  line : Int := 0
  /-- Added to the column of a report. -/
  column : Int := 0
  /-- Added to columns inside of messages. -/
  embeddedColumn : Int := 0
  deriving DecidableEq, Repr

namespace Offset

/-- What `deno test` adds. -/
def test : Keyed Kind Offset :=
  [(.test, {}), (.failure, ⟨-1, -5, -4⟩)]

end Offset

/-- What is known of the places that the toolchain may speak of. -/
structure Resolver where
  /-- Where relative paths begin. -/
  cwd : Path
  /-- The samples that were written to files. -/
  samples : List Sample := []
  /-- The directory of the sample files. -/
  sampleDir : Option Path := none
  /-- The spelling under which each document was requested. -/
  displayNames : Keyed Path Text := []
  /-- What the toolchain adds, by the kind of report. -/
  offsets : Keyed Kind Offset := []

namespace Sample

/-- Samples under their files, a later one in the place of an earlier one with the same file. -/
def indexed (samples : List Sample) : List Sample :=
  (Keyed.ofList (samples.map fun s => (s.path, s))).map (·.2)

end Sample

namespace Resolver

/-- Documents whose places are counted without the asterisks of comments. -/
def markdown : List Text :=
  ["md".toList]

/-- The columns that the asterisk before a line of a comment takes. -/
def commentWidth (file : Text) : Int :=
  if markdown.contains (Path.ofText file).extension then 0 else 3

variable (r : Resolver)

/-- The place of a path. -/
def absolute (file : Text) : Except Failure Path :=
  let path := r.cwd.join (Path.ofText file)
  if path.hasNull then .error .nullInPath else .ok (.ofAbsolute (path.resolve []))

/-- How the paths of sample files begin. -/
def sampleRoot? : Option Text :=
  r.sampleDir.map fun dir => dir.toText ++ ['/']

/-- Whether a path is one of a sample file. -/
def isInSampleDir (file : Text) : Bool :=
  r.sampleRoot?.any fun root => root.isPrefixOf file

/-- The sample that was written to a file. -/
def sampleAt? (file : Text) : Option Sample :=
  r.samples.find? (·.path == some (Path.ofText file))

/-- The sample of a document that begins at a line, the latest one if there are several. -/
def sampleFrom? (document : Path) (start : Int) : Option Sample :=
  r.samples.reverse.find? fun s => s.file == document && s.startLine == start

/-- What the toolchain adds in reports of a kind. -/
def offset (kind : Kind) : Offset :=
  (r.offsets.get? kind).getD {}

/-- The integer under a name of the draft. -/
def integer? (d : Draft) (name : String) : Option Int :=
  (d.get? name).bind Text.readInt?

/-! ## The fields -/

/-- The draft of a report on a sample file, told of the sample's document. -/
def placeInSample (d : Draft) (file : Text) (s : Sample) : Except Failure Draft := do
  let message ← d.message
  match integer? d "line", integer? d "column" with
  | some line, some column =>
    let d := d.set "message" (message.replaceAll file s.reference)
    let d := d.set "line" (← Reference.writeNumber (line + s.startLine))
    let d := d.set "column" (← Reference.writeNumber (column + s.column - 1))
    return d.set "file" s.file.toText
  | _, _ =>
    let here := s.file.toText ++ ':' :: Text.ofInt s.startLine ++ ':' :: Text.ofInt s.column
    return (d.set "message" (message.replaceAll file here)).set "file" s.file.toText

/-- The draft of a report on a file of the sample directory. -/
def resolveSample (d : Draft) (file : Text) : Except Failure Draft :=
  match r.sampleAt? file with
  | some s => placeInSample d file s
  | none => .ok d

/-- The draft of a report on a file that may be marked. -/
def resolveMark (d : Draft) (file : Text) (offset : Offset) : Except Failure Draft :=
  match Reference.whole.matchStart file with
  | none => .ok d
  | some m => do
    let line := ((integer? d "line").getD 0) + (← Reference.readNumber (m.get "start")) + offset.line
    let d := d.set "line" (← Reference.writeNumber line)
    match integer? d "column" with
    | some column =>
      let column := column + offset.column + commentWidth (m.get "file")
      return d.set "column" (← Reference.writeNumber column)
    | none => return d

/-- The draft with the place of its report in its document. -/
def resolveFields (d : Draft) (offset : Offset) : Except Failure Draft :=
  match d.get? "file" with
  | none => .ok d
  | some value => do
    let file ← FileUrl.path value
    let d := d.set "file" file
    if r.isInSampleDir file then r.resolveSample d file else resolveMark d file offset

/-! ## The message -/

/-- A character of the name of a sample file. -/
def inSampleName (c : Char) : Bool :=
  !Text.isBlank c && c != ':' && c != '/' && c != '\\'

/-- The paths of sample files. -/
def samplePath (root : Text) : Pattern :=
  .seq (.literal root) (.some1 .greedy inSampleName)

/-- The message with references in the place of the paths of known sample files. -/
def nameSamples (message : Text) : Text :=
  match r.sampleRoot? with
  | none => message
  | some root =>
    (samplePath root).substitute
      (fun m => (r.sampleAt? m.text).elim m.text Sample.reference) message

/-- The line and the column that a reference in a message stands for. -/
def placeOf (m : Match) (offset : Offset) (current : Option Path) : Except Failure (Int × Int) := do
  let file := m.get "file"
  let line ← Reference.readNumber (m.get "line")
  let column ← Reference.readNumber (m.get "column")
  let start ← Reference.readNumber (m.get "start")
  let document ← r.absolute file
  match r.sampleFrom? document start with
  | some s => return (line + s.startLine, column + s.column - 1)
  | none =>
    let width := if some document = current then commentWidth file else 0
    return (line + start + offset.line, column + offset.embeddedColumn + width)

/-- A reference in a message without its mark and with the place that it stands for. -/
def unmark (offset : Offset) (current : Option Path) (m : Match) : Except Failure Text := do
  let (line, column) ← r.placeOf m offset current
  let line ← Reference.writeNumber line
  let column ← Reference.writeNumber column
  return m.get "url" ++ m.get "a1" ++ ':' :: m.get "a2" ++ line ++ m.get "a3" ++
    ':' :: m.get "a4" ++ column

/-- The message with places of documents in the place of references. The width of a comment's
asterisk counts only for references to the document `current` that the report is on. -/
def resolveMessage (message : Text) (offset : Offset) (current : Option Text) : Except Failure Text := do
  let current ← current.mapM r.absolute
  Reference.embedded.substituteM (r.unmark offset current) (r.nameSamples message)

/-! ## The draft -/

/-- The spelling under which a file was requested, or its own. -/
def displayName (file : Text) : Except Failure Text := do
  return (r.displayNames.get? (← r.absolute file)).getD file

/-- The draft with all its locations brought back to documents. -/
def resolve (d : Draft) : Except Failure Draft := do
  let offset := r.offset (← d.kind)
  let d ← r.resolveFields d offset
  let current := (d.get? "file").map Reference.unmarked
  let d := d.set "message" (← r.resolveMessage (← d.message) offset current)
  match current with
  | some file => return d.set "file" (← r.displayName file)
  | none => return d

/-- The fields that say where and what. -/
def placed : List String :=
  ["file", "line", "column", "message"]

theorem get?_placeInSample {d e : Draft} {file : Text} {s : Sample}
    (h : placeInSample d file s = .ok e) {name : String} (hn : name ∉ placed) :
    e.get? name = d.get? name := by
  simp only [placed, List.mem_cons, List.not_mem_nil, or_false, not_or] at hn
  obtain ⟨hf, hl, hc, hm⟩ := hn
  obtain ⟨message, _, h⟩ := bind_eq_ok.1 h
  split at h
  · obtain ⟨line, _, h⟩ := bind_eq_ok.1 h
    obtain ⟨column, _, h⟩ := bind_eq_ok.1 h
    cases h
    rw [Keyed.get?_set_of_ne _ _ hf, Keyed.get?_set_of_ne _ _ hc, Keyed.get?_set_of_ne _ _ hl,
      Keyed.get?_set_of_ne _ _ hm]
  · cases h
    rw [Keyed.get?_set_of_ne _ _ hf, Keyed.get?_set_of_ne _ _ hm]

theorem get?_resolveMark {d e : Draft} {file : Text} {offset : Offset}
    (h : resolveMark d file offset = .ok e) {name : String} (hn : name ∉ placed) :
    e.get? name = d.get? name := by
  simp only [placed, List.mem_cons, List.not_mem_nil, or_false, not_or] at hn
  obtain ⟨_, hl, hc, _⟩ := hn
  unfold resolveMark at h
  split at h
  · cases h
    rfl
  · obtain ⟨start, _, h⟩ := bind_eq_ok.1 h
    obtain ⟨line, _, h⟩ := bind_eq_ok.1 h
    dsimp only at h
    split at h
    · obtain ⟨column, _, h⟩ := bind_eq_ok.1 h
      cases h
      rw [Keyed.get?_set_of_ne _ _ hc, Keyed.get?_set_of_ne _ _ hl]
    · cases h
      rw [Keyed.get?_set_of_ne _ _ hl]

theorem get?_resolveFields {d e : Draft} {offset : Offset} (h : r.resolveFields d offset = .ok e)
    {name : String} (hn : name ∉ placed) : e.get? name = d.get? name := by
  have hf : name ≠ "file" := fun he => hn (by simp [placed, he])
  unfold resolveFields at h
  split at h
  · cases h
    rfl
  · obtain ⟨file, _, h⟩ := bind_eq_ok.1 h
    split at h
    · unfold resolveSample at h
      split at h
      · rw [get?_placeInSample h hn, Keyed.get?_set_of_ne _ _ hf]
      · cases h
        rw [Keyed.get?_set_of_ne _ _ hf]
    · rw [get?_resolveMark h hn, Keyed.get?_set_of_ne _ _ hf]

/-- **No other field changes.** -/
theorem resolve_get?_of_ne {d e : Draft} (h : r.resolve d = .ok e) {name : String}
    (hn : name ∉ placed) : e.get? name = d.get? name := by
  have hf : name ≠ "file" := fun he => hn (by simp [placed, he])
  have hm : name ≠ "message" := fun he => hn (by simp [placed, he])
  obtain ⟨kind, _, h⟩ := bind_eq_ok.1 h
  obtain ⟨fields, hfields, h⟩ := bind_eq_ok.1 h
  obtain ⟨message, _, h⟩ := bind_eq_ok.1 h
  obtain ⟨resolved, _, h⟩ := bind_eq_ok.1 h
  rw [← r.get?_resolveFields hfields hn]
  split at h
  · obtain ⟨file, _, h⟩ := bind_eq_ok.1 h
    cases h
    rw [Keyed.get?_set_of_ne _ _ hf, Keyed.get?_set_of_ne _ _ hm]
  · cases h
    rw [Keyed.get?_set_of_ne _ _ hm]

/-- What is logged while a draft is resolved: a sample file that nothing is known of. -/
def notices (d : Draft) : List Event :=
  match d.kind, (d.get? "file").map FileUrl.path with
  | .ok _, some (.ok file) =>
    if r.isInSampleDir file && (r.sampleAt? file).isNone then
      [.logged .warning .locations ("No code sample recorded for ".toList ++ file)]
    else []
  | _, _ => []

end Resolver

end Fenceline
