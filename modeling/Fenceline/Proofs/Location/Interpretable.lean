import Fenceline.Location.Resolver
import Fenceline.Proofs.Outcome
import Fenceline.Proofs.Pattern.Reading
import Mathlib.Algebra.Group.Nat.Defs

/-!
# What can be interpreted

What a report says about places is read and written again: a file URL leads to a path or its authority is
none, a numeral is short enough to be read or not, a number is short enough to be written or not, and a path
holds the null character or not. For each step of bringing back a report this says when it has a result, and
that it fails for no other reason (`Failure.IsUninterpreted`).

**The laws.** `succeeds_resolveFields_iff`: the fields are brought back just if the file can be interpreted.
`succeeds_resolveMessage_iff`: a message is brought back just if all the references in it can be.
-/

namespace Fenceline

/-! ## Numbers, URLs and paths -/

/-- **A value that cannot be interpreted.** -/
def Failure.IsUninterpreted : Failure → Prop
  | .badUrl _ | .longNumeral _ | .longNumber | .nullInPath => True
  | _ => False

namespace Reference

/-- A number that is short enough to be written. -/
def Writable (n : Int) : Prop :=
  n.natAbs < 10 ^ Text.maxDigits

/-- A numeral that is short enough to be read. -/
def Readable (t : Text) : Prop :=
  t.length ≤ Text.maxDigits

instance (t : Text) : Decidable (Readable t) :=
  inferInstanceAs (Decidable (t.length ≤ Text.maxDigits))

theorem succeeds_readNumber_iff {t : Text} : Succeeds (readNumber t) ↔ Readable t := by
  unfold readNumber Readable
  split
  · rename_i h
    exact ⟨fun _ => h, fun _ => succeeds_ok _⟩
  · rename_i h
    exact ⟨fun hs => absurd hs (not_succeeds_error _), fun hr => absurd hr h⟩

theorem readNumber_eq {t : Text} (h : Readable t) : readNumber t = .ok (Text.valueOfDigits t) :=
  if_pos h

theorem succeeds_writeNumber_iff {n : Int} : Succeeds (writeNumber n) ↔ Writable n := by
  have hlength : (Text.ofNat n.natAbs).length ≤ Text.maxDigits ↔ Writable n :=
    Nat.length_toDigits_le_iff (by decide) (by decide)
  rw [← hlength]
  unfold writeNumber
  dsimp only
  split
  · rename_i h
    exact ⟨fun _ => h, fun _ => succeeds_ok _⟩
  · rename_i h
    exact ⟨fun hs => absurd hs (not_succeeds_error _), fun hr => absurd hr h⟩

theorem failsWith_readNumber (t : Text) : FailsWith Failure.IsUninterpreted (readNumber t) := by
  unfold readNumber
  split
  · exact failsWith_ok _
  · exact failsWith_error trivial

theorem failsWith_writeNumber (n : Int) : FailsWith Failure.IsUninterpreted (writeNumber n) := by
  unfold writeNumber
  dsimp only
  split
  · exact failsWith_ok _
  · exact failsWith_error trivial

end Reference

namespace FileUrl

/-- What stands before the path of a file URL. -/
def authority (rest : Text) : Text :=
  (rest.filter fun c => c != '\t' && c != '\r' && c != '\n').takeWhile (!endsAuthority ·)

/-- **A file URL that leads to a path**, or another value. -/
def Leads (value : Text) : Prop :=
  ∀ rest, value = scheme ++ rest → authorityFault? (authority rest) = none

theorem path_scheme (rest : Text) : path (scheme ++ rest) = pathBehindScheme rest := by
  rw [path, Text.cutPrefix?_eq_some_iff.2 rfl]

theorem succeeds_path_iff {value : Text} : Succeeds (path value) ↔ Leads value := by
  by_cases hscheme : scheme <+: value
  · obtain ⟨rest, rfl⟩ := hscheme
    have hleads : Leads (scheme ++ rest) ↔ authorityFault? (authority rest) = none :=
      ⟨fun h => h rest rfl, fun h rest' hrest => List.append_cancel_left hrest ▸ h⟩
    rw [hleads, path_scheme, pathBehindScheme]
    dsimp only
    rw [← authority]
    cases authorityFault? (authority rest) with
    | none => exact ⟨fun _ => rfl, fun _ => succeeds_ok _⟩
    | some fault => exact ⟨fun h => absurd h (not_succeeds_error _), fun h => by cases h⟩
  · rw [path_of_not_url hscheme]
    exact ⟨fun _ rest hrest => absurd ⟨rest, hrest.symm⟩ hscheme, fun _ => succeeds_ok _⟩

theorem failsWith_path (value : Text) : FailsWith Failure.IsUninterpreted (path value) := by
  unfold path pathBehindScheme
  split
  · dsimp only
    split
    · exact failsWith_error trivial
    · exact failsWith_ok _
  · exact failsWith_ok _

end FileUrl

namespace Resolver

variable {r : Resolver} {d e : Draft} {offset : Offset} {file message : Text} {current : Option Path}

/-- **A path without the null character**, seen from where relative paths begin. -/
def Locatable (r : Resolver) (file : Text) : Prop :=
  (r.cwd.join (Path.ofText file)).hasNull = false

instance (r : Resolver) (file : Text) : Decidable (r.Locatable file) :=
  inferInstanceAs (Decidable ((r.cwd.join (Path.ofText file)).hasNull = false))

theorem succeeds_absolute_iff : Succeeds (r.absolute file) ↔ r.Locatable file := by
  unfold absolute Locatable
  dsimp only
  cases (r.cwd.join (Path.ofText file)).hasNull with
  | true => exact ⟨fun h => absurd h (not_succeeds_error _), fun h => by cases h⟩
  | false => exact ⟨fun _ => rfl, fun _ => succeeds_ok _⟩

theorem failsWith_absolute (r : Resolver) (file : Text) :
    FailsWith Failure.IsUninterpreted (r.absolute file) := by
  unfold absolute
  dsimp only
  split
  · exact failsWith_error trivial
  · exact failsWith_ok _

/-! ## The fields -/

theorem integer?_set_of_ne (d : Draft) (value : Text) {name other : String} (h : other ≠ name) :
    integer? (d.set name value) other = integer? d other := by
  rw [integer?, integer?, Keyed.get?_set_of_ne _ _ h]

/-- The line and the column of a report on a sample can be written for its document. -/
def SampleInterpretable (line? column? : Option Int) (s : Sample) : Prop :=
  ∀ line column, line? = some line → column? = some column →
    Reference.Writable (line + s.startLine) ∧ Reference.Writable (column + s.column - 1)

/-- **The mark of a file can be read**, and what is counted from it can be written. -/
structure MarkInterpretable (line? column? : Option Int) (offset : Offset) (m : Match) : Prop where
  start : Reference.Readable (m.get "start")
  line : Reference.Writable (line?.getD 0 + Text.valueOfDigits (m.get "start") + offset.line)
  column : ∀ column, column? = some column →
    Reference.Writable (column + offset.column + commentWidth (m.get "file"))

theorem succeeds_placeInSample_iff {s : Sample} (hmessage : Succeeds d.message) :
    Succeeds (placeInSample d file s) ↔ SampleInterpretable (integer? d "line") (integer? d "column") s := by
  obtain ⟨message, hmessage⟩ := hmessage
  unfold placeInSample SampleInterpretable
  simp only [← Reference.succeeds_writeNumber_iff]
  constructor
  · intro h line column hl hc
    obtain ⟨_, _, h⟩ := succeeds_bind_iff.1 h
    rw [hl, hc] at h
    obtain ⟨line', hline, h⟩ := succeeds_bind_iff.1 h
    obtain ⟨column', hcolumn, _⟩ := succeeds_bind_iff.1 h
    exact ⟨⟨line', hline⟩, column', hcolumn⟩
  · intro h
    refine succeeds_bind_iff.2 ⟨message, hmessage, ?_⟩
    split
    · rename_i line column hl hc
      obtain ⟨⟨line', hline⟩, column', hcolumn⟩ := h line column hl hc
      exact succeeds_bind_iff.2 ⟨line', hline, succeeds_bind_iff.2 ⟨column', hcolumn, succeeds_ok _⟩⟩
    · exact succeeds_ok _

theorem failsWith_placeInSample {s : Sample} (hmessage : Succeeds d.message) :
    FailsWith Failure.IsUninterpreted (placeInSample d file s) := by
  obtain ⟨message, hmessage⟩ := hmessage
  unfold placeInSample
  rw [hmessage]
  refine (failsWith_ok message).bind fun _ _ => ?_
  split
  · exact (Reference.failsWith_writeNumber _).bind fun _ _ =>
      (Reference.failsWith_writeNumber _).bind fun _ _ => failsWith_ok _
  · exact failsWith_ok _

theorem succeeds_resolveMark_iff :
    Succeeds (resolveMark d file offset) ↔
      ∀ m, Reference.whole.matchStart file = some m → MarkInterpretable (integer? d "line") (integer? d "column") offset m := by
  unfold resolveMark
  cases hm : Reference.whole.matchStart file with
  | none => exact ⟨fun _ _ h => (nomatch h), fun _ => succeeds_ok _⟩
  | some m =>
    simp only [Option.some.injEq, forall_eq']
    constructor
    · intro h
      obtain ⟨start, hstart, h⟩ := succeeds_bind_iff.1 h
      have hreadable := Reference.succeeds_readNumber_iff.1 ⟨start, hstart⟩
      rw [Reference.readNumber_eq hreadable] at hstart
      obtain rfl := Except.ok.inj hstart
      obtain ⟨line, hline, h⟩ := succeeds_bind_iff.1 h
      refine ⟨hreadable, Reference.succeeds_writeNumber_iff.1 ⟨line, hline⟩, fun column hc => ?_⟩
      rw [integer?_set_of_ne _ _ (by decide), hc] at h
      obtain ⟨column', hcolumn, -⟩ := succeeds_bind_iff.1 h
      exact Reference.succeeds_writeNumber_iff.1 ⟨column', hcolumn⟩
    · rintro ⟨hreadable, hline, hcolumn⟩
      obtain ⟨line, hline⟩ := Reference.succeeds_writeNumber_iff.2 hline
      refine succeeds_bind_iff.2 ⟨_, Reference.readNumber_eq hreadable,
        succeeds_bind_iff.2 ⟨line, hline, ?_⟩⟩
      rw [integer?_set_of_ne _ _ (by decide)]
      split
      · rename_i column hc
        obtain ⟨column', hcolumn⟩ := Reference.succeeds_writeNumber_iff.2 (hcolumn column hc)
        exact succeeds_bind_iff.2 ⟨column', hcolumn, succeeds_ok _⟩
      · exact succeeds_ok _

theorem failsWith_resolveMark (d : Draft) (file : Text) (offset : Offset) :
    FailsWith Failure.IsUninterpreted (resolveMark d file offset) := by
  unfold resolveMark
  split
  · exact failsWith_ok _
  · refine (Reference.failsWith_readNumber _).bind fun _ _ =>
      (Reference.failsWith_writeNumber _).bind fun _ _ => ?_
    dsimp only
    split
    · exact (Reference.failsWith_writeNumber _).bind fun _ _ => failsWith_ok _
    · exact failsWith_ok _

theorem succeeds_resolveSample_iff (hmessage : Succeeds d.message) :
    Succeeds (r.resolveSample d file) ↔ ∀ s, r.sampleAt? file = some s → SampleInterpretable (integer? d "line") (integer? d "column") s := by
  unfold resolveSample
  cases r.sampleAt? file with
  | none => exact ⟨fun _ _ h => (nomatch h), fun _ => succeeds_ok _⟩
  | some s =>
    simp only [Option.some.injEq, forall_eq']
    exact succeeds_placeInSample_iff hmessage

/-- **The file of a report can be interpreted**, and what is counted from the place that it tells of can be
written. -/
structure FileInterpretable (r : Resolver) (d : Draft) (offset : Offset) (value : Text) : Prop where
  url : FileUrl.Leads value
  sample : ∀ file, FileUrl.path value = .ok file → r.isInSampleDir file = true →
    ∀ s, r.sampleAt? file = some s → SampleInterpretable (integer? d "line") (integer? d "column") s
  mark : ∀ file, FileUrl.path value = .ok file → r.isInSampleDir file = false →
    ∀ m, Reference.whole.matchStart file = some m → MarkInterpretable (integer? d "line") (integer? d "column") offset m

theorem succeeds_message_set (d : Draft) (value : Text) {name : String} (h : "message" ≠ name) :
    Succeeds (Draft.message (d.set name value)) ↔ Succeeds d.message := by
  rw [Draft.message, Draft.message, Draft.need, Draft.need, Keyed.get?_set_of_ne _ _ h]

theorem succeeds_resolveFields_iff (hmessage : Succeeds d.message) :
    Succeeds (r.resolveFields d offset) ↔
      ∀ value, d.get? "file" = some value → r.FileInterpretable d offset value := by
  unfold resolveFields
  cases hvalue : d.get? "file" with
  | none => exact ⟨fun _ _ h => (nomatch h), fun _ => succeeds_ok _⟩
  | some value =>
    simp only [Option.some.injEq, forall_eq']
    rw [succeeds_bind_iff]
    have hrest : ∀ file, Succeeds (if r.isInSampleDir file then r.resolveSample (d.set "file" file) file
          else resolveMark (d.set "file" file) file offset) ↔
        (r.isInSampleDir file = true → ∀ s, r.sampleAt? file = some s → SampleInterpretable (integer? d "line") (integer? d "column") s) ∧
          (r.isInSampleDir file = false → ∀ m, Reference.whole.matchStart file = some m →
            MarkInterpretable (integer? d "line") (integer? d "column") offset m) := by
      intro file
      have hline := integer?_set_of_ne d file (by decide : "line" ≠ "file")
      have hcolumn := integer?_set_of_ne d file (by decide : "column" ≠ "file")
      cases r.isInSampleDir file with
      | true =>
        rw [if_pos rfl, succeeds_resolveSample_iff ((succeeds_message_set d file (by decide)).2 hmessage)]
        simp only [hline, hcolumn, forall_const, reduceCtorEq, false_implies, and_true]
      | false =>
        rw [if_neg Bool.false_ne_true, succeeds_resolveMark_iff]
        simp only [hline, hcolumn, forall_const, reduceCtorEq, false_implies, true_and]
    constructor
    · rintro ⟨file, hpath, h⟩
      obtain ⟨hsample, hmark⟩ := (hrest file).1 h
      refine ⟨FileUrl.succeeds_path_iff.1 ⟨file, hpath⟩, ?_, ?_⟩
      · intro file' hpath'
        obtain rfl := Except.ok.inj (hpath.symm.trans hpath')
        exact hsample
      · intro file' hpath'
        obtain rfl := Except.ok.inj (hpath.symm.trans hpath')
        exact hmark
    · rintro ⟨hurl, hsample, hmark⟩
      obtain ⟨file, hpath⟩ := FileUrl.succeeds_path_iff.2 hurl
      exact ⟨file, hpath, (hrest file).2 ⟨hsample file hpath, hmark file hpath⟩⟩

theorem failsWith_resolveFields (r : Resolver) (hmessage : Succeeds d.message) (offset : Offset) :
    FailsWith Failure.IsUninterpreted (r.resolveFields d offset) := by
  unfold resolveFields
  split
  · exact failsWith_ok _
  · refine (FileUrl.failsWith_path _).bind fun file _ => ?_
    dsimp only
    split
    · unfold resolveSample
      split
      · exact failsWith_placeInSample ((succeeds_message_set d file (by decide)).2 hmessage)
      · exact failsWith_ok _
    · exact failsWith_resolveMark _ _ _

/-! ## The message -/

/-- **A reference in a message can be interpreted**, and the place that it stands for can be written. -/
structure ReferenceInterpretable (r : Resolver) (offset : Offset) (current : Option Path) (m : Match) :
    Prop where
  numbers : ∀ name ∈ ["line", "column", "start"], Reference.Readable (m.get name)
  document : r.Locatable (m.get "file")
  place : ∀ place, r.placeOf m offset current = .ok place →
    Reference.Writable place.1 ∧ Reference.Writable place.2

theorem succeeds_placeOf_iff {m : Match} :
    Succeeds (r.placeOf m offset current) ↔
      (∀ name ∈ ["line", "column", "start"], Reference.Readable (m.get name)) ∧
        r.Locatable (m.get "file") := by
  unfold placeOf
  simp only [List.forall_mem_cons, List.not_mem_nil, false_implies, implies_true, and_true,
    ← Reference.succeeds_readNumber_iff, ← succeeds_absolute_iff]
  constructor
  · intro h
    obtain ⟨line, hline, h⟩ := succeeds_bind_iff.1 h
    obtain ⟨column, hcolumn, h⟩ := succeeds_bind_iff.1 h
    obtain ⟨start, hstart, h⟩ := succeeds_bind_iff.1 h
    obtain ⟨document, hdocument, -⟩ := succeeds_bind_iff.1 h
    exact ⟨⟨⟨line, hline⟩, ⟨column, hcolumn⟩, ⟨start, hstart⟩⟩, ⟨document, hdocument⟩⟩
  · rintro ⟨⟨⟨line, hline⟩, ⟨column, hcolumn⟩, ⟨start, hstart⟩⟩, ⟨document, hdocument⟩⟩
    refine succeeds_bind_iff.2 ⟨line, hline, succeeds_bind_iff.2 ⟨column, hcolumn,
      succeeds_bind_iff.2 ⟨start, hstart, succeeds_bind_iff.2 ⟨document, hdocument, ?_⟩⟩⟩⟩
    split
    · exact succeeds_ok _
    · exact succeeds_ok _

theorem failsWith_placeOf (r : Resolver) (offset : Offset) (current : Option Path) (m : Match) :
    FailsWith Failure.IsUninterpreted (r.placeOf m offset current) := by
  unfold placeOf
  refine (Reference.failsWith_readNumber _).bind fun _ _ => (Reference.failsWith_readNumber _).bind
    fun _ _ => (Reference.failsWith_readNumber _).bind fun _ _ => (failsWith_absolute r _).bind fun _ _ => ?_
  split
  · exact failsWith_ok _
  · exact failsWith_ok _

theorem succeeds_unmark_iff {m : Match} :
    Succeeds (r.unmark offset current m) ↔ r.ReferenceInterpretable offset current m := by
  unfold unmark
  constructor
  · intro h
    obtain ⟨⟨line, column⟩, hplace, h⟩ := succeeds_bind_iff.1 h
    obtain ⟨line', hline, h⟩ := succeeds_bind_iff.1 h
    obtain ⟨column', hcolumn, -⟩ := succeeds_bind_iff.1 h
    obtain ⟨hnumbers, hdocument⟩ := succeeds_placeOf_iff.1 ⟨_, hplace⟩
    refine ⟨hnumbers, hdocument, fun place hplace' => ?_⟩
    obtain rfl := Except.ok.inj (hplace.symm.trans hplace')
    exact ⟨Reference.succeeds_writeNumber_iff.1 ⟨line', hline⟩,
      Reference.succeeds_writeNumber_iff.1 ⟨column', hcolumn⟩⟩
  · rintro ⟨hnumbers, hdocument, hwritable⟩
    obtain ⟨place, hplace⟩ := succeeds_placeOf_iff.2 ⟨hnumbers, hdocument⟩
    obtain ⟨hline, hcolumn⟩ := hwritable place hplace
    obtain ⟨line', hline⟩ := Reference.succeeds_writeNumber_iff.2 hline
    obtain ⟨column', hcolumn⟩ := Reference.succeeds_writeNumber_iff.2 hcolumn
    exact succeeds_bind_iff.2 ⟨place, hplace, succeeds_bind_iff.2 ⟨line', hline,
      succeeds_bind_iff.2 ⟨column', hcolumn, succeeds_ok _⟩⟩⟩

theorem failsWith_unmark (r : Resolver) (offset : Offset) (current : Option Path) (m : Match) :
    FailsWith Failure.IsUninterpreted (r.unmark offset current m) :=
  (failsWith_placeOf r offset current m).bind fun _ _ => (Reference.failsWith_writeNumber _).bind
    fun _ _ => (Reference.failsWith_writeNumber _).bind fun _ _ => failsWith_ok _

/-- **A message can be interpreted**: all references in it, and the file that its report is on. -/
structure MessageInterpretable (r : Resolver) (message : Text) (offset : Offset) (current : Option Text) :
    Prop where
  document : ∀ file, current = some file → r.Locatable file
  references : ∀ document, current.mapM r.absolute = .ok document →
    ∀ m, .hit m ∈ Reference.embedded.segments (r.nameSamples message) →
      r.ReferenceInterpretable offset document m

theorem succeeds_mapM_absolute_iff {current : Option Text} :
    Succeeds (current.mapM r.absolute) ↔ ∀ file, current = some file → r.Locatable file := by
  cases current with
  | none => exact ⟨fun _ _ h => (nomatch h), fun _ => succeeds_ok none⟩
  | some file =>
    simp only [Option.some.injEq, forall_eq', ← succeeds_absolute_iff, Option.mapM_some]
    constructor
    · rintro ⟨document, h⟩
      cases habsolute : r.absolute file with
      | ok place => exact succeeds_ok place
      | error failure =>
        rw [habsolute] at h
        cases h
    · rintro ⟨document, h⟩
      exact ⟨some document, by rw [h]; rfl⟩

theorem failsWith_mapM_absolute (r : Resolver) (current : Option Text) :
    FailsWith Failure.IsUninterpreted (current.mapM r.absolute) := by
  cases current with
  | none => exact failsWith_ok _
  | some file =>
    intro failure h
    rw [Option.mapM_some] at h
    cases habsolute : r.absolute file with
    | ok place =>
      rw [habsolute] at h
      cases h
    | error failure' =>
      rw [habsolute] at h
      cases h
      exact failsWith_absolute r file _ habsolute

theorem succeeds_substituteM_iff {p : Pattern} {put : Match → Except Failure Text} {t : Text} :
    Succeeds (p.substituteM put t) ↔ ∀ m, .hit m ∈ p.segments t → Succeeds (put m) := by
  have hput : Succeeds (p.substituteM put t) ↔ Succeeds ((p.segments t).mapM (Pattern.putPart put)) := by
    rw [Pattern.substituteM_eq]
    exact succeeds_bind_iff.trans ⟨fun ⟨parts, h, _⟩ => ⟨parts, h⟩, fun ⟨parts, h⟩ => ⟨parts, h, succeeds_ok _⟩⟩
  rw [hput, succeeds_mapM_iff]
  constructor
  · intro h m hm
    exact h _ hm
  · intro h part hpart
    cases part with
    | plain x => exact succeeds_ok [x]
    | hit m => exact h m hpart

theorem succeeds_resolveMessage_iff {current : Option Text} :
    Succeeds (r.resolveMessage message offset current) ↔ r.MessageInterpretable message offset current := by
  unfold resolveMessage
  rw [succeeds_bind_iff]
  simp only [succeeds_substituteM_iff, succeeds_unmark_iff]
  constructor
  · rintro ⟨document, hdocument, h⟩
    refine ⟨succeeds_mapM_absolute_iff.1 ⟨document, hdocument⟩, fun document' hdocument' => ?_⟩
    obtain rfl := Except.ok.inj (hdocument.symm.trans hdocument')
    exact h
  · rintro ⟨hcurrent, hreferences⟩
    obtain ⟨document, hdocument⟩ := succeeds_mapM_absolute_iff.2 hcurrent
    exact ⟨document, hdocument, hreferences document hdocument⟩

theorem failsWith_resolveMessage (r : Resolver) (message : Text) (offset : Offset) (current : Option Text) :
    FailsWith Failure.IsUninterpreted (r.resolveMessage message offset current) := by
  refine (failsWith_mapM_absolute r current).bind fun document _ => ?_
  rw [Pattern.substituteM_eq]
  refine (failsWith_mapM fun part _ => ?_).bind fun _ _ => failsWith_ok _
  cases part with
  | plain x => exact failsWith_ok [x]
  | hit m => exact failsWith_unmark r offset document m

end Resolver

end Fenceline
