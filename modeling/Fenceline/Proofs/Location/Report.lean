import Fenceline.Proofs.Location.Interpretable

/-!
# Which reports are brought back

A report is brought back to its document unless something in it cannot be interpreted and is not left as
it is either: a file URL whose authority is none, a numeral that is too long to be read, a number that is
too long to be written, and the null character in a path. What is no integer, in contrast, is left as it is,
but for a line where the file has a mark to count from.

**The law** (`resolve_interpretable`): a report is brought back just if none of these stands in a place that
is looked at (`Interpretable`), and nothing else keeps it from being brought back.
-/

namespace Fenceline

namespace Resolver

variable {r : Resolver} {d e : Draft} {offset : Offset}

/-! ## What the fields become -/

/-- **What the fields of a report become.** -/
inductive Becomes (r : Resolver) (d : Draft) : Draft → Prop where
  /-- A report without a file. -/
  | nowhere : d.get? "file" = none → r.Becomes d d
  /-- The file tells of no place: a sample file of which nothing is known, or a path without a mark. -/
  | plain {value file : Text} : d.get? "file" = some value → FileUrl.path value = .ok file →
    (r.isInSampleDir file = true → r.sampleAt? file = none) →
    (r.isInSampleDir file = false → Reference.whole.matchStart file = none) →
    r.Becomes d (d.set "file" file)
  /-- A place in a sample. -/
  | inSample {value file message line' column' : Text} {s : Sample} {line column : Int} :
    d.get? "file" = some value → FileUrl.path value = .ok file → r.isInSampleDir file = true →
    r.sampleAt? file = some s → integer? d "line" = some line → integer? d "column" = some column →
    r.Becomes d (((((d.set "file" file).set "message" message).set "line" line').set "column" column').set
      "file" s.file.toText)
  /-- A sample, but no place in it. -/
  | ofSample {value file message : Text} {s : Sample} :
    d.get? "file" = some value → FileUrl.path value = .ok file → r.isInSampleDir file = true →
    r.sampleAt? file = some s →
    (∀ line column, integer? d "line" = some line → integer? d "column" ≠ some column) →
    r.Becomes d (((d.set "file" file).set "message" message).set "file" s.file.toText)
  /-- A line that is counted from a mark. -/
  | markedLine {value file line' : Text} {m : Match} :
    d.get? "file" = some value → FileUrl.path value = .ok file → r.isInSampleDir file = false →
    Reference.whole.matchStart file = some m → integer? d "column" = none →
    r.Becomes d ((d.set "file" file).set "line" line')
  /-- A line and a column that are counted from a mark. -/
  | marked {value file line' column' : Text} {m : Match} {column : Int} :
    d.get? "file" = some value → FileUrl.path value = .ok file → r.isInSampleDir file = false →
    Reference.whole.matchStart file = some m → integer? d "column" = some column →
    r.Becomes d (((d.set "file" file).set "line" line').set "column" column')

/-- A file of the sample directory becomes the document of its sample, with its place if it has one. -/
theorem becomes_of_resolveSample {value file : Text} (hvalue : d.get? "file" = some value)
    (hpath : FileUrl.path value = .ok file) (hinside : r.isInSampleDir file = true)
    (h : r.resolveSample (d.set "file" file) file = .ok e) : r.Becomes d e := by
  unfold resolveSample at h
  split at h
  · rename_i s hsample
    obtain ⟨message, _, h⟩ := bind_eq_ok.1 h
    rw [integer?_set_of_ne d file (by decide : "line" ≠ "file"),
      integer?_set_of_ne d file (by decide : "column" ≠ "file")] at h
    split at h
    · rename_i line column hl hc
      obtain ⟨line', _, h⟩ := bind_eq_ok.1 h
      obtain ⟨column', _, h⟩ := bind_eq_ok.1 h
      cases h
      exact .inSample hvalue hpath hinside hsample hl hc
    · rename_i hnone
      cases h
      exact .ofSample hvalue hpath hinside hsample fun line column hl hc => hnone line column hl hc
  · rename_i hsample
    cases h
    exact .plain hvalue hpath (fun _ => hsample) fun houtside => absurd hinside (by simp [houtside])

/-- Any other file stays, and if it has a mark, the line and the column are counted from there. -/
theorem becomes_of_resolveMark {value file : Text} (hvalue : d.get? "file" = some value)
    (hpath : FileUrl.path value = .ok file) (houtside : r.isInSampleDir file = false)
    (h : resolveMark (d.set "file" file) file offset = .ok e) : r.Becomes d e := by
  unfold resolveMark at h
  split at h
  · rename_i hm
    cases h
    exact .plain hvalue hpath (fun hinside => absurd hinside (by simp [houtside])) fun _ => hm
  · rename_i m hm
    obtain ⟨start, _, h⟩ := bind_eq_ok.1 h
    obtain ⟨line', _, h⟩ := bind_eq_ok.1 h
    dsimp only at h
    rw [integer?_set_of_ne _ _ (by decide : "column" ≠ "line"),
      integer?_set_of_ne d file (by decide : "column" ≠ "file")] at h
    split at h
    · rename_i column hc
      obtain ⟨column', _, h⟩ := bind_eq_ok.1 h
      cases h
      exact .marked hvalue hpath houtside hm hc
    · rename_i hc
      cases h
      exact .markedLine hvalue hpath houtside hm hc

/-- **Whatever the fields become**, they become it in one of these ways. -/
theorem becomes_of_resolveFields (h : r.resolveFields d offset = .ok e) : r.Becomes d e := by
  unfold resolveFields at h
  split at h
  · rename_i hvalue
    cases h
    exact .nowhere hvalue
  · rename_i value hvalue
    obtain ⟨file, hpath, h⟩ := bind_eq_ok.1 h
    dsimp only at h
    split at h
    · exact becomes_of_resolveSample hvalue hpath ‹_› h
    · exact becomes_of_resolveMark hvalue hpath (Bool.eq_false_iff.2 ‹_›) h

/-- A report keeps a message. -/
theorem Becomes.succeeds_message (h : r.Becomes d e) (hmessage : Succeeds d.message) : Succeeds e.message := by
  have hset : ∀ {d : Draft} (value : Text), Succeeds (Draft.message (d.set "message" value)) := fun {d} value =>
    ⟨value, by rw [Draft.message, Draft.need, Keyed.get?_set_self]⟩
  cases h with
  | nowhere => exact hmessage
  | plain => exact (succeeds_message_set _ _ (by decide)).2 hmessage
  | inSample =>
    refine (succeeds_message_set _ _ (by decide)).2 ((succeeds_message_set _ _ (by decide)).2 ?_)
    exact (succeeds_message_set _ _ (by decide)).2 (hset _)
  | ofSample => exact (succeeds_message_set _ _ (by decide)).2 (hset _)
  | markedLine =>
    exact (succeeds_message_set _ _ (by decide)).2 ((succeeds_message_set _ _ (by decide)).2 hmessage)
  | marked =>
    refine (succeeds_message_set _ _ (by decide)).2 ((succeeds_message_set _ _ (by decide)).2 ?_)
    exact (succeeds_message_set _ _ (by decide)).2 hmessage

/-- **The steps in which a report is brought back**: its fields, its message, and the spelling of its file. -/
theorem exists_of_resolve (h : r.resolve d = .ok e) : ∃ kind fields said message,
    d.kind = .ok kind ∧ r.resolveFields d (r.offset kind) = .ok fields ∧ fields.message = .ok said ∧
      r.resolveMessage said (r.offset kind) ((fields.get? "file").map Reference.unmarked) = .ok message ∧
      (fields.get? "file" = none ∧ e = fields.set "message" message ∨
        ∃ file shown, fields.get? "file" = some file ∧ r.displayName (Reference.unmarked file) = .ok shown ∧
          e = (fields.set "message" message).set "file" shown) := by
  obtain ⟨kind, hkind, h⟩ := bind_eq_ok.1 h
  obtain ⟨fields, hfields, h⟩ := bind_eq_ok.1 h
  obtain ⟨said, hsaid, h⟩ := bind_eq_ok.1 h
  obtain ⟨message, hmessage, h⟩ := bind_eq_ok.1 h
  refine ⟨kind, fields, said, message, hkind, hfields, hsaid, hmessage, ?_⟩
  cases hfile : fields.get? "file" with
  | none =>
    rw [hfile] at h
    exact .inl ⟨rfl, (Except.ok.inj h).symm⟩
  | some file =>
    rw [hfile] at h
    obtain ⟨shown, hshown, h⟩ := bind_eq_ok.1 h
    exact .inr ⟨file, shown, rfl, hshown, (Except.ok.inj h).symm⟩

/-- **A report can be interpreted**: its file, and then its message. -/
structure Interpretable (r : Resolver) (d : Draft) (offset : Offset) : Prop where
  file : ∀ value, d.get? "file" = some value → r.FileInterpretable d offset value
  message : ∀ fields message, r.resolveFields d offset = .ok fields → fields.message = .ok message →
    r.MessageInterpretable message offset ((fields.get? "file").map Reference.unmarked)

theorem succeeds_resolve_iff {kind : Kind} (hkind : d.kind = .ok kind) (hmessage : Succeeds d.message) :
    Succeeds (r.resolve d) ↔ r.Interpretable d (r.offset kind) := by
  constructor
  · intro h
    obtain ⟨kind', hkind', h⟩ := succeeds_bind_iff.1 h
    obtain rfl := Except.ok.inj (hkind.symm.trans hkind')
    obtain ⟨fields, hfields, h⟩ := succeeds_bind_iff.1 h
    obtain ⟨message, hsaid, h⟩ := succeeds_bind_iff.1 h
    obtain ⟨resolved, hresolved, -⟩ := succeeds_bind_iff.1 h
    refine ⟨(succeeds_resolveFields_iff hmessage).1 ⟨fields, hfields⟩, fun fields' message' hfields' hsaid' => ?_⟩
    obtain rfl := Except.ok.inj (hfields.symm.trans hfields')
    obtain rfl := Except.ok.inj (hsaid.symm.trans hsaid')
    exact succeeds_resolveMessage_iff.1 ⟨resolved, hresolved⟩
  · rintro ⟨hfile, hreferences⟩
    obtain ⟨fields, hfields⟩ := (succeeds_resolveFields_iff hmessage).2 hfile
    obtain ⟨message, hsaid⟩ := (becomes_of_resolveFields hfields).succeeds_message hmessage
    have hinterpretable := hreferences fields message hfields hsaid
    obtain ⟨resolved, hresolved⟩ := succeeds_resolveMessage_iff.2 hinterpretable
    refine succeeds_bind_iff.2 ⟨kind, hkind, succeeds_bind_iff.2 ⟨fields, hfields,
      succeeds_bind_iff.2 ⟨message, hsaid, succeeds_bind_iff.2 ⟨resolved, hresolved, ?_⟩⟩⟩⟩
    split
    · rename_i file hcurrent
      obtain ⟨place, hplace⟩ := succeeds_absolute_iff.2 (hinterpretable.document file hcurrent)
      exact succeeds_bind_iff.2 ⟨_, bind_eq_ok.2 ⟨place, hplace, rfl⟩, succeeds_ok _⟩
    · exact succeeds_ok _

/-- What is brought back says something. -/
theorem succeeds_message_of_resolve (h : r.resolve d = .ok e) : Succeeds e.message := by
  obtain ⟨_, fields, _, message, -, -, -, -, hend⟩ := exists_of_resolve h
  have hset : Succeeds (Draft.message (fields.set "message" message)) := ⟨message, Draft.message_set ..⟩
  rcases hend with ⟨-, rfl⟩ | ⟨_, _, -, -, rfl⟩
  · exact hset
  · exact (succeeds_message_set _ _ (by decide)).2 hset

/-- A report on a place in a sample is not brought back if the place in the document cannot be written. -/
theorem not_succeeds_resolve {kind : Kind} {value file : Text} {s : Sample} {line column : Int}
    (hkind : d.kind = .ok kind) (hmessage : Succeeds d.message) (hvalue : d.get? "file" = some value)
    (hpath : FileUrl.path value = .ok file) (hinside : r.isInSampleDir file = true)
    (hsample : r.sampleAt? file = some s) (hline : integer? d "line" = some line)
    (hcolumn : integer? d "column" = some column)
    (hlong : ¬ (Reference.Writable (line + s.startLine) ∧ Reference.Writable (column + s.column - 1))) :
    ¬ Succeeds (r.resolve d) := by
  intro hresolved
  have hfile := ((succeeds_resolve_iff hkind hmessage).1 hresolved).file value hvalue
  exact hlong (hfile.sample file hpath hinside s hsample line column hline hcolumn)

theorem failsWith_resolve {kind : Kind} (hkind : d.kind = .ok kind) (hmessage : Succeeds d.message) :
    FailsWith Failure.IsUninterpreted (r.resolve d) := by
  unfold resolve
  rw [hkind]
  refine (failsWith_ok kind).bind fun kind _ => (failsWith_resolveFields r hmessage _).bind
    fun fields hfields => ?_
  obtain ⟨message, hsaid⟩ := (becomes_of_resolveFields hfields).succeeds_message hmessage
  dsimp only
  rw [hsaid]
  refine (failsWith_ok message).bind fun _ _ => (failsWith_resolveMessage r _ _ _).bind fun _ _ => ?_
  split
  · exact ((failsWith_absolute r _).bind fun _ _ => failsWith_ok _).bind fun _ _ => failsWith_ok _
  · exact failsWith_ok _

/-! ## What is left as it is -/

/-- **The file of a report tells of a place**: it is the file of a known sample, and the line and the column
are integers, or it has a mark. -/
def TellsPlace (r : Resolver) (d : Draft) (file : Text) : Prop :=
  (∃ s line column, r.isInSampleDir file = true ∧ r.sampleAt? file = some s ∧
      integer? d "line" = some line ∧ integer? d "column" = some column) ∨
    ∃ m, r.isInSampleDir file = false ∧ Reference.whole.matchStart file = some m

/-- The line and the column of a report are those that its fields say. -/
theorem exists_fields_of_resolve (h : r.resolve d = .ok e) :
    ∃ offset fields, r.resolveFields d offset = .ok fields ∧
      e.get? "line" = fields.get? "line" ∧ e.get? "column" = fields.get? "column" := by
  obtain ⟨kind, fields, _, _, -, hfields, -, -, hend⟩ := exists_of_resolve h
  refine ⟨r.offset kind, fields, hfields, ?_⟩
  rcases hend with ⟨-, rfl⟩ | ⟨_, _, -, -, rfl⟩
  · simp only [Keyed.get?_set_of_ne _ _ (by decide : "line" ≠ "message"),
      Keyed.get?_set_of_ne _ _ (by decide : "column" ≠ "message"), and_self]
  · simp only [Keyed.get?_set_of_ne _ _ (by decide : "line" ≠ "file"),
      Keyed.get?_set_of_ne _ _ (by decide : "line" ≠ "message"),
      Keyed.get?_set_of_ne _ _ (by decide : "column" ≠ "file"),
      Keyed.get?_set_of_ne _ _ (by decide : "column" ≠ "message"), and_self]

/-- **What is no integer stays**: a column always, and a line where the file has no mark. -/
theorem Becomes.get?_eq (h : r.Becomes d e) :
    (integer? d "column" = none → e.get? "column" = d.get? "column") ∧
      ((∀ value file, d.get? "file" = some value → FileUrl.path value = .ok file → ¬ r.TellsPlace d file) →
        e.get? "line" = d.get? "line" ∧ e.get? "column" = d.get? "column") := by
  cases h with
  | nowhere => exact ⟨fun _ => rfl, fun _ => ⟨rfl, rfl⟩⟩
  | plain => simp [Keyed.get?_set_of_ne]
  | inSample hvalue hpath hinside hsample hl hc =>
    refine ⟨fun hnone => ?_, fun h => absurd (.inl ⟨_, _, _, hinside, hsample, hl, hc⟩) (h _ _ hvalue hpath)⟩
    rw [hnone] at hc
    cases hc
  | ofSample => simp [Keyed.get?_set_of_ne]
  | markedLine hvalue hpath houtside hm hc =>
    refine ⟨fun _ => ?_, fun h => absurd (.inr ⟨_, houtside, hm⟩) (h _ _ hvalue hpath)⟩
    simp [Keyed.get?_set_of_ne]
  | marked hvalue hpath houtside hm hc =>
    refine ⟨fun hnone => ?_, fun h => absurd (.inr ⟨_, houtside, hm⟩) (h _ _ hvalue hpath)⟩
    rw [hnone] at hc
    cases hc

/-- **A report is brought back just if it can be interpreted.** If it is not, then for a URL, a numeral, a
number or a path that cannot be interpreted; and if it is, what is no integer is left as it is, but for a
line where the file has a mark. -/
theorem resolve_interpretable (r : Resolver) {d : Draft} {kind : Kind} (hkind : d.kind = .ok kind)
    (hmessage : Succeeds d.message) :
    (Succeeds (r.resolve d) ↔ r.Interpretable d (r.offset kind)) ∧
      (∀ failure, r.resolve d = .error failure → failure.IsUninterpreted) ∧
      ∀ e, r.resolve d = .ok e →
        (integer? d "column" = none → e.get? "column" = d.get? "column") ∧
        ((∀ value file, d.get? "file" = some value → FileUrl.path value = .ok file → ¬ r.TellsPlace d file) →
          e.get? "line" = d.get? "line" ∧ e.get? "column" = d.get? "column") := by
  refine ⟨succeeds_resolve_iff hkind hmessage, failsWith_resolve hkind hmessage, fun e he => ?_⟩
  obtain ⟨offset, fields, hfields, hline, hcolumn⟩ := exists_fields_of_resolve he
  rw [hline, hcolumn]
  exact (becomes_of_resolveFields hfields).get?_eq

/-- A report on a marked file whose column is no integer. -/
theorem resolve_interpretable_marked :
    let r : Resolver := { cwd := .ofAbsolute [] }
    let d : Draft := [("kind", "check".toList), ("message", ['m']), ("file", "/a.ts$3-5.ts".toList),
      ("line", ['7']), ("column", ['x'])]
    r.Interpretable d (r.offset .check) ∧
      ∃ e, r.resolve d = .ok e ∧ e.get? "line" = some "10".toList ∧ e.get? "column" = some ['x'] := by
  intro r d
  have hkind : d.kind = .ok .check := by rfl
  have hline : (r.resolve d).toOption.map (·.get? "line") = some (some "10".toList) := by decide +kernel
  obtain ⟨hreturns, -, hleft⟩ := resolve_interpretable r hkind (succeeds_ok ['m'])
  cases hresolve : r.resolve d with
  | error failure =>
    rw [hresolve] at hline
    cases hline
  | ok e =>
    rw [hresolve] at hline
    have hcolumn : integer? d "column" = none := by decide +kernel
    exact ⟨hreturns.1 ⟨e, hresolve⟩, e, rfl, Option.some.inj hline, (hleft e hresolve).1 hcolumn⟩

/-- Reports that are not brought back: one on a URL whose brackets do not match, one that refers to a path
with the null character, and one on a mark whose number has too many digits. -/
theorem resolve_uninterpreted :
    let r : Resolver := { cwd := .ofAbsolute [] }
    (r.resolve [("kind", "check".toList), ("message", ['m']), ("file", "file://[x".toList)]).toOption = none ∧
      (r.resolve [("kind", "check".toList), ("message", "/a\x00b$1-2:1:1".toList)]).toOption = none ∧
      (r.resolve [("kind", "check".toList), ("message", ['m']),
        ("file", "/a$".toList ++ List.replicate 4301 '1' ++ "-2".toList)]).toOption = none := by
  refine ⟨by decide +kernel, by decide +kernel, by decide +kernel⟩

end Resolver

end Fenceline
