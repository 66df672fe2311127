import Fenceline.Proofs.Grammar.Block
import Fenceline.Proofs.Location.Lines
import Fenceline.Proofs.Location.Report
import Fenceline.Proofs.Path.Spelling

/-!
# Reports that grow

A report grows by lines below what it says. Its other fields are brought back whatever it says
(`exists_resolveFields_set`), and what becomes of its message on the way, the spelling of a sample file being
replaced by what the file is called, does not reach from one line into the next if no line feed stands in the
spelling.

**The law** (`resolve_line`): a report is brought back if and only if it can be brought back with the first
lines of its message and with the lines below them, and then its message is theirs. So lines that come below
a report do not change what its earlier lines become.
-/

namespace Fenceline

/-! ## Setting what a report says -/

namespace Draft

variable {d : Draft} {fields : List (String × Text)}

/-- What a report says may be set before its other fields. -/
theorem set_message_setAll (hd : (d.get? "message").isSome) (h : ∀ f ∈ fields, f.1 ≠ "message")
    (message : Text) : (d.setAll fields).set "message" message = setAll (d.set "message" message) fields := by
  induction fields generalizing d with
  | nil => rfl
  | cons f fields ih =>
    obtain ⟨hf, hfields⟩ := List.forall_mem_cons.1 h
    have hset : ((d.set f.1 f.2).get? "message").isSome := by
      rwa [Keyed.get?_set_of_ne _ _ (Ne.symm hf)]
    show (setAll (d.set f.1 f.2) fields).set "message" message = setAll ((d.set "message" message).set f.1 f.2) fields
    rw [ih hset hfields, Keyed.set_comm hd hf]

/-- So it does not matter what it said before. -/
theorem set_message_setAll_set (d : Draft) (fields : List (String × Text)) (h : ∀ f ∈ fields, f.1 ≠ "message")
    (old message : Text) :
    (setAll (d.set "message" old) fields).set "message" message = setAll (d.set "message" message) fields := by
  rw [set_message_setAll (by rw [Keyed.get?_set_self]; rfl) h, Keyed.set_set]

end Draft

namespace Resolver

variable {r : Resolver} {d : Draft} {file : Text}

/-- A blank that does not stand in the paths of known sample files does not stand in other spellings of them. -/
theorem not_mem_of_sampleAt? {x : Char} (hx : Text.isBlank x = true)
    (h : ∀ s ∈ r.samples, ∀ path ∈ s.path, x ∉ path.toText) {s : Sample} (hs : r.sampleAt? file = some s) :
    x ∉ file := by
  have hpath := List.find?_some hs
  rw [beq_iff_eq] at hpath
  have hslash : x ≠ '/' := fun heq => absurd (heq ▸ hx) (by decide)
  have hdot : x ≠ '.' := fun heq => absurd (heq ▸ hx) (by decide)
  exact Path.not_mem_of_toText hslash hdot (h s (List.mem_of_find?_eq_some hs) _ (Option.mem_def.2 hpath))

/-- What is done to every line of a text by itself. -/
def Linewise (put : Text → Text) : Prop :=
  ∀ t u, put (t ++ '\n' :: u) = put t ++ '\n' :: put u

theorem ne_nil_of_isInSampleDir (h : r.isInSampleDir file = true) : file ≠ [] := by
  rintro rfl
  unfold isInSampleDir sampleRoot? at h
  cases hdir : r.sampleDir with
  | none =>
    rw [hdir] at h
    cases h
  | some dir =>
    rw [hdir, Option.map_some, Option.any_some, List.isPrefixOf_iff_prefix] at h
    exact absurd (List.prefix_nil.1 h) (by simp)

/-- What the place in a sample does to a message. -/
theorem placeInSample_set (d : Draft) (file : Text) (s : Sample) :
    ∃ new, ∀ message, placeInSample (d.set "message" message) file s = do
      let fields ← placeInSample (d.set "message" []) file s
      return fields.set "message" (message.replaceAll file new) := by
  have hline := fun message => integer?_set_of_ne d message (by decide : "line" ≠ "message")
  have hcolumn := fun message => integer?_set_of_ne d message (by decide : "column" ≠ "message")
  unfold placeInSample
  simp only [hline, hcolumn, Draft.message_set, Keyed.set_set]
  split
  · refine ⟨s.reference, fun message => ?_⟩
    show (Reference.writeNumber _ >>= _) = ((Reference.writeNumber _ >>= _) >>= _)
    rw [bind_assoc]
    refine congrArg _ (funext fun line => ?_)
    rw [bind_assoc]
    refine congrArg _ (funext fun column => ?_)
    exact congrArg Except.ok (Draft.set_message_setAll_set d
      [("line", line), ("column", column), ("file", s.file.toText)] (by simp) _ _).symm
  · refine ⟨s.file.toText ++ ':' :: Text.ofInt s.startLine ++ ':' :: Text.ofInt s.column, fun message => ?_⟩
    exact congrArg Except.ok (Draft.set_message_setAll_set d [("file", s.file.toText)] (by simp) _ _).symm

theorem resolveMark_set (d : Draft) (file : Text) (offset : Offset) (message : Text) :
    resolveMark (d.set "message" message) file offset = do
      let fields ← resolveMark (d.set "message" []) file offset
      return fields.set "message" message := by
  unfold resolveMark
  cases Reference.whole.matchStart file with
  | none => exact congrArg Except.ok (Keyed.set_set ..).symm
  | some m =>
    simp only [integer?_set_of_ne _ _ (by decide : "line" ≠ "message"),
      integer?_set_of_ne _ _ (by decide : "column" ≠ "line"),
      integer?_set_of_ne _ _ (by decide : "column" ≠ "message"), bind_assoc]
    refine congrArg _ (funext fun start => congrArg _ (funext fun line => ?_))
    split
    · rw [bind_assoc]
      refine congrArg _ (funext fun column => ?_)
      exact congrArg Except.ok (Draft.set_message_setAll_set d
        [("line", line), ("column", column)] (by simp) _ _).symm
    · exact congrArg Except.ok (Draft.set_message_setAll_set d [("line", line)] (by simp) _ _).symm

/-- **The fields of a report are brought back whatever it says**, and its message is changed line by line. -/
theorem exists_resolveFields_set (h : ∀ s ∈ r.samples, ∀ path ∈ s.path, '\n' ∉ path.toText) (d : Draft)
    (offset : Offset) :
    ∃ put, Linewise put ∧ ∀ message, r.resolveFields (d.set "message" message) offset = do
      let fields ← r.resolveFields (d.set "message" []) offset
      return fields.set "message" (put message) := by
  have hkeep : Linewise id := fun _ _ => rfl
  unfold resolveFields
  simp only [Keyed.get?_set_of_ne d _ (by decide : "file" ≠ "message")]
  cases hvalue : d.get? "file" with
  | none => exact ⟨id, hkeep, fun message => congrArg Except.ok (Keyed.set_set ..).symm⟩
  | some value =>
    have hset : ∀ message file, Keyed.set (d.set "message" message) "file" file =
        Keyed.set (d.set "file" file) "message" message := fun message file =>
      Keyed.set_comm (by rw [hvalue]; rfl) (by decide) _ _
    dsimp only
    simp only [hset]
    cases FileUrl.path value with
    | error failure => exact ⟨id, hkeep, fun _ => rfl⟩
    | ok file =>
      show ∃ put, Linewise put ∧ ∀ message, (if r.isInSampleDir file then _ else _) =
        (if r.isInSampleDir file then _ else _) >>= _
      cases hinside : r.isInSampleDir file with
      | false => exact ⟨id, hkeep, resolveMark_set (d.set "file" file) file offset⟩
      | true =>
        unfold resolveSample
        cases hs : r.sampleAt? file with
        | none => exact ⟨id, hkeep, fun message => congrArg Except.ok (Keyed.set_set ..).symm⟩
        | some s =>
          obtain ⟨new, hnew⟩ := placeInSample_set (d.set "file" file) file s
          refine ⟨fun message => message.replaceAll file new, fun t u => ?_, hnew⟩
          exact Text.replaceAll_append_cons (ne_nil_of_isInSampleDir hinside)
            (not_mem_of_sampleAt? (by decide) h hs) t u new

theorem sampleRoot?_newline_not_mem (h : ∀ directory ∈ r.sampleDir, '\n' ∉ directory.toText) :
    ∀ root ∈ r.sampleRoot?, '\n' ∉ root := by
  intro root hroot
  obtain ⟨directory, hdirectory, rfl⟩ := Option.map_eq_some_iff.1 hroot
  simpa using h directory hdirectory

/-- What becomes of a report whose fields are brought back, with a message. -/
def conclude (r : Resolver) (offset : Offset) (fields : Draft) (message : Text) : Except Failure Draft := do
  let current := (fields.get? "file").map Reference.unmarked
  let d := fields.set "message" (← r.resolveMessage message offset current)
  match current with
  | some file => return d.set "file" (← r.displayName file)
  | none => return d

theorem resolve_eq (r : Resolver) (d : Draft) : r.resolve d = (do
    let kind ← d.kind
    let fields ← r.resolveFields d (r.offset kind)
    r.conclude (r.offset kind) fields (← fields.message)) :=
  rfl

theorem conclude_set (r : Resolver) (offset : Offset) (fields : Draft) (old message : Text) :
    r.conclude offset (fields.set "message" old) message = r.conclude offset fields message := by
  unfold conclude
  simp only [Keyed.get?_set_of_ne fields _ (by decide : "file" ≠ "message"), Keyed.set_set]

theorem conclude_line (h : ∀ directory ∈ r.sampleDir, '\n' ∉ directory.toText) (offset : Offset)
    (fields : Draft) (t u : Text) : r.conclude offset fields (t ++ '\n' :: u) = do
      let first ← r.conclude offset fields t
      let below ← r.conclude offset fields u
      return first.set "message" ((← first.message) ++ '\n' :: (← below.message)) := by
  have hline := resolveMessage_line (sampleRoot?_newline_not_mem h) offset
  unfold conclude
  cases (fields.get? "file").map Reference.unmarked with
  | none =>
    dsimp only
    rw [hline]
    cases r.resolveMessage t offset none with
    | error failure => rfl
    | ok t' =>
      cases r.resolveMessage u offset none with
      | error failure => rfl
      | ok u' =>
        show Except.ok (fields.set "message" (t' ++ '\n' :: u')) = _
        simp only [bind, Except.bind, pure, Except.pure, Draft.message_set, Keyed.set_set]
  | some file =>
    dsimp only
    -- a file without a place is found out before the message is read
    cases hplace : r.absolute file with
    | error failure =>
      have hnowhere : ∀ message, r.resolveMessage message offset (some file) = .error failure := fun message => by
        rw [resolveMessage, Option.mapM_some, hplace]
        rfl
      simp only [hnowhere]
      rfl
    | ok place =>
      have hname : r.displayName file = .ok ((r.displayNames.get? place).getD file) := by
        rw [displayName, hplace]
        rfl
      rw [hline, hname]
      cases r.resolveMessage t offset (some file) with
      | error failure => rfl
      | ok t' =>
        cases r.resolveMessage u offset (some file) with
        | error failure => rfl
        | ok u' =>
          have hsaid : ∀ message shown, Draft.message ((fields.set "message" message).set "file" shown) =
              .ok message := fun message shown =>
            Draft.message_of_get? (by rw [Keyed.get?_set_of_ne _ _ (by decide), Keyed.get?_set_self])
          simp only [bind, Except.bind, pure, Except.pure, hsaid]
          exact congrArg Except.ok (Draft.set_message_setAll_set fields [("file", _)] (by simp) _ _).symm

/-- A report whose message has several lines is brought back with the first ones and with those below. -/
theorem resolve_set_append (hdirectory : ∀ directory ∈ r.sampleDir, '\n' ∉ directory.toText)
    (hsamples : ∀ s ∈ r.samples, ∀ path ∈ s.path, '\n' ∉ path.toText) (d : Draft) (a b : Text) :
    r.resolve (d.set "message" (a ++ '\n' :: b)) = do
      let first ← r.resolve (d.set "message" a)
      let below ← r.resolve (d.set "message" b)
      return first.set "message" ((← first.message) ++ '\n' :: (← below.message)) := by
  have hkind : ∀ message, Draft.kind (d.set "message" message) = d.kind := fun message =>
    Draft.kind_congr (Keyed.get?_set_of_ne _ _ (by decide))
  simp only [resolve_eq, hkind]
  cases d.kind with
  | error failure => rfl
  | ok kind =>
    obtain ⟨put, hlinewise, hput⟩ := exists_resolveFields_set hsamples d (r.offset kind)
    generalize r.resolveFields (d.set "message" []) (r.offset kind) = base at hput
    have hdone : ∀ message, (do
        let fields ← r.resolveFields (d.set "message" message) (r.offset kind)
        r.conclude (r.offset kind) fields (← fields.message)) =
          base >>= fun fields => r.conclude (r.offset kind) fields (put message) := by
      intro message
      rw [hput, bind_assoc]
      refine congrArg _ (funext fun fields => ?_)
      show (Draft.message (fields.set "message" (put message)) >>= _) = _
      rw [Draft.message_set]
      exact conclude_set ..
    show (do
      let fields ← r.resolveFields (d.set "message" (a ++ '\n' :: b)) (r.offset kind)
      r.conclude (r.offset kind) fields (← fields.message)) = ((do
        let fields ← r.resolveFields (d.set "message" a) (r.offset kind)
        r.conclude (r.offset kind) fields (← fields.message)) >>= fun first => (do
        let fields ← r.resolveFields (d.set "message" b) (r.offset kind)
        r.conclude (r.offset kind) fields (← fields.message)) >>= _)
    rw [hdone, hdone, hdone, hlinewise]
    cases base with
    | error failure => rfl
    | ok fields => exact conclude_line hdirectory (r.offset kind) fields (put a) (put b)

/-- **A report is brought back line by line**, and lines that come below it leave what its earlier lines
become. -/
theorem resolve_line (hdirectory : ∀ directory ∈ r.sampleDir, '\n' ∉ directory.toText)
    (hsamples : ∀ s ∈ r.samples, ∀ path ∈ s.path, '\n' ∉ path.toText) (d : Draft) (a : Text) :
    (∀ b, r.resolve (d.set "message" (a ++ '\n' :: b)) = do
      let first ← r.resolve (d.set "message" a)
      let below ← r.resolve (d.set "message" b)
      return first.set "message" ((← first.message) ++ '\n' :: (← below.message))) ∧
      ∀ lines grown, r.resolve (Draft.below (d.set "message" a) lines) = .ok grown →
        ∃ first said more, r.resolve (d.set "message" a) = .ok first ∧ first.message = .ok said ∧
          more.length = lines.length ∧ grown = first.set "message" (Text.joinWith ['\n'] (said :: more)) := by
  have hline := resolve_set_append hdirectory hsamples d
  refine ⟨hline a, fun lines => ?_⟩
  rw [Draft.below_set]
  induction lines generalizing a with
  | nil =>
    intro grown hgrown
    obtain ⟨said, hsaid⟩ := succeeds_message_of_resolve hgrown
    exact ⟨grown, said, [], hgrown, hsaid, rfl, (Keyed.set_of_get? (Draft.message_eq_ok_iff.1 hsaid)).symm⟩
  | cons b lines ih =>
    intro grown hgrown
    rw [Text.joinWith_cons_cons, List.append_assoc, List.singleton_append, hline] at hgrown
    obtain ⟨first, hfirst, hgrown⟩ := bind_eq_ok.1 hgrown
    obtain ⟨below, hbelow, hgrown⟩ := bind_eq_ok.1 hgrown
    obtain ⟨said, hsaid, hgrown⟩ := bind_eq_ok.1 hgrown
    obtain ⟨saidBelow, hsaidBelow, hgrown⟩ := bind_eq_ok.1 hgrown
    obtain ⟨next, saidNext, more, -, -, hlength, rfl⟩ := ih b below hbelow
    obtain rfl := Except.ok.inj ((Draft.message_set ..).symm.trans hsaidBelow)
    refine ⟨first, said, saidNext :: more, hfirst, hsaid, by rw [List.length_cons, List.length_cons, hlength], ?_⟩
    rw [← Except.ok.inj hgrown, Text.joinWith_cons_cons, List.append_assoc, List.singleton_append]

/-- A report on a sample file that grows by a line with a place in the file. -/
theorem resolve_line_sample :
    let path : Path := .ofAbsolute ["t".toList, "x$1-3.ts".toList]
    let s : Sample := ⟨.ofAbsolute ["a.md".toList], 1, 1, 1, [], some "ts".toList, "f\n".toList, some path⟩
    let r : Resolver := { cwd := .ofAbsolute [], samples := [s], sampleDir := some (.ofAbsolute ["t".toList]) }
    let d : Draft := [("kind", "check".toList), ("file", "/t/x$1-3.ts".toList), ("line", ['1']),
      ("column", ['2'])]
    let line : Text := "  at /t/x$1-3.ts:1:2".toList
    (∀ directory ∈ r.sampleDir, '\n' ∉ directory.toText) ∧
      (∀ s ∈ r.samples, ∀ path ∈ s.path, '\n' ∉ path.toText) ∧
      ∃ first, r.resolve (d.set "message" "bad".toList) = .ok first ∧ first.message = .ok "bad".toList ∧
        r.resolve (Draft.below (d.set "message" "bad".toList) [line]) =
          .ok (first.set "message" "bad\n  at /a.md:2:2".toList) := by
  intro path s r d line
  have hdirectory : ∀ directory ∈ r.sampleDir, '\n' ∉ directory.toText := by
    rintro _ ⟨⟩
    decide +kernel
  have hsamples : ∀ s ∈ r.samples, ∀ path ∈ s.path, '\n' ∉ path.toText := by
    simp only [r, List.forall_mem_singleton]
    rintro _ ⟨⟩
    decide +kernel
  refine ⟨hdirectory, hsamples, ?_⟩
  obtain ⟨-, hgrown⟩ := resolve_line hdirectory hsamples d "bad".toList
  have hsaid : (r.resolve (Draft.below (d.set "message" "bad".toList) [line])).toOption.bind (·.get? "message") =
      some "bad\n  at /a.md:2:2".toList := by
    decide +kernel
  have hbad : (r.resolve (d.set "message" "bad".toList)).toOption.bind (·.get? "message") =
      some "bad".toList := by
    decide +kernel
  cases hresolve : r.resolve (Draft.below (d.set "message" "bad".toList) [line]) with
  | error failure =>
    rw [hresolve] at hsaid
    cases hsaid
  | ok grown =>
    obtain ⟨first, said, more, hfirst, hmessage, -, rfl⟩ := hgrown [line] grown hresolve
    rw [hresolve] at hsaid
    rw [hfirst] at hbad
    have hjoin := (Keyed.get?_set_self first "message" _).symm.trans hsaid
    refine ⟨first, hfirst, Draft.message_of_get? hbad, ?_⟩
    rw [Option.some.inj hjoin]

end Resolver

end Fenceline
