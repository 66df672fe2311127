import Fenceline.Proofs.Location.Lines
import Fenceline.Proofs.Location.Message

/-!
# Reports on a sample file that say no place in it

A report may name a sample's file without a line and a column, as one on a file that cannot be formatted
does. Then the spelling of the file becomes the place of the sample's opening fence wherever it stands in the
message, before the places of the message are read.

**The law** (`said_unplaced`): a place in the file as the report spells it becomes the place of the opening
fence, with the line and the column of the sample file still behind it. All other places become those in
their documents, and every other line of the message becomes what it would by itself.

**What it does not establish.** How a report spells its file. Where the message spells the file in another
way, its places are brought back.
-/

namespace Fenceline

open Pattern Reference

/-! ## Places that are not shifted -/

/-- The place of an opening fence is not read again. -/
theorem Sample.Stored.settled_fencePlace {directory : Absolute} {s : Sample} (h : s.Stored directory) :
    Mention.Settled s.fencePlace := by
  obtain ⟨run, _, _, hrun, _, hfile, _⟩ := h.exists_reference
  have hnumbers : ∀ x, x ≠ ':' → x ≠ '-' → x.isDigit = false →
      x ∉ Text.ofInt s.startLine ++ ':' :: Text.ofInt s.column := by
    intro x hcolon hminus hdigit
    rw [List.mem_append, List.mem_cons, not_or, not_or]
    exact ⟨Text.not_mem_ofInt hminus hdigit, hcolon, Text.not_mem_ofInt hminus hdigit⟩
  refine ⟨run, Text.ofInt s.startLine ++ ':' :: Text.ofInt s.column, ?_, ?_, ?_, ?_⟩
  · rw [fencePlace, hfile, List.append_assoc]
    rfl
  · exact fun hmem => (hrun '$' hmem).2 rfl
  · exact hnumbers '/' (by decide) (by decide) (by decide)
  · exact hnumbers '$' (by decide) (by decide) (by decide)

namespace Mention

variable {file t : Text} {m : Mention} {ms : List Mention} {r : Resolver} {directory : Absolute} {s : Sample}

/-- **What becomes of a place** in the message of a report that says no place itself, `file` being the
spelling of the report's file. -/
def unshifted (file : Text) (m : Mention) : Text :=
  if m.sample.place = file then named Sample.fencePlace m else m.inDocument

/-- How samples are named when their files have become references, but for a spelling that has become another
one. -/
def referred (file new : Text) (u : Sample) : Text :=
  if u.place = file then new else u.reference

theorem Told.numbered {root : Text} (h : Told root t ms) : ∀ m ∈ ms, m.Numbered := by
  induction h with
  | last between => exact fun m hm => absurd hm List.not_mem_nil
  | next between invites numbered told ih => exact List.forall_mem_cons.2 ⟨numbered, ih⟩

/-- A place that is not shifted has the numbers of the fence and its own. -/
theorem count_unshifted (h : m.Numbered) :
    (unshifted file m).count ':' = m.inDocument.count ':' + if m.sample.place = file then 2 else 0 := by
  have hnumber : ∀ n : Int, (Text.ofInt n).count ':' = 0 := fun n =>
    List.count_eq_zero_of_not_mem (Text.not_mem_ofInt (by decide) (by decide))
  have hdigits : ∀ {u : Text}, Digits u → u.count ':' = 0 := fun hu =>
    List.count_eq_zero_of_not_mem fun hmem => absurd (hu.isDecimal ':' hmem) (by decide)
  rw [unshifted]
  split
  · simp only [named, numbers, Sample.fencePlace, inDocument, List.count_append, List.count_cons_self, hnumber,
      hdigits h.line, hdigits h.column]
    omega
  · rfl

theorem count_say_unshifted (h : ∀ m ∈ ms, m.Numbered) :
    (say (unshifted file) ms).count ':' =
      (say inDocument ms).count ':' + 2 * ms.countP (·.sample.place = file) := by
  induction ms with
  | nil => rfl
  | cons m ms ih =>
    obtain ⟨hm, hms⟩ := List.forall_mem_cons.1 h
    rw [say_cons, say_cons, List.count_append, List.count_append, List.count_append, List.count_append,
      count_unshifted hm, ih hms, List.countP_cons]
    simp only [decide_eq_true_eq]
    split <;> omega

/-- **Places are brought back just if the report spells the file of none of them.** -/
theorem say_unshifted_eq_iff (h : ∀ m ∈ ms, m.Numbered) :
    say (unshifted file) ms = say inDocument ms ↔ ∀ m ∈ ms, m.sample.place ≠ file := by
  constructor
  · intro heq
    have hnone : ms.countP (·.sample.place = file) = 0 := by
      have hcount : (say (unshifted file) ms).count ':' = _ := count_say_unshifted h
      rw [heq] at hcount
      omega
    simpa using List.countP_eq_zero.1 hnone
  · intro hother
    have hsame : ∀ m ∈ ms, unshifted file m ++ m.after = m.inDocument ++ m.after := fun m hm => by
      rw [unshifted, if_neg (hother m hm)]
    rw [say, say, List.flatMap_def, List.flatMap_def, List.map_congr_left hsame]

end Mention

namespace Resolver

open Mention

variable {r : Resolver} {directory : Absolute} {d : Draft} {kind : Kind} {file : Text} {s : Sample}

/-! ## Spellings of a sample file -/

/-- The spelling of a known sample file goes on behind that of its directory, with slashes and with
characters of its name. -/
theorem exists_of_sampleAt? (hr : r.Extracted directory) (hinside : r.isInSampleDir file = true)
    (hs : r.sampleAt? file = some s) :
    s ∈ r.samples ∧ ∃ z, file = Path.inside directory ++ z ∧ ∀ x ∈ z, x = '/' ∨ inSampleName x = true := by
  have hmem : s ∈ r.samples := List.mem_of_find?_eq_some hs
  refine ⟨hmem, ?_⟩
  rw [isInSampleDir, hr.sampleRoot?_eq, Option.any_some, List.isPrefixOf_iff_prefix] at hinside
  obtain ⟨z, rfl⟩ := hinside
  refine ⟨z, rfl, fun x hx => ?_⟩
  obtain ⟨name, hname, hpath, _⟩ := (hr.stored s hmem).exists_name hr.holding.ne_nil
  have hcomponents : Path.components z = [name] := by
    have hfound := List.find?_some hs
    rw [beq_iff_eq, hpath, Option.some_inj] at hfound
    have hnames : directory ++ [name] = Path.components (Path.inside directory ++ z) :=
      congrArg Path.names hfound
    rw [Path.components_inside hr.holding.spellable] at hnames
    exact (List.append_cancel_left hnames).symm
  rcases Path.mem_components hx with hslash | hdot | ⟨other, hother, hx⟩
  · exact .inl hslash
  · exact .inr (hdot ▸ rfl)
  · rw [hcomponents, List.mem_singleton] at hother
    exact .inr (hname.all x (hother ▸ hx))

/-! ## Reports without a place -/

/-- **A report on a sample file that says no place in it**: it says no line or no column. -/
structure Unplaced (r : Resolver) (d : Draft) (kind : Kind) (file : Text) (s : Sample) : Prop where
  kind_eq : d.kind = .ok kind
  file_eq : ∃ value, d.get? "file" = some value ∧ FileUrl.path value = .ok file
  inside : r.isInSampleDir file = true
  sample : r.sampleAt? file = some s
  no_place : integer? d "line" = none ∨ integer? d "column" = none

/-- What becomes of a report's message, if that says a text. -/
def said (r : Resolver) (d : Draft) (text : Text) : Except Failure Text :=
  (r.resolve (d.set "message" text)).bind Draft.message

/-- The fields of a report without a place: its message names the opening fence. -/
theorem Unplaced.resolveFields_eq (h : Unplaced r d kind file s) (text : Text) (offset : Offset) :
    r.resolveFields (d.set "message" text) offset =
      .ok ((((d.set "message" text).set "file" file).set "message" (text.replaceAll file s.fencePlace)).set
        "file" s.file.toText) := by
  obtain ⟨value, hfile, hvalue⟩ := h.file_eq
  have hget : ∀ name, name ≠ "message" → name ≠ "file" →
      integer? ((d.set "message" text).set "file" file) name = integer? d name := by
    intro name hmessage hfile
    rw [integer?, integer?, Keyed.get?_set_of_ne _ _ hfile, Keyed.get?_set_of_ne _ _ hmessage]
  have hmessage : Draft.message ((d.set "message" text).set "file" file) = .ok text := by
    rw [Draft.message, Draft.need, Keyed.get?_set_of_ne _ _ (by decide), Keyed.get?_set_self]
  rw [resolveFields, Keyed.get?_set_of_ne _ _ (by decide), hfile]
  simp only [hvalue, bind, Except.bind, h.inside, if_true, resolveSample, h.sample, placeInSample, hmessage,
    hget "line" (by decide) (by decide), hget "column" (by decide) (by decide)]
  rcases h.no_place with hline | hcolumn
  · rw [hline]
    rfl
  · rw [hcolumn]
    cases integer? d "line" <;> rfl

/-- What becomes of the message of a report without a place. -/
theorem Unplaced.said_eq (h : Unplaced r d kind file s) (hr : r.Extracted directory) (text : Text) :
    r.said d text =
      r.resolveMessage (text.replaceAll file s.fencePlace) (r.offset kind) (some s.file.toText) := by
  obtain ⟨hs, -⟩ := exists_of_sampleAt? hr h.inside h.sample
  have hkind : Draft.kind (d.set "message" text) = .ok kind := by
    rw [← h.kind_eq, Draft.kind, Draft.kind, Draft.need, Draft.need, Keyed.get?_set_of_ne _ _ (by decide)]
  have hunmarked : unmarked s.file.toText = s.file.toText :=
    unmarked_of_not_mem (hr.stored s hs).dollar_not_mem_file
  have hmessage : ∀ (e : Draft) (new document : Text),
      Draft.message ((e.set "message" new).set "file" document) = .ok new := by
    intro e new document
    rw [Draft.message, Draft.need, Keyed.get?_set_of_ne _ _ (by decide), Keyed.get?_set_self]
  simp only [said, resolve, hkind, h.resolveFields_eq, hmessage, Keyed.get?_set_self, Option.map_some, hunmarked,
    bind, Except.bind]
  cases hresolved : r.resolveMessage (text.replaceAll file s.fencePlace) (r.offset kind)
      (some s.file.toText) with
  | error failure => rfl
  | ok new =>
    obtain ⟨shown, hshown⟩ := displayName_of_resolveMessage hresolved
    rw [hshown]
    exact hmessage _ new shown

/-! ## What the message becomes -/

/-- **A line of the message**: the places in the file are those of the fence, and are not shifted. -/
theorem Unplaced.said_line (h : Unplaced r d kind file s) (hr : r.Extracted directory)
    (hcolon : ':' ∉ Path.inside directory) {lead : Text} {ms : List Mention}
    (htold : Told (Path.inside directory) lead ms) (hms : ∀ m ∈ ms, m.sample ∈ r.samples)
    (hown : ∀ m ∈ ms, file <+: m.sample.place → m.sample.place = file)
    (hafter : ∀ m ∈ ms.dropLast, m.sample.place = file → m.after ≠ []) :
    r.said d (lead ++ say (named Sample.place) ms) = .ok (lead ++ say (unshifted file) ms) := by
  obtain ⟨hs, z, rfl, hz⟩ := exists_of_sampleAt? hr h.inside h.sample
  have hnocolon : ':' ∉ z := fun hmem => absurd (hz ':' hmem) (by decide)
  have hcurrent : (some s.file.toText).mapM r.absolute = .ok (some s.file) := by
    rw [Option.mapM_some, hr.absolute_file hs]
    rfl
  have hsample : ∀ m ∈ ms, m.sample.place = Path.inside directory ++ z → m.sample = s := by
    intro m hm hplace
    have hfound := hr.sampleAt?_place (hms m hm)
    rw [hplace, h.sample] at hfound
    exact (Option.some.inj hfound).symm
  have hsettled := (hr.stored s hs).settled_fencePlace
  have hslash : '/' ∉ ([] : Text) := List.not_mem_nil
  have hreplaced := replaceAll_file hr hnocolon htold hms hown hslash s.fencePlace
  rw [List.nil_append, List.nil_append] at hreplaced
  have hnaming : Naming r directory
      (lead ++ say (named (swapped (Path.inside directory ++ z) s.fencePlace)) ms)
      (lead ++ say (named (referred (Path.inside directory ++ z) s.fencePlace)) ms) := by
    apply naming_named hr htold hms _ hslash List.not_mem_nil
    intro m _
    rw [swapped, referred]
    split
    · exact .inr ⟨hcolon, hsettled, rfl⟩
    · exact .inl ⟨.inl rfl, rfl⟩
  have hturns : embedded.Turns (r.unmark (r.offset kind) (some s.file))
      (lead ++ say (named (referred (Path.inside directory ++ z) s.fencePlace)) ms)
      (lead ++ say (unshifted (Path.inside directory ++ z)) ms) := by
    apply turns_named hr htold hms _ _ _ _ htold.begins.1 htold.begins.2
    · intro m hm
      by_cases hplace : m.sample.place = Path.inside directory ++ z
      · have hname : referred (Path.inside directory ++ z) s.fencePlace m.sample = s.fencePlace := if_pos hplace
        rw [unshifted, if_pos hplace, named, named, hname, hsample m hm hplace]
        exact .inr ⟨hsettled, rfl⟩
      · exact .inl ⟨if_neg hplace, if_neg hplace⟩
    · intro m hm
      by_cases hplace : m.sample.place = Path.inside directory ++ z
      · exact .inr (hafter m hm hplace)
      · exact .inl (if_neg hplace)
  rw [h.said_eq hr, hreplaced]
  exact resolveMessage_of_turns hr hcurrent hnaming hturns

/-- The other lines of the message do not matter to a line. -/
theorem Unplaced.said_append (h : Unplaced r d kind file s) (hr : r.Extracted directory)
    (hnewline : '\n' ∉ Path.inside directory) (t u : Text) :
    r.said d (t ++ '\n' :: u) = do
      let t' ← r.said d t
      let u' ← r.said d u
      return t' ++ '\n' :: u' := by
  obtain ⟨_, z, rfl, hz⟩ := exists_of_sampleAt? hr h.inside h.sample
  have hfile : '\n' ∉ Path.inside directory ++ z := by
    rw [List.mem_append, not_or]
    exact ⟨hnewline, fun hmem => absurd (hz '\n' hmem) (by decide)⟩
  have hroot : ∀ root ∈ r.sampleRoot?, '\n' ∉ root := by
    intro root hroot
    rw [hr.sampleRoot?_eq] at hroot
    exact Option.some.inj hroot ▸ hnewline
  rw [h.said_eq hr, h.said_eq hr, h.said_eq hr,
    Text.replaceAll_append_cons (Path.inside_append_ne_nil directory z) hfile]
  exact resolveMessage_line hroot _ _ _ _

/-- **A place in the file of a report without a place** becomes the place of the opening fence, with the line
and the column of the sample file behind it. It becomes its place in the document just if the report spells
the file in another way. -/
theorem said_unplaced (hr : r.Extracted directory) (h : Unplaced r d kind file s)
    (hcolon : ':' ∉ Path.inside directory) (hnewline : '\n' ∉ Path.inside directory) {lead : Text}
    {ms : List Mention} (htold : Told (Path.inside directory) lead ms) (hms : ∀ m ∈ ms, m.sample ∈ r.samples)
    (hown : ∀ m ∈ ms, file <+: m.sample.place → m.sample.place = file)
    (hafter : ∀ m ∈ ms.dropLast, m.sample.place = file → m.after ≠ []) (above below : List Text) :
    (r.said d (Text.joinWith ['\n'] (above ++ (lead ++ say (named Sample.place) ms) :: below)) = do
      let above' ← above.mapM (r.said d)
      let below' ← below.mapM (r.said d)
      return Text.joinWith ['\n'] (above' ++ (lead ++ say (unshifted file) ms) :: below')) ∧
    (lead ++ say (unshifted file) ms = lead ++ say inDocument ms ↔ ∀ m ∈ ms, m.sample.place ≠ file) := by
  constructor
  · have hlines : above ++ (lead ++ say (named Sample.place) ms) :: below ≠ [] :=
      List.append_ne_nil_of_right_ne_nil above (List.cons_ne_nil _ _)
    rw [Text.joinWith_mapM (f := r.said d) (h.said_append hr hnewline) hlines, List.mapM_append, List.mapM_cons,
      h.said_line hr hcolon htold hms hown hafter]
    cases above.mapM (r.said d) with
    | error failure => rfl
    | ok above' => cases below.mapM (r.said d) <;> rfl
  · rw [List.append_cancel_left_eq]
    exact say_unshifted_eq_iff htold.numbered

/-- A file that cannot be formatted, with a place in it in the line behind. -/
theorem said_unplaced_fatal :
    let directory : Absolute := ["t".toList]
    let s : Sample := ⟨.ofAbsolute ["p".toList, "a.ts".toList], 1, 1, 1, [], some "ts".toList, "x\n".toList,
      some (.ofAbsolute ["t".toList, "x$1-3.ts".toList])⟩
    let r : Resolver := { cwd := .ofAbsolute [], samples := [s], sampleDir := some (.ofAbsolute directory) }
    let d : Draft := [("kind", "fatal".toList), ("file", "/t/x$1-3.ts".toList)]
    let m : Mention := ⟨true, s, "1".toList, "1".toList, []⟩
    r.Extracted directory ∧ Unplaced r d .fatal s.place s ∧ Told (Path.inside directory) "  at ".toList [m] ∧
      r.said d "Error formatting: /t/x$1-3.ts\n  at file:///t/x$1-3.ts:1:1".toList =
        .ok "Error formatting: /p/a.ts:1:1\n  at file:///p/a.ts:1:1:1:1".toList ∧
      "  at ".toList ++ say (unshifted s.place) [m] ≠ "  at ".toList ++ say inDocument [m] := by
  intro directory s r d m
  have hs : s.Stored directory :=
    { document := ⟨["p".toList, "a.ts".toList], rfl, by decide, by decide, Sample.plain_of_all (by decide)⟩
      stored := ⟨"x".toList, "ts".toList, List.all_eq_true.1 (by decide), by decide⟩
      lines := by decide
      short := by decide }
  have hr : r.Extracted directory :=
    { holding := ⟨by decide, by decide, by decide⟩
      sampleDir := rfl
      nodup := by decide
      stored := List.forall_mem_singleton.2 hs
      column_eq := by decide }
  have hreport : Unplaced r d .fatal s.place s :=
    { kind_eq := by decide
      file_eq := ⟨"/t/x$1-3.ts".toList, rfl, by decide⟩
      inside := by decide
      sample := by decide
      no_place := .inl rfl }
  have htold : Told (Path.inside directory) "  at ".toList [m] := by
    refine .next ⟨by decide, by decide⟩ (.inr ⟨"  at".toList, ' ', by decide, .inl rfl⟩) ?_
      (.last ⟨by decide, by decide⟩)
    have hone : Digits "1".toList := by decide
    exact ⟨hone, hone, by decide, nofun⟩
  have hfirst : r.said d "Error formatting: /t/x$1-3.ts".toList =
      .ok "Error formatting: /p/a.ts:1:1".toList := by
    decide +kernel
  have hms : ∀ u ∈ [m], u.sample ∈ r.samples := by
    intro u hu
    rw [List.mem_singleton.1 hu]
    exact List.mem_cons_self
  have hown : ∀ u ∈ [m], s.place <+: u.sample.place → u.sample.place = s.place := by
    intro u hu _
    rw [List.mem_singleton.1 hu]
  have hafter : ∀ u ∈ [m].dropLast, u.sample.place = s.place → u.after ≠ [] := fun u hu =>
    absurd hu List.not_mem_nil
  have hcolon : ':' ∉ Path.inside directory := by decide
  have hnewline : '\n' ∉ Path.inside directory := by decide
  obtain ⟨hsaid, hunshifted⟩ := said_unplaced hr hreport hcolon hnewline htold hms hown hafter
    ["Error formatting: /t/x$1-3.ts".toList] []
  have htext : Text.joinWith ['\n'] (["Error formatting: /t/x$1-3.ts".toList] ++
      ("  at ".toList ++ say (named Sample.place) [m]) :: []) =
        "Error formatting: /t/x$1-3.ts\n  at file:///t/x$1-3.ts:1:1".toList := by
    decide
  have hbecomes : Text.joinWith ['\n'] (["Error formatting: /p/a.ts:1:1".toList] ++
      ("  at ".toList ++ say (unshifted s.place) [m]) :: []) =
        "Error formatting: /p/a.ts:1:1\n  at file:///p/a.ts:1:1:1:1".toList := by
    decide
  refine ⟨hr, hreport, htold, ?_, ?_⟩
  · rw [htext, List.mapM_cons, hfirst] at hsaid
    rw [hsaid, ← hbecomes]
    rfl
  · intro heq
    exact hunshifted.1 heq m List.mem_cons_self rfl

/-- Two reports of which a place in the sample is not brought back: one says no line and no column, the other
one a line only. -/
theorem said_misplaced :
    let directory : Absolute := ["t".toList]
    let s : Sample := ⟨.ofAbsolute ["p".toList, "a.ts".toList], 1, 1, 1, [], some "ts".toList, "x\n".toList,
      some (.ofAbsolute ["t".toList, "x$1-3.ts".toList])⟩
    let r : Resolver := { cwd := .ofAbsolute [], samples := [s], sampleDir := some (.ofAbsolute directory) }
    let m : Mention := ⟨false, s, "1".toList, "1".toList, []⟩
    let text : Text := "  at ".toList ++ say (named Sample.place) [m]
    let fatal : Draft := [("kind", "fatal".toList), ("file", s.place)]
    let check : Draft := [("kind", "check".toList), ("file", "file:///t/x$1-3.ts".toList), ("line", "1".toList)]
    "  at ".toList ++ say inDocument [m] = "  at /p/a.ts:2:1".toList ∧
      r.said fatal text = .ok "  at /p/a.ts:1:1:1:1".toList ∧
      r.said check text = .ok "  at /p/a.ts:1:1:1:1".toList ∧
      r.said fatal text ≠ .ok ("  at ".toList ++ say inDocument [m]) ∧
      r.said check text ≠ .ok ("  at ".toList ++ say inDocument [m]) := by
  intro directory s r m text fatal check
  have hplace : "  at ".toList ++ say inDocument [m] = "  at /p/a.ts:2:1".toList := by decide
  have hfatal : r.said fatal text = .ok "  at /p/a.ts:1:1:1:1".toList := by decide +kernel
  have hcheck : r.said check text = .ok "  at /p/a.ts:1:1:1:1".toList := by decide +kernel
  refine ⟨hplace, hfatal, hcheck, ?_, ?_⟩
  · rw [hfatal, hplace]
    decide
  · rw [hcheck, hplace]
    decide

end Resolver

end Fenceline
