import Fenceline.Proofs.Location.Lines
import Fenceline.Proofs.Location.Message
import Fenceline.Proofs.Location.Name

/-!
# Reports on a place in a sample

A report on a place in a sample names this place once in its message, in a line of its own, and says nothing
else that could be taken for a place. Such a report needs less of the resolver than one that may say anything:
samples have files of their own in one directory, with a mark and an extension in their names (`Knows`).

**The law** (`resolve_placed`): the report is brought back to the document of the sample, and the line with
the place becomes a line with the place in the document; every other line stays.

**What it does not establish.** That samples of one document which begin in one line begin in one column too.
Where they do not, the message has the column of the last one (`found`).
-/

namespace Fenceline

open Pattern Reference

/-- A place in the file of a sample, as the toolchain spells it. -/
def Sample.placeAt (s : Sample) (line column : Nat) : Text :=
  s.place ++ (':' :: Text.ofNat line ++ ':' :: Text.ofNat column)

namespace Resolver

/-- **A resolver that knows samples in files of a directory**, which is not the root. -/
structure Knows (r : Resolver) (directory : Absolute) : Prop where
  ne_nil : directory ≠ []
  spellable : Path.Spellable directory
  sampleDir : r.sampleDir = some (.ofAbsolute directory)
  nodup : (r.samples.map (·.path)).Nodup
  marked : ∀ s ∈ r.samples, ∃ stem ending, s.path = some (.ofAbsolute (directory ++ [stem ++ '$' :: ending])) ∧
    '.' ∈ ending
  short : ∀ s ∈ r.samples, Short s.column

/-- The sample that a reference to a sample leads to: the last one of the document that begins in the line. -/
def found (r : Resolver) (s : Sample) : Sample :=
  (r.sampleFrom? s.file s.startLine).getD s

/-- What becomes of a place in the file of a sample. -/
def documentAt (r : Resolver) (s : Sample) (line column : Nat) : Text :=
  s.file.toText ++ (':' :: Text.ofInt (line + s.startLine) ++ ':' :: Text.ofInt (column + (r.found s).column - 1))

/-- What becomes of a line of the message of a report on a sample's file. -/
def lineOf (r : Resolver) (s : Sample) (offset : Offset) (t : Text) : Except Failure Text :=
  r.resolveMessage (t.replaceAll s.place s.reference) offset (some s.file.toText)

/-- The spelling under which the document of a sample was requested, or its own. -/
def shown (r : Resolver) (s : Sample) : Text :=
  (r.displayNames.get? s.file).getD s.file.toText

variable {r : Resolver} {directory : Absolute} {s : Sample} {t lead : Text}

/-- **What stands on both sides of a blank is brought back by itself**, if no path of a sample file holds the blank. -/
theorem lineOf_append_cons {x : Char} (hx : Text.isBlank x = true) (hroot : ∀ root ∈ r.sampleRoot?, x ∉ root)
    (hne : s.place ≠ []) (hplace : x ∉ s.place) (offset : Offset) (t u : Text) :
    r.lineOf s offset (t ++ x :: u) = do
      let t' ← r.lineOf s offset t
      let u' ← r.lineOf s offset u
      return t' ++ x :: u' := by
  rw [lineOf, Text.replaceAll_append_cons hne hplace]
  exact resolveMessage_append (nameSamples_append (by rw [inSampleName, hx]; rfl) hroot) (inline_embedded_of_isBlank hx)
    _ _ _ _

namespace Knows

theorem sampleRoot?_eq (h : r.Knows directory) : r.sampleRoot? = some (Path.inside directory) := by
  rw [sampleRoot?, h.sampleDir]
  rfl

/-- **No sample file is named in a text** in which no dot stands behind a dollar sign in the same name. -/
theorem nameSamples_of_undotted (h : r.Knows directory) (ht : Undotted t) : r.nameSamples t = t :=
  Resolver.nameSamples_of_undotted h.sampleRoot?_eq h.spellable h.marked ht

/-- **A text without a dollar sign stays.** -/
theorem resolveMessage_of_not_mem (h : r.Knows directory) (ht : '$' ∉ t) {offset : Offset}
    {current : Option Text} {place : Option Path} (hcurrent : current.mapM r.absolute = .ok place) :
    r.resolveMessage t offset current = .ok t := by
  have hnamed : r.nameSamples t = t := h.nameSamples_of_undotted (undotted_of_not_mem ht)
  rw [resolveMessage, hcurrent, hnamed]
  exact Mention.substituteM_embedded_of_not_mem ht

/-- The sample that a reference leads to is known. -/
theorem found_spec (hs : s ∈ r.samples) :
    r.sampleFrom? s.file s.startLine = some (r.found s) ∧ r.found s ∈ r.samples := by
  obtain ⟨t, ht, hfind, -⟩ := r.exists_sampleFrom? hs
  have hfound : r.found s = t := by rw [found, hfind, Option.getD_some]
  rw [hfound]
  exact ⟨hfind, ht⟩

/-- **A reference to a sample is read** with the numbers behind it, and becomes a place in the document. -/
theorem matchAt_reference (h : r.Knows directory) (hs : s ∈ r.samples) (hstored : s.Stored directory)
    {line column : Nat} (hline : Short line) (hcolumn : Short column) (offset : Offset) (place : Option Path)
    (b : Option Char) :
    ∃ m, embedded.matchAt b (s.reference ++ (':' :: Text.ofNat line ++ ':' :: Text.ofNat column)) = some m ∧
      m.rest = [] ∧ r.unmark offset place m = .ok (r.documentAt s line column) := by
  obtain ⟨run, first, last, hrun, hfirst, hfile, hreference⟩ := hstored.exists_reference
  obtain ⟨hfound, hmem⟩ := found_spec hs
  have hurl : ([] : Text) = [] ∨ [] = FileUrl.scheme := .inl rfl
  have hend : NoDigit [] := by simp [NoDigit]
  obtain ⟨m, hm, hrest, hparts⟩ := matchAt_embedded hurl (rooted_slash hrun) (digits_ofNat first)
    (digits_ofNat last) .nothing (digits_ofNat line) (digits_ofNat column) hend b
  rw [← hfile] at hparts
  have hunmark := hstored.unmark_of_found hfound (h.short _ hmem) hfirst hparts
    (by rwa [Short, Int.natAbs_natCast] at hline) (by rwa [Short, Int.natAbs_natCast] at hcolumn) offset place
  rw [Text.valueOfDigits_ofNat, Text.valueOfDigits_ofNat] at hunmark
  refine ⟨m, ?_, hrest, ?_⟩
  · rw [hreference]
    simpa using hm
  · rw [hunmark, documentAt]
    simp

/-- **A line with one reference becomes a line with a place** in the document. -/
theorem resolveMessage_reference (h : r.Knows directory) (hs : s ∈ r.samples) (hstored : s.Stored directory)
    (hlead : '$' ∉ lead) (hinvites : Mention.Invites lead) {line column : Nat} (hline : Short line)
    (hcolumn : Short column) {offset : Offset} {current : Option Text} {place : Option Path}
    (hcurrent : current.mapM r.absolute = .ok place) :
    r.resolveMessage (lead ++ (s.reference ++ (':' :: Text.ofNat line ++ ':' :: Text.ofNat column))) offset
      current = .ok (lead ++ r.documentAt s line column) := by
  obtain ⟨run, first, last, hrun, -, -, hreference⟩ := hstored.exists_reference
  let mark := Text.ofNat first ++ '-' :: Text.ofNat last
  let numbers := ':' :: Text.ofNat line ++ ':' :: Text.ofNat column
  have hbefore : '$' ∉ lead ++ '/' :: run := by
    rw [List.mem_append, List.mem_cons, not_or, not_or]
    exact ⟨hlead, by decide, fun hmem => (hrun '$' hmem).2 rfl⟩
  have hbehind : '$' ∉ mark ++ numbers := by simp [mark, numbers, Text.not_mem_ofNat]
  have htext : lead ++ (s.reference ++ numbers) = (lead ++ '/' :: run) ++ '$' :: (mark ++ numbers) := by
    rw [hreference]
    simp [mark]
  have hnamed : r.nameSamples (lead ++ (s.reference ++ numbers)) = lead ++ (s.reference ++ numbers) := by
    refine h.nameSamples_of_undotted ?_
    rw [htext, undotted_append hbefore, undotted_cons_dollar]
    refine ⟨fun hdot => ?_, undotted_of_not_mem hbehind⟩
    have hname : leadingName (mark ++ numbers) = leadingName mark := leadingName_append_cons (x := ':') (by decide) ..
    have hin : '.' ∈ mark := (List.takeWhile_prefix _).subset (hname ▸ hdot)
    simp [mark, Text.not_mem_ofNat] at hin
  have hplaced : embedded.Turns (r.unmark offset place) (s.reference ++ numbers)
      (r.documentAt s line column ++ []) := by
    refine Turns.hit ?_ (h.matchAt_reference hs hstored hline hcolumn offset place) Turns.nil
    rw [hreference]
    simp
  have hturns : embedded.Turns (r.unmark offset place) (lead ++ (s.reference ++ numbers))
      (lead ++ (r.documentAt s line column ++ [])) := by
    refine Turns.through (fun v hv hvl b m hm => ?_) hplaced
    rw [Mention.matchAt_embedded_of_invites hlead hinvites hv hvl] at hm
    cases hm
  rw [List.append_nil] at hturns
  rw [resolveMessage, hcurrent, hnamed]
  exact substituteM_of_turns hturns

/-! ## The message of a report -/

/-- The spelling of a sample file is an absolute path with a dollar sign. -/
theorem exists_place (h : r.Knows directory) (hstored : s.Stored directory) :
    (∃ rest, s.place = '/' :: rest) ∧ '$' ∈ s.place ∧ Path.inside directory <+: s.place := by
  obtain ⟨name, hname, -, hplace⟩ := hstored.exists_name h.ne_nil
  obtain ⟨stem, ending, rfl, -, -⟩ := hname.marked
  obtain ⟨rest, hinside⟩ : ∃ rest, Path.inside directory = '/' :: rest := by
    rw [Path.inside, Path.toText_ofAbsolute]
    exact ⟨_, rfl⟩
  rw [hplace]
  refine ⟨⟨rest ++ (stem ++ '$' :: ending), ?_⟩, by simp, List.prefix_append _ _⟩
  rw [hinside, List.cons_append]

theorem lineOf_append (h : r.Knows directory) (hstored : s.Stored directory) (hnewline : '\n' ∉ s.place)
    (offset : Offset) (t u : Text) : r.lineOf s offset (t ++ '\n' :: u) = do
      let t' ← r.lineOf s offset t
      let u' ← r.lineOf s offset u
      return t' ++ '\n' :: u' := by
  obtain ⟨⟨rest, hplace⟩, -, hinside⟩ := h.exists_place hstored
  have hroot : ∀ root ∈ r.sampleRoot?, '\n' ∉ root := by
    intro root hroot
    rw [h.sampleRoot?_eq] at hroot
    exact Option.some.inj hroot ▸ fun hmem => hnewline (hinside.subset hmem)
  exact lineOf_append_cons (by decide) hroot (hplace ▸ List.cons_ne_nil '/' rest) hnewline offset t u

theorem lineOf_of_not_mem (h : r.Knows directory) (hstored : s.Stored directory) (ht : '$' ∉ t)
    (offset : Offset) : r.lineOf s offset t = .ok t := by
  obtain ⟨-, hdollar, -⟩ := h.exists_place hstored
  have hmisses : Text.Misses s.place t [] := by
    intro v _ hvt hbegin
    rw [List.append_nil] at hbegin
    exact ht (hvt.subset (hbegin.subset hdollar))
  have hcurrent : (some s.file.toText).mapM r.absolute = .ok (some s.file) := by
    rw [Option.mapM_some, hstored.absolute_file r]
    rfl
  rw [lineOf, Text.replaceAll_of_misses hmisses]
  exact h.resolveMessage_of_not_mem ht hcurrent

theorem lineOf_place (h : r.Knows directory) (hs : s ∈ r.samples) (hstored : s.Stored directory)
    (hlead : '$' ∉ lead ∧ '/' ∉ lead) (hinvites : Mention.Invites lead) {line column : Nat} (hline : Short line)
    (hcolumn : Short column) (offset : Offset) :
    r.lineOf s offset (lead ++ s.placeAt line column) = .ok (lead ++ r.documentAt s line column) := by
  obtain ⟨⟨rest, hplace⟩, hdollar, -⟩ := h.exists_place hstored
  let numbers := ':' :: Text.ofNat line ++ ':' :: Text.ofNat column
  have hbefore : Text.Misses s.place lead (s.place ++ numbers) := by
    rw [hplace]
    exact Text.misses_of_not_mem hlead.2 _ _
  have hbehind : Text.Misses s.place numbers [] := by
    rw [hplace]
    exact Text.misses_of_not_mem (by simp [numbers, Text.not_mem_ofNat]) _ _
  have hcurrent : (some s.file.toText).mapM r.absolute = .ok (some s.file) := by
    rw [Option.mapM_some, hstored.absolute_file r]
    rfl
  rw [lineOf, Sample.placeAt, Text.replaceAll_append_of_misses hbefore,
    Text.replaceAll_append (hplace ▸ List.cons_ne_nil '/' rest), Text.replaceAll_of_misses hbehind]
  exact h.resolveMessage_reference hs hstored hlead.1 hinvites hline hcolumn hcurrent

/-- **The line that names the place is the only one that changes.** -/
theorem lineOf_joinWith (h : r.Knows directory) (hs : s ∈ r.samples) (hstored : s.Stored directory)
    (hnewline : '\n' ∉ s.place) (hlead : '$' ∉ lead ∧ '/' ∉ lead) (hinvites : Mention.Invites lead)
    {line column : Nat} (hline : Short line) (hcolumn : Short column) {above below : List Text}
    (hplain : ∀ t ∈ above ++ below, '$' ∉ t) (offset : Offset) :
    r.lineOf s offset (Text.joinWith ['\n'] (above ++ (lead ++ s.placeAt line column) :: below)) =
      .ok (Text.joinWith ['\n'] (above ++ (lead ++ r.documentAt s line column) :: below)) := by
  obtain ⟨habove, hbelow⟩ := List.forall_mem_append.1 hplain
  have hstays : ∀ lines : List Text, (∀ t ∈ lines, '$' ∉ t) → lines.mapM (r.lineOf s offset) = .ok lines := by
    intro lines hall
    rw [mapM_eq_ok_map (g := id) fun t ht => h.lineOf_of_not_mem hstored (hall t ht) _, List.map_id]
  rw [Text.joinWith_mapM (f := r.lineOf s offset) (h.lineOf_append hstored hnewline offset)
    (List.append_ne_nil_of_right_ne_nil above (List.cons_ne_nil _ below)), List.mapM_append, List.mapM_cons,
    hstays above habove, hstays below hbelow, h.lineOf_place hs hstored hlead hinvites hline hcolumn]
  rfl

/-- The file of a stored sample leads to the sample. -/
theorem sampleAt?_place (h : r.Knows directory) (hs : s ∈ r.samples) (hstored : s.Stored directory) :
    FileUrl.path s.place = .ok s.place ∧ r.isInSampleDir s.place = true ∧ r.sampleAt? s.place = some s := by
  have hpath : FileUrl.path s.place = .ok s.place := by
    obtain ⟨name, -, -, hplace⟩ := hstored.exists_name h.ne_nil
    rw [hplace, ← Path.toText_inside h.ne_nil]
    exact FileUrl.path_toText _
  exact ⟨hpath, hstored.isInSampleDir_place h.ne_nil h.sampleDir,
    hstored.sampleAt?_place h.ne_nil h.spellable hs h.nodup⟩

end Knows

/-- **A report on a place in a sample is brought back to the sample's document**, in its fields and in the line
of its message that names the place; every other line stays. -/
theorem resolve_placed (h : r.Knows directory) (hs : s ∈ r.samples) (hstored : s.Stored directory)
    (hnewline : '\n' ∉ s.place) {d : Draft} {kind : Kind} (hkind : d.kind = .ok kind)
    (hlead : '$' ∉ lead ∧ '/' ∉ lead) (hinvites : Mention.Invites lead) {line column : Nat} (hline : Short line)
    (hcolumn : Short column) {above below : List Text} (hplain : ∀ t ∈ above ++ below, '$' ∉ t)
    (hsaid : d.message = .ok (Text.joinWith ['\n'] (above ++ (lead ++ s.placeAt line column) :: below)))
    (hfile : d.get? "file" = some s.place) (hfirst : d.get? "line" = some (Text.ofNat line))
    (hsecond : d.get? "column" = some (Text.ofNat column)) :
    ∃ named, r.resolve d = .ok (((moved d s.place named (Text.ofInt (line + s.startLine))
      (Text.ofInt (column + s.column - 1)) s.file.toText).set "message"
        (Text.joinWith ['\n'] (above ++ (lead ++ r.documentAt s line column) :: below))).set
          "file" (r.shown s)) := by
  have hlength : ∀ {n : Nat}, Short n → (Text.ofNat n).length ≤ Text.maxDigits := fun {n} hn => by
    rw [Short, Int.natAbs_natCast] at hn
    exact Nat.le_of_lt hn
  obtain ⟨hvalue, hinside, hsample⟩ := h.sampleAt?_place hs hstored
  obtain ⟨hstart, hwidth⟩ := hstored.short
  have hresolve := resolve_eq_bind hkind hsaid hfile hvalue hinside hsample
    (integer?_ofNat hfirst (hlength hline)) (integer?_ofNat hsecond (hlength hcolumn))
    (writeNumber_add hline hstart (k := line + s.startLine) (by omega))
    (writeNumber_add hcolumn hwidth (k := column + s.column - 1) (by omega))
  have hmessage := h.lineOf_joinWith hs hstored hnewline hlead hinvites hline hcolumn hplain (r.offset kind)
  have hdisplay : r.displayName s.file.toText = .ok (r.shown s) := by
    rw [displayName, hstored.absolute_file r]
    rfl
  have hunmarked : unmarked s.file.toText = s.file.toText := unmarked_of_not_mem hstored.dollar_not_mem_file
  rw [lineOf] at hmessage
  rw [hunmarked] at hresolve
  dsimp only at hresolve
  rw [hmessage, Except.bind, hdisplay] at hresolve
  exact ⟨_, hresolve⟩

end Resolver

end Fenceline
