import Fenceline.Location.Resolver
import Fenceline.Proofs.Location.FileUrl
import Fenceline.Proofs.Sample.Blocks
import Fenceline.Proofs.Text.Numeral

/-!
# A place in a sample is a place in its document

A character of a sample's content stands in the document as many lines below the opening fence as its
line has, and as many columns behind the indent. The content is made by cutting the width of the indent
off every line, whatever stands there, so this holds for lines that do not repeat all of the indent too.

**The law** (`resolve_character`): a report on a sample's file whose line and column are those of a
character of the content is brought back to a line and a column of the document where this character
stands, for every kind of report and every way of naming the file. Nothing but the references inside of
its message can keep it from being brought back.

**What it does not establish.** The name of a file has to lead to it: a path behind the scheme of a file
URL is read as a URL, so an escape in it leads elsewhere (`resolve_elsewhere`).
-/

namespace Fenceline

/-- The character at a line and a column of some lines, both counted from one. -/
def Text.charAt? (lines : List Text) : Nat → Nat → Option Char
  | line + 1, column + 1 => lines[line]?.bind fun l => l[column]?
  | _, _ => none

namespace Sample

theorem content_ofBlock (file : Path) (fence : Fence) (start : Int) (lines : List Text) :
    (ofBlock file fence start lines).content =
      Text.unlines (lines.map (·.drop fence.indent.length)) := by
  simp only [ofBlock, Text.unlines, List.flatMap_map]

/-- No line of a block holds a line feed. -/
theorem newline_not_mem_of_isBlock {text : Text} {n : Nat} {fence : Fence} {lines : List Text}
    (h : IsBlock text.documentLines n fence lines) {l : Text} (hl : l ∈ lines) : '\n' ∉ l := by
  obtain ⟨i, hi, rfl⟩ := List.mem_iff_getElem.1 hl
  have hline : text.documentLines[n + 1 + i]? = some lines[i] := by
    rw [h.getElem?_inside hi, List.getElem?_eq_getElem hi]
  exact Text.newline_not_mem_documentLines hline

/-- The lines of a sample's content are those of its block behind the width of the indent; nothing stands
behind the last line feed. -/
theorem cutAt_content {text : Text} {n : Nat} {fence : Fence} {lines : List Text}
    (h : IsBlock text.documentLines n fence lines) (document : Path) :
    (ofBlock document fence n lines).content.cutAt '\n' =
      lines.map (·.drop fence.indent.length) ++ [[]] := by
  rw [content_ofBlock, Text.cutAt_unlines]
  intro piece hpiece
  obtain ⟨l, hl, rfl⟩ := List.mem_map.1 hpiece
  exact fun hmem => newline_not_mem_of_isBlock h hl (List.mem_of_mem_drop hmem)

/-- A sample knows its document. -/
theorem file_of_mem_findAll {text : Text} {document : Path} {s : Sample}
    (hs : s ∈ findAll text document) : s.file = document := by
  obtain ⟨n, fence, lines, _, rfl⟩ := isBlock_of_mem_findAll hs
  rfl

/-- **A character of a sample's content stands in the document**, as many lines below the opening fence
and as many columns behind the indent. -/
theorem charAt?_content {text : Text} {document : Path} {s : Sample} (hs : s ∈ findAll text document)
    {line column : Nat} {x : Char}
    (hx : Text.charAt? (s.content.cutAt '\n') line column = some x) :
    ∃ line' column' : Nat, (line' : Int) = line + s.startLine ∧ (column' : Int) = column + s.column - 1 ∧
      (line ≤ line' ∧ line' ≤ text.length) ∧ (column ≤ column' ∧ column' ≤ text.length) ∧
      Text.charAt? ((text.cutAt '\n').map Text.dropReturn) line' column' = some x := by
  obtain ⟨n, fence, lines, hblock, rfl⟩ := isBlock_of_mem_findAll hs
  have hcut := cutAt_content hblock document
  rw [hcut] at hx
  match line, column, hx with
  | i + 1, j + 1, hx =>
    obtain ⟨piece, hpiece, hchar⟩ := Option.bind_eq_some_iff.1 hx
    -- the empty piece behind the last line feed holds no character
    have hi : i < lines.length := by
      by_contra hge
      rw [List.getElem?_append_right (by simpa using hge)] at hpiece
      have hempty : piece = [] := by simpa using List.mem_of_getElem? hpiece
      rw [hempty] at hchar
      cases hchar
    rw [List.getElem?_append_left (by simpa using hi), List.getElem?_map, Option.map_eq_some_iff]
      at hpiece
    obtain ⟨l, hl, rfl⟩ := hpiece
    rw [List.getElem?_drop] at hchar
    have hline : text.documentLines[n + 1 + i]? = some l := by rw [hblock.getElem?_inside hi, hl]
    refine ⟨n + 1 + i + 1, fence.indent.length + j + 1, ?_, ?_, ?_, ?_, ?_⟩
    · simp only [ofBlock]
      omega
    · simp only [ofBlock]
      omega
    · have hend := hblock.end_lt
      have hlength := Text.length_documentLines_le text
      exact ⟨by omega, by omega⟩
    · have hcolumn := (List.getElem?_eq_some_iff.1 hchar).1
      have hlength := Text.length_line_le hline
      exact ⟨by omega, by omega⟩
    · rw [Text.charAt?, Text.getElem?_documentLines hline]
      exact hchar

end Sample

namespace Resolver

variable {r : Resolver}

/-! ## Finding the sample -/

/-- A place in the directory of the samples is one of a sample file. -/
theorem isInSampleDir_toText {directory : Absolute} (hdirectory : directory ≠ [])
    (hroot : r.sampleDir = some (.ofAbsolute directory)) (name : Text) :
    r.isInSampleDir (Path.ofAbsolute (directory ++ [name])).toText = true := by
  rw [isInSampleDir, sampleRoot?, hroot, Option.map_some, Option.any_some, List.isPrefixOf_iff_prefix,
    Path.toText_append hdirectory]
  exact ⟨name, by rw [List.append_assoc, List.singleton_append]⟩

/-- Where each sample has a file of its own, a sample is found by its file. -/
theorem sampleAt?_of_mem {s : Sample} (hs : s ∈ r.samples) (hnodup : (r.samples.map (·.path)).Nodup)
    {file : Text} (hpath : s.path = some (Path.ofText file)) : r.sampleAt? file = some s := by
  obtain ⟨before, after, hsamples⟩ := List.append_of_mem hs
  rw [hsamples, List.map_append, List.map_cons, List.nodup_append] at hnodup
  have hbefore : before.find? (·.path == some (Path.ofText file)) = none := by
    rw [List.find?_eq_none]
    intro t ht
    have hne := hnodup.2.2 _ (List.mem_map_of_mem ht) _ List.mem_cons_self
    rw [hpath] at hne
    simpa using hne
  rw [sampleAt?, hsamples, List.find?_append, hbefore, Option.none_or,
    List.find?_cons_of_pos (by simp [hpath])]

/-- Where a sample's document and line lead: to a known sample of the document that begins in the line. -/
theorem exists_sampleFrom? {s : Sample} (hs : s ∈ r.samples) :
    ∃ t ∈ r.samples, r.sampleFrom? s.file s.startLine = some t ∧ t.file = s.file ∧
      t.startLine = s.startLine := by
  cases hfind : r.sampleFrom? s.file s.startLine with
  | none =>
    have hnone := List.find?_eq_none.1 hfind s (List.mem_reverse.2 hs)
    simp at hnone
  | some t =>
    have hfound := List.find?_some hfind
    rw [Bool.and_eq_true, beq_iff_eq, beq_iff_eq] at hfound
    exact ⟨t, List.mem_reverse.1 (List.mem_of_find?_eq_some hfind), rfl, hfound⟩

/-! ## Bringing back a report on a sample -/

/-- A number with few enough digits is written with them. -/
theorem writeNumber_ofNat {n : Nat} (h : (Text.ofNat n).length ≤ Text.maxDigits) :
    Reference.writeNumber n = .ok (Text.ofNat n) := by
  rw [Reference.writeNumber, Int.natAbs_natCast, if_pos h]
  rfl

/-- The draft of a report on the file of a sample, moved to the sample's document. -/
def moved (d : Draft) (file message line column document : Text) : Draft :=
  ((((d.set "file" file).set "message" message).set "line" line).set "column" column).set "file" document

section moved

variable (d : Draft) (file message line column document : Text)

@[simp] theorem get?_moved_file : (moved d file message line column document).get? "file" =
    some document := by
  simp only [moved, Keyed.get?_set_self]

@[simp] theorem get?_moved_column : (moved d file message line column document).get? "column" =
    some column := by
  rw [moved, Keyed.get?_set_of_ne _ _ (by decide), Keyed.get?_set_self]

@[simp] theorem get?_moved_line : (moved d file message line column document).get? "line" =
    some line := by
  rw [moved, Keyed.get?_set_of_ne _ _ (by decide), Keyed.get?_set_of_ne _ _ (by decide),
    Keyed.get?_set_self]

@[simp] theorem message_moved : (moved d file message line column document).message =
    .ok message := by
  have hget : (moved d file message line column document).get? "message" = some message := by
    rw [moved, Keyed.get?_set_of_ne _ _ (by decide), Keyed.get?_set_of_ne _ _ (by decide),
      Keyed.get?_set_of_ne _ _ (by decide), Keyed.get?_set_self]
  simp only [Draft.message, Draft.need, hget]

end moved

/-- What a message is resolved for can be shown too. -/
theorem displayName_of_resolveMessage {message text file : Text} {offset : Offset}
    (h : r.resolveMessage message offset (some file) = .ok text) :
    ∃ shown, r.displayName file = .ok shown := by
  obtain ⟨current, hcurrent, _⟩ := bind_eq_ok.1 h
  cases habsolute : r.absolute file with
  | error failure => simp [habsolute] at hcurrent
  | ok path => exact ⟨_, by simp only [displayName, habsolute]; rfl⟩

section sample

variable {d : Draft} {kind : Kind} {message value file line column : Text} {s : Sample} {l c : Int}
  (hkind : d.kind = .ok kind) (hmessage : d.message = .ok message) (hfile : d.get? "file" = some value)
  (hvalue : FileUrl.path value = .ok file) (hinside : r.isInSampleDir file = true)
  (hsample : r.sampleAt? file = some s) (hl : integer? d "line" = some l) (hc : integer? d "column" = some c)
  (hline : Reference.writeNumber (l + s.startLine) = .ok line)
  (hcolumn : Reference.writeNumber (c + s.column - 1) = .ok column)

include hmessage hfile hvalue hinside hsample hl hc hline hcolumn

/-- **The fields of a report on a sample** are those of the sample's document. -/
theorem resolveFields_sample (offset : Offset) : r.resolveFields d offset =
    .ok (moved d file (message.replaceAll file s.reference) line column s.file.toText) := by
  have hset : ∀ name, name ≠ "file" → (d.set "file" file).get? name = d.get? name :=
    fun name h => Keyed.get?_set_of_ne d file h
  have hmessage' : Draft.message (d.set "file" file) = .ok message := by
    rw [← hmessage, Draft.message, Draft.message, Draft.need, Draft.need, hset _ (by decide)]
  have hl' : integer? (d.set "file" file) "line" = some l := by
    rw [← hl, integer?, integer?, hset _ (by decide)]
  have hc' : integer? (d.set "file" file) "column" = some c := by
    rw [← hc, integer?, integer?, hset _ (by decide)]
  simp only [resolveFields, hfile, hvalue, bind, Except.bind, hinside, if_true, resolveSample, hsample,
    placeInSample, hmessage', hl', hc', hline, hcolumn]
  rfl

include hkind

/-- **What a report on a sample becomes**: one on the sample's document, if its message can be resolved. -/
theorem resolve_eq_bind :
    let document := Reference.unmarked s.file.toText
    r.resolve d =
      (r.resolveMessage (message.replaceAll file s.reference) (r.offset kind) (some document)).bind fun text =>
        (r.displayName document).bind fun shown =>
          .ok (((moved d file (message.replaceAll file s.reference) line column s.file.toText).set
            "message" text).set "file" shown) := by
  have hfields := resolveFields_sample hmessage hfile hvalue hinside hsample hl hc hline hcolumn
    (r.offset kind)
  simp only [resolve, hkind, hfields, message_moved, get?_moved_file, Option.map_some, bind, Except.bind]
  rfl

/-- **A report on a sample is brought back to its document if its message can be.** -/
theorem resolve_sample :
    let document := Reference.unmarked s.file.toText
    let said := r.resolveMessage (message.replaceAll file s.reference) (r.offset kind) (some document)
    (∀ e, r.resolve d = .ok e → e.get? "line" = some line ∧ e.get? "column" = some column) ∧
      ((∃ e, r.resolve d = .ok e) ↔ ∃ text, said = .ok text) := by
  intro document said
  have hresolve := resolve_eq_bind hkind hmessage hfile hvalue hinside hsample hl hc hline hcolumn
  constructor
  · intro e he
    rw [hresolve] at he
    obtain ⟨text, _, he⟩ := bind_eq_ok.1 he
    obtain ⟨shown, _, he⟩ := bind_eq_ok.1 he
    obtain rfl := Except.ok.inj he
    constructor
    · rw [Keyed.get?_set_of_ne _ _ (by decide), Keyed.get?_set_of_ne _ _ (by decide), get?_moved_line]
    · rw [Keyed.get?_set_of_ne _ _ (by decide), Keyed.get?_set_of_ne _ _ (by decide),
        get?_moved_column]
  · rw [hresolve]
    constructor
    · rintro ⟨e, he⟩
      obtain ⟨text, htext, _⟩ := bind_eq_ok.1 he
      exact ⟨text, htext⟩
    · rintro ⟨text, htext⟩
      obtain ⟨shown, hshown⟩ := displayName_of_resolveMessage htext
      exact ⟨_, bind_eq_ok.2 ⟨text, htext, bind_eq_ok.2 ⟨shown, hshown, rfl⟩⟩⟩

end sample

theorem integer?_ofNat {d : Draft} {name : String} {n : Nat} (hget : d.get? name = some (Text.ofNat n))
    (hn : (Text.ofNat n).length ≤ Text.maxDigits) : integer? d name = some (n : Int) := by
  rw [integer?, hget, Option.bind_some, Text.readInt?_ofNat hn]

theorem exists_ok_of_toOption {ε α : Type} {x : Except ε α} {a : α} (h : x.toOption = some a) :
    ∃ b, x = .ok b := by
  cases x with
  | ok b => exact ⟨b, rfl⟩
  | error _ => cases h

/-- **A report on a character of a sample is brought back to this character of the document.** The sample
is one of any document, stored in a file of the directory that the resolver knows, with a file of its own;
the character is any one of its content. The report may be of any kind, name the file in any way that leads
to it, and say anything; it is brought back if and only if the references in what it says are. -/
theorem resolve_character {text : Text} {document : Path} {s : Sample}
    (hs : s ∈ Sample.findAll text document)
    (htext : (Text.ofNat text.length).length ≤ Text.maxDigits)
    {directory : Absolute} {name : Text} (hdirectory : directory ≠ [])
    (hspellable : Path.Spellable (directory ++ [name])) {r : Resolver}
    (hroot : r.sampleDir = some (.ofAbsolute directory))
    (hstored : { s with path := some (.ofAbsolute (directory ++ [name])) } ∈ r.samples)
    (hnodup : (r.samples.map (·.path)).Nodup) {line column : Nat} {x : Char}
    (hx : Text.charAt? (s.content.cutAt '\n') line column = some x) :
    let place := (Path.ofAbsolute (directory ++ [name])).toText
    ∃ line' column' : Nat, (line' : Int) = line + s.startLine ∧ (column' : Int) = column + s.column - 1 ∧
      Text.charAt? ((text.cutAt '\n').map Text.dropReturn) line' column' = some x ∧
      FileUrl.path place = .ok place ∧
      (FileUrl.Plain place → FileUrl.path (FileUrl.scheme ++ place) = .ok place) ∧
      ∀ (d : Draft) (kind : Kind) (message value : Text), d.kind = .ok kind → d.message = .ok message →
        d.get? "file" = some value → FileUrl.path value = .ok place →
        d.get? "line" = some (Text.ofNat line) → d.get? "column" = some (Text.ofNat column) →
        (∀ e, r.resolve d = .ok e →
            e.get? "line" = some (Text.ofNat line') ∧ e.get? "column" = some (Text.ofNat column')) ∧
          ((∃ e, r.resolve d = .ok e) ↔
            ∃ said, r.resolveMessage (message.replaceAll place s.reference) (r.offset kind)
              (some (Reference.unmarked document.toText)) = .ok said) := by
  intro place
  obtain ⟨line', column', hline, hcolumn, hlineBound, hcolumnBound, hchar⟩ := Sample.charAt?_content hs hx
  refine ⟨line', column', hline, hcolumn, hchar, FileUrl.path_toText _, FileUrl.path_scheme_toText, ?_⟩
  intro d kind message value hkind hmessage hfile hvalue hl hc
  have digits : ∀ {n : Nat}, n ≤ text.length → (Text.ofNat n).length ≤ Text.maxDigits :=
    fun h => Text.length_ofNat_le_of_le (by decide) h htext
  have hpath : some (Path.ofAbsolute (directory ++ [name])) = some (Path.ofText place) := by
    rw [Path.ofText_toText hspellable]
  have hsample := sampleAt?_of_mem hstored hnodup hpath
  have hwriteLine : Reference.writeNumber ((line : Int) + s.startLine) = .ok (Text.ofNat line') := by
    rw [← hline, writeNumber_ofNat (digits hlineBound.2)]
  have hwriteColumn : Reference.writeNumber ((column : Int) + s.column - 1) =
      .ok (Text.ofNat column') := by
    rw [← hcolumn, writeNumber_ofNat (digits hcolumnBound.2)]
  have hresolved := resolve_sample hkind hmessage hfile hvalue
    (isInSampleDir_toText hdirectory hroot name) hsample
    (integer?_ofNat hl (digits (by omega))) (integer?_ofNat hc (digits (by omega))) hwriteLine hwriteColumn
  rw [← Sample.file_of_mem_findAll hs]
  exact hresolved

/-- A sample in a comment, one of its lines without the space of the indent. -/
theorem resolve_character_comment :
    let text : Text := "/**\n * ```ts\n * ab\n *xcd\n * ```\n */\n".toList
    let document : Path := .ofAbsolute ["a.ts".toList]
    let s : Sample := ⟨document, 2, 2, 4, " * ".toList, some "ts".toList, "ab\ncd\n".toList, none⟩
    let place : Absolute := ["t".toList, "x$2-5.ts".toList]
    let r : Resolver :=
      { cwd := .ofAbsolute []
        samples := [{ s with path := some (.ofAbsolute place) }]
        sampleDir := some (.ofAbsolute ["t".toList]) }
    let d : Draft := [("kind", "check".toList), ("message", "bad\n  at file:///t/x$2-5.ts:2:1".toList),
      ("file", "file:///t/x$2-5.ts".toList), ("line", "2".toList), ("column", "1".toList)]
    Text.charAt? ((text.cutAt '\n').map Text.dropReturn) 4 4 = some 'c' ∧
      ∃ e, r.resolve d = .ok e ∧ e.get? "line" = some "4".toList ∧ e.get? "column" = some "4".toList := by
  intro text document s place r d
  have hfound : Sample.findAll text document = [s] := Sample.findAll_eq_of_scanWithin 7 (by decide +kernel)
  have hs : s ∈ Sample.findAll text document := by simp [hfound]
  have hdirectory : (["t".toList] : Absolute) ≠ [] := by decide
  have hspellable : Path.Spellable (["t".toList] ++ ["x$2-5.ts".toList]) := by decide
  have hroot : r.sampleDir = some (.ofAbsolute ["t".toList]) := rfl
  have hx : Text.charAt? (s.content.cutAt '\n') 2 1 = some 'c' := by decide +kernel
  obtain ⟨line', column', hline, hcolumn, hchar, _, hurl, hall⟩ := resolve_character hs
    (by decide +kernel) hdirectory hspellable hroot List.mem_cons_self (by decide) hx
  obtain rfl : line' = 4 := by simp only [s] at hline; omega
  obtain rfl : column' = 4 := by simp only [s] at hcolumn; omega
  obtain ⟨hright, hreturns⟩ := hall d .check _ _ (by decide) rfl rfl (hurl (by decide +kernel)) rfl rfl
  have hsaid : (r.resolveMessage (Text.replaceAll "bad\n  at file:///t/x$2-5.ts:2:1".toList
      (Path.ofAbsolute place).toText s.reference) (r.offset .check)
      (some (Reference.unmarked document.toText))).toOption =
        some "bad\n  at file:///a.ts:4:4".toList := by
    decide +kernel
  obtain ⟨e, he⟩ := hreturns.2 (exists_ok_of_toOption hsaid)
  exact ⟨hchar, e, he, hright e he⟩

/-- Three reports on the one character of a sample that are not brought back to it: the sample's path
holds an escape and is named behind the scheme of a URL; the sample is stored in the root; the message
refers to a path that no file can have. -/
theorem resolve_elsewhere :
    let text : Text := "```ts\nx\n```\n".toList
    let document : Path := .ofAbsolute ["a.ts".toList]
    let s : Sample := ⟨document, 1, 1, 1, [], some "ts".toList, "x\n".toList, none⟩
    let resolver (directory : Absolute) : Resolver :=
      { cwd := .ofAbsolute []
        samples := [{ s with path := some (.ofAbsolute (directory ++ ["x$1-3.ts".toList])) }]
        sampleDir := some (.ofAbsolute directory) }
    let draft (file message : Text) : Draft :=
      [("kind", "check".toList), ("message", message), ("file", file), ("line", ['1']),
        ("column", ['1'])]
    let place (e : Draft) := (e.get? "line", e.get? "column")
    s ∈ Sample.findAll text document ∧ Text.charAt? (s.content.cutAt '\n') 1 1 = some 'x' ∧
      Text.charAt? ((text.cutAt '\n').map Text.dropReturn) 2 4 = none ∧
      ((resolver ["t%41".toList]).resolve (draft (FileUrl.scheme ++ "/t%41/x$1-3.ts".toList)
        ['m'])).toOption.map place = some (some ['2'], some ['4']) ∧
      ((resolver []).resolve (draft "/x$1-3.ts".toList ['m'])).toOption.map place =
        some (some ['2'], some ['4']) ∧
      ((resolver ["t".toList]).resolve (draft "/t/x$1-3.ts".toList "/a\x00b$1-2:1:1".toList)).toOption =
        none := by
  intro text document s resolver draft place
  have hfound : Sample.findAll text document = [s] := Sample.findAll_eq_of_scanWithin 4 (by decide +kernel)
  refine ⟨by simp [hfound], ?_, ?_, ?_, ?_, ?_⟩ <;> decide +kernel

end Resolver

end Fenceline
