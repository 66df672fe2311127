import Fenceline.Proofs.Location.Interpretable
import Fenceline.Proofs.Location.Lines
import Fenceline.Proofs.Location.Mark

/-!
# References that no sample is known for

The toolchain reads code inside of documents by itself as well, and then prints a path with the mark of the code's
lines where a resolver knows of no sample (`Native`). Such a reference stands in the file of a report, and with a line
and a column behind it in messages. The one is read as a whole path (`matchStart_whole`), the other is found in
the message (`matchAt_native`), and what is added to the line and the column is said in two places.

**The law** (`resolve_native`): what a report tells of its place and what its message tells of the same place stay
the same place, but for the columns that the toolchain adds to the one and not to the other. What stands around
the reference becomes what it would become by itself, as no reference goes on behind a blank
(`resolveMessage_append_blank`).

**What it does not establish.** A reference into the directory of the sample files is left as it is in the file of
a report, as no sample is known for it, and yet counted from in the message (`resolve_native_astray`).
-/

namespace Fenceline

open Pattern

namespace Reference

/-- **A reference as the toolchain prints it**: a path, perhaps as a file URL, with a mark. -/
structure Native where
  isUrl : Bool
  file : Text
  first : Text
  last : Text
  ending : Text
  rooted : Rooted file
  plain : isUrl = true → file.head? = some '/' ∧ FileUrl.Plain file
  firstDigits : Digits first
  lastDigits : Digits last
  short : Readable first
  isEnding : Ending ending

namespace Native

variable (n : Native)

/-- How a file URL begins, if the path is printed as one. -/
def scheme : Text :=
  if n.isUrl then FileUrl.scheme else []

/-- The mark of the lines. -/
def mark : Text :=
  '$' :: (n.first ++ '-' :: (n.last ++ n.ending))

/-- The reference. -/
def text : Text :=
  n.scheme ++ (n.file ++ n.mark)

/-- The reference with a line and a column. -/
def placedAt (line column : Text) : Text :=
  n.text ++ (':' :: line ++ ':' :: column)

/-- The line that is counted from. -/
def start : Int :=
  Text.valueOfDigits n.first

variable {n}

theorem scheme_eq (n : Native) : n.scheme = [] ∨ n.scheme = FileUrl.scheme := by
  unfold scheme
  cases n.isUrl
  · exact .inl rfl
  · exact .inr rfl

theorem isMark (n : Native) : IsMark n.mark :=
  isMark_of_ending n.firstDigits n.lastDigits n.isEnding

/-- **A reference leads to its path**, with the mark. -/
theorem path_eq (n : Native) : FileUrl.path n.text = .ok (n.file ++ n.mark) := by
  cases hurl : n.isUrl with
  | false =>
    have htext : n.text = n.file ++ n.mark := by simp [text, scheme, hurl]
    rw [htext]
    refine FileUrl.path_of_not_url fun hscheme => ?_
    obtain ⟨rest, hrest⟩ := hscheme
    have hhead : (n.file ++ n.mark).head? = some 'f' := by
      rw [← hrest]
      rfl
    rw [List.head?_append] at hhead
    rcases n.rooted.head? with h | h <;> rw [h] at hhead <;> exact absurd (Option.some.inj hhead) (by decide)
  | true =>
    have htext : n.text = FileUrl.scheme ++ (n.file ++ n.mark) := by simp [text, scheme, hurl]
    obtain ⟨hhead, hplain⟩ := n.plain hurl
    obtain ⟨rest, hrest⟩ := List.head?_eq_some_iff.1 hhead
    rw [htext]
    rw [hrest] at hplain ⊢
    exact FileUrl.path_scheme_plain (List.forall_mem_append.2 ⟨hplain, n.isMark.plain⟩)

/-- **The path of a reference is read as a whole**, with its parts. -/
theorem matchStart_whole (n : Native) :
    ∃ m, whole.matchStart (n.file ++ n.mark) = some m ∧ m.get "file" = n.file ∧ m.get "start" = n.first := by
  have hline : '\n' ∉ n.file := fun hmem => absurd (n.rooted.plain '\n' hmem).1 (by decide +kernel)
  obtain ⟨m, hm, -, hfile, hstart, -⟩ := matchStart_whole_append hline n.firstDigits n.lastDigits n.isEnding
  exact ⟨m, hm, by rw [Match.get, hfile]; rfl, by rw [Match.get, hstart]; rfl⟩

/-- **A reference is found in a message**, with its parts. -/
theorem matchAt_native (n : Native) {line column : Text} (hline : Digits line) (hcolumn : Digits column)
    (b : Option Char) :
    ∃ m, embedded.matchAt b (n.placedAt line column) = some m ∧ m.rest = [] ∧
      HasParts m n.scheme n.file n.first line column := by
  have hnothing : NoDigit [] := fun x hx => nomatch hx
  obtain ⟨m, hm, hrest, hparts⟩ := matchAt_embedded n.scheme_eq n.rooted n.firstDigits n.lastDigits n.isEnding
    hline hcolumn hnothing b
  refine ⟨m, ?_, hrest, hparts⟩
  rw [← hm]
  simp [placedAt, text, mark]

end Native

end Reference

/-- **A text behind which a word may begin**: it ends in a blank, if there is anything of it. -/
def Text.EndsBlank (t : Text) : Prop :=
  ∀ x ∈ t.getLast?, Text.isBlank x = true

instance (t : Text) : Decidable t.EndsBlank :=
  Option.decidableForallMem t.getLast?

/-- **A text in front of which a word may end**: it begins with a blank, if there is anything of it. -/
def Text.BeginsBlank (t : Text) : Prop :=
  ∀ x ∈ t.head?, Text.isBlank x = true

instance (t : Text) : Decidable t.BeginsBlank :=
  Option.decidableForallMem t.head?

namespace Resolver

open Reference

variable {r : Resolver} {n : Native} {d e : Draft} {offset : Offset} {current : Option Text}
  {t u said line column : Text}

/-! ## Messages with blanks -/

/-- Without samples a message keeps the paths in it. -/
theorem nameSamples_eq_self (h : r.samples = []) (t : Text) : r.nameSamples t = t := by
  unfold nameSamples
  cases r.sampleRoot? with
  | none => rfl
  | some root =>
    have hunknown : ∀ file, r.sampleAt? file = none := fun file => by
      rw [sampleAt?, h]
      rfl
    refine substitute_of_turns ?_
    rw [← List.append_nil t]
    refine Turns.through (fun v _ _ b m _ => ⟨Nat.zero_le _, ?_⟩) Turns.nil
    rw [hunknown]
    rfl

/-- **What stands around a blank is brought back by itself.** -/
theorem resolveMessage_append_blank (hsamples : r.samples = []) {x : Char} (hx : Text.isBlank x = true) :
    r.resolveMessage (t ++ x :: u) offset current = .ok said ↔ ∃ t' u',
      r.resolveMessage t offset current = .ok t' ∧ r.resolveMessage u offset current = .ok u' ∧
        said = t' ++ x :: u' := by
  have hnames : ∀ t u, r.nameSamples (t ++ x :: u) = r.nameSamples t ++ x :: r.nameSamples u := fun t u => by
    simp only [nameSamples_eq_self hsamples]
  rw [resolveMessage_append hnames (inline_embedded_of_isBlank hx)]
  constructor
  · intro h
    obtain ⟨t', ht, h⟩ := bind_eq_ok.1 h
    obtain ⟨u', hu, h⟩ := bind_eq_ok.1 h
    cases h
    exact ⟨t', u', ht, hu, rfl⟩
  · rintro ⟨t', u', ht, hu, rfl⟩
    exact bind_eq_ok.2 ⟨t', ht, bind_eq_ok.2 ⟨u', hu, rfl⟩⟩

/-- Where a message can be brought back, nothing is brought back to nothing. -/
theorem resolveMessage_nil (hsamples : r.samples = []) (h : r.resolveMessage t offset current = .ok said) :
    r.resolveMessage [] offset current = .ok [] := by
  obtain ⟨place, hplace, -⟩ := bind_eq_ok.1 h
  refine bind_eq_ok.2 ⟨place, hplace, ?_⟩
  rw [nameSamples_eq_self hsamples]
  exact substituteM_of_turns Turns.nil

/-- What ends in a blank still does. -/
theorem endsBlank_of_resolveMessage (hsamples : r.samples = []) (ht : t.EndsBlank)
    (h : r.resolveMessage t offset current = .ok said) : said.EndsBlank := by
  rcases List.eq_nil_or_concat' t with rfl | ⟨front, x, rfl⟩
  · obtain rfl := Except.ok.inj ((resolveMessage_nil hsamples h).symm.trans h)
    exact ht
  · have hx : Text.isBlank x = true := ht x List.getLast?_concat
    obtain ⟨front', nothing, -, hnothing, rfl⟩ := (resolveMessage_append_blank hsamples hx).1 h
    obtain rfl := Except.ok.inj ((resolveMessage_nil hsamples hnothing).symm.trans hnothing)
    intro y hy
    rw [List.getLast?_concat] at hy
    exact Option.some.inj hy ▸ hx

/-- What begins with a blank still does. -/
theorem beginsBlank_of_resolveMessage (hsamples : r.samples = []) (ht : t.BeginsBlank)
    (h : r.resolveMessage t offset current = .ok said) : said.BeginsBlank := by
  cases t with
  | nil =>
    obtain rfl := Except.ok.inj ((resolveMessage_nil hsamples h).symm.trans h)
    exact ht
  | cons x t =>
    have hx : Text.isBlank x = true := ht x rfl
    obtain ⟨nothing, rest, hnothing, -, rfl⟩ := (resolveMessage_append_blank (t := []) hsamples hx).1 h
    obtain rfl := Except.ok.inj ((resolveMessage_nil hsamples hnothing).symm.trans hnothing)
    exact fun y hy => Option.some.inj hy ▸ hx

/-- What stands before a word is brought back by itself. -/
theorem resolveMessage_behind_blank (hsamples : r.samples = []) (ht : t.EndsBlank) :
    r.resolveMessage (t ++ u) offset current = .ok said ↔ ∃ t' u',
      r.resolveMessage t offset current = .ok t' ∧ r.resolveMessage u offset current = .ok u' ∧ said = t' ++ u' := by
  rcases List.eq_nil_or_concat' t with rfl | ⟨front, x, rfl⟩
  · constructor
    · exact fun h => ⟨[], said, resolveMessage_nil hsamples h, h, rfl⟩
    · rintro ⟨t', u', ht', hu', rfl⟩
      obtain rfl := Except.ok.inj ((resolveMessage_nil hsamples hu').symm.trans ht')
      exact hu'
  · have hx : Text.isBlank x = true := ht x List.getLast?_concat
    rw [List.append_assoc, List.singleton_append, resolveMessage_append_blank hsamples hx]
    constructor
    · rintro ⟨t', u', ht', hu', rfl⟩
      refine ⟨t' ++ [x], u', ?_, hu', by simp⟩
      exact (resolveMessage_append_blank hsamples hx).2 ⟨t', [], ht', resolveMessage_nil hsamples ht', rfl⟩
    · rintro ⟨t', u', ht', hu', rfl⟩
      obtain ⟨front', nothing, hfront, hnothing, rfl⟩ := (resolveMessage_append_blank hsamples hx).1 ht'
      obtain rfl := Except.ok.inj ((resolveMessage_nil hsamples hfront).symm.trans hnothing)
      exact ⟨front', u', hfront, hu', by simp⟩

/-- What stands behind a word is brought back by itself. -/
theorem resolveMessage_before_blank (hsamples : r.samples = []) (hu : u.BeginsBlank) :
    r.resolveMessage (t ++ u) offset current = .ok said ↔ ∃ t' u',
      r.resolveMessage t offset current = .ok t' ∧ r.resolveMessage u offset current = .ok u' ∧ said = t' ++ u' := by
  cases u with
  | nil =>
    rw [List.append_nil]
    constructor
    · exact fun h => ⟨said, [], h, resolveMessage_nil hsamples h, (List.append_nil _).symm⟩
    · rintro ⟨t', u', ht', hu', rfl⟩
      obtain rfl := Except.ok.inj ((resolveMessage_nil hsamples ht').symm.trans hu')
      rwa [List.append_nil]
  | cons x u =>
    have hx : Text.isBlank x = true := hu x rfl
    have hfront : ∀ u', r.resolveMessage (x :: u) offset current = .ok u' ↔ ∃ nothing rest,
        r.resolveMessage [] offset current = .ok nothing ∧ r.resolveMessage u offset current = .ok rest ∧
          u' = nothing ++ x :: rest := fun u' => resolveMessage_append_blank (t := []) hsamples hx
    rw [resolveMessage_append_blank hsamples hx]
    constructor
    · rintro ⟨t', u', ht', hu', rfl⟩
      exact ⟨t', x :: u', ht', (hfront _).2 ⟨[], u', resolveMessage_nil hsamples ht', hu', rfl⟩, rfl⟩
    · rintro ⟨t', u', ht', hu', rfl⟩
      obtain ⟨nothing, rest, hnothing, hrest, rfl⟩ := (hfront _).1 hu'
      obtain rfl := Except.ok.inj ((resolveMessage_nil hsamples ht').symm.trans hnothing)
      exact ⟨t', rest, ht', hrest, rfl⟩

/-! ## The two places -/

/-- The place that a reference in a message stands for. -/
theorem placeOf_native {m : Match} {place : Path} (hsamples : r.samples = [])
    (hparts : HasParts m n.scheme n.file n.first line column) (hline : Readable line) (hcolumn : Readable column)
    (hplace : r.absolute n.file = .ok place) :
    r.placeOf m offset (some place) = .ok (Text.valueOfDigits line + n.start + offset.line,
      Text.valueOfDigits column + offset.embeddedColumn + commentWidth n.file) := by
  have hnone : ∀ document start, r.sampleFrom? document start = none := fun document start => by
    rw [sampleFrom?, hsamples]
    rfl
  unfold placeOf
  simp only [hparts.line, hparts.column, hparts.start, hparts.file, readNumber_eq hline, readNumber_eq hcolumn,
    readNumber_eq n.short, hplace, hnone, bind, Except.bind, pure, Except.pure, if_true]
  rfl

/-- **A reference in a message is brought back**, in a report on its path. -/
theorem resolveMessage_placedAt (hsamples : r.samples = []) (hline : Digits line) (hcolumn : Digits column)
    (hshortLine : Readable line) (hshortColumn : Readable column) :
    r.resolveMessage (n.placedAt line column) offset (some n.file) = do
      let _ ← r.absolute n.file
      let line ← writeNumber (Text.valueOfDigits line + n.start + offset.line)
      let column ← writeNumber (Text.valueOfDigits column + offset.embeddedColumn + commentWidth n.file)
      return n.scheme ++ n.file ++ (':' :: line ++ ':' :: column) := by
  obtain ⟨m, hm, hrest, hparts⟩ := n.matchAt_native hline hcolumn none
  obtain ⟨ha1, ha2, ha3, ha4⟩ := hparts.between
  have hne : n.placedAt line column ≠ [] := by simp [Native.placedAt]
  rw [resolveMessage, Option.mapM_some]
  cases hplace : r.absolute n.file with
  | error failure => rfl
  | ok place =>
    show embedded.substituteM (r.unmark offset (some place)) (r.nameSamples (n.placedAt line column)) = _
    rw [nameSamples_eq_self hsamples, substituteM_of_matchAt hne hm hrest, unmark,
      placeOf_native hsamples hparts hshortLine hshortColumn hplace]
    simp only [hparts.url, ha1, ha2, ha3, ha4, bind, Except.bind, pure, Except.pure, List.append_nil,
      List.nil_append, List.append_assoc, List.cons_append]

/-- **The fields of a report on a reference are brought back.** -/
theorem resolveFields_native (houtside : r.isInSampleDir (n.file ++ n.mark) = false)
    (hfile : d.get? "file" = some n.text) {l c : Int} (hline : integer? d "line" = some l)
    (hcolumn : integer? d "column" = some c) :
    r.resolveFields d offset = do
      let line ← writeNumber (l + n.start + offset.line)
      let column ← writeNumber (c + offset.column + commentWidth n.file)
      return ((d.set "file" (n.file ++ n.mark)).set "line" line).set "column" column := by
  obtain ⟨m, hm, hmfile, hmstart⟩ := n.matchStart_whole
  have hl : integer? (d.set "file" (n.file ++ n.mark)) "line" = some l :=
    (integer?_set_of_ne _ _ (by decide)).trans hline
  have hc : ∀ value, integer? ((d.set "file" (n.file ++ n.mark)).set "line" value) "column" = some c := fun value =>
    (integer?_set_of_ne _ _ (by decide)).trans ((integer?_set_of_ne _ _ (by decide)).trans hcolumn)
  simp only [resolveFields, hfile, n.path_eq, houtside, resolveMark, hm, hmfile, hmstart, readNumber_eq n.short, hl,
    hc, Native.start, Option.getD_some, bind, Except.bind, Bool.false_eq_true, if_false]

variable {kind : Kind} {pre post message : Text}

/-- **A report on a reference is brought back** in these steps. -/
theorem resolve_native_eq (houtside : r.isInSampleDir (n.file ++ n.mark) = false) (hkind : d.kind = .ok kind)
    (hfile : d.get? "file" = some n.text) {l c : Int} (hline : integer? d "line" = some l)
    (hcolumn : integer? d "column" = some c) (hmessage : d.message = .ok message) :
    r.resolve d = do
      let line ← writeNumber (l + n.start + (r.offset kind).line)
      let column ← writeNumber (c + (r.offset kind).column + commentWidth n.file)
      let said ← r.resolveMessage message (r.offset kind) (some n.file)
      let shown ← r.displayName n.file
      return ((((d.set "file" (n.file ++ n.mark)).set "line" line).set "column" column).set "message" said).set
        "file" shown := by
  rw [resolve, hkind]
  show (r.resolveFields d (r.offset kind) >>= _) = _
  rw [resolveFields_native houtside hfile hline hcolumn]
  cases writeNumber (l + n.start + (r.offset kind).line) with
  | error failure => rfl
  | ok line =>
    cases writeNumber (c + (r.offset kind).column + commentWidth n.file) with
    | error failure => rfl
    | ok column =>
      have hpath : (((d.set "file" (n.file ++ n.mark)).set "line" line).set "column" column).get? "file" =
          some (n.file ++ n.mark) := by
        simp only [Keyed.get?_set_of_ne, Keyed.get?_set_self, ne_eq, String.reduceEq, not_false_eq_true]
      have hsaid : Draft.message (((d.set "file" (n.file ++ n.mark)).set "line" line).set "column" column) =
          .ok message := by
        rw [Draft.message_eq_ok_iff] at hmessage ⊢
        simp only [Keyed.get?_set_of_ne, hmessage, ne_eq, String.reduceEq, not_false_eq_true]
      simp only [bind, Except.bind, pure, Except.pure, hpath, hsaid, Option.map_some, unmarked_append n.isMark]

/-- **A report on a reference is brought back** just if each of the steps can be taken. -/
theorem resolve_native_eq_ok_iff (houtside : r.isInSampleDir (n.file ++ n.mark) = false) (hkind : d.kind = .ok kind)
    (hfile : d.get? "file" = some n.text) {l c : Int} (hline : integer? d "line" = some l)
    (hcolumn : integer? d "column" = some c) (hmessage : d.message = .ok message) :
    r.resolve d = .ok e ↔ ∃ line column said shown,
      writeNumber (l + n.start + (r.offset kind).line) = .ok line ∧
      writeNumber (c + (r.offset kind).column + commentWidth n.file) = .ok column ∧
      r.resolveMessage message (r.offset kind) (some n.file) = .ok said ∧ r.displayName n.file = .ok shown ∧
      e = ((((d.set "file" (n.file ++ n.mark)).set "line" line).set "column" column).set "message" said).set
        "file" shown := by
  rw [resolve_native_eq houtside hkind hfile hline hcolumn hmessage]
  simp only [bind_eq_ok]
  constructor
  · rintro ⟨line, hline, column, hcolumn, said, hsaid, shown, hshown, he⟩
    exact ⟨line, column, said, shown, hline, hcolumn, hsaid, hshown, (Except.ok.inj he).symm⟩
  · rintro ⟨line, column, said, shown, hline, hcolumn, hsaid, hshown, rfl⟩
    exact ⟨line, hline, column, hcolumn, said, hsaid, shown, hshown, rfl⟩

/-- **A reference in a message is brought back between blanks**, and what stands around it as if it stood alone. -/
theorem resolveMessage_token (offset : Offset) (hsamples : r.samples = []) (hline : Digits line)
    (hcolumn : Digits column) (hshortLine : Readable line) (hshortColumn : Readable column) (hpre : pre.EndsBlank)
    (hpost : post.BeginsBlank) (said : Text) :
    r.resolveMessage (pre ++ (n.placedAt line column ++ post)) offset (some n.file) = .ok said ↔
      ∃ pre' post' line' column', r.resolveMessage pre offset (some n.file) = .ok pre' ∧
        r.resolveMessage post offset (some n.file) = .ok post' ∧ Succeeds (r.absolute n.file) ∧
        writeNumber (Text.valueOfDigits line + n.start + offset.line) = .ok line' ∧
        writeNumber (Text.valueOfDigits column + offset.embeddedColumn + commentWidth n.file) = .ok column' ∧
        said = pre' ++ (n.scheme ++ n.file ++ (':' :: line' ++ ':' :: column') ++ post') := by
  rw [resolveMessage_behind_blank hsamples hpre]
  simp only [resolveMessage_before_blank hsamples hpost,
    resolveMessage_placedAt hsamples hline hcolumn hshortLine hshortColumn, bind_eq_ok]
  constructor
  · rintro ⟨pre', _, hpre', ⟨_, post', ⟨place, hplace, line', hline', column', hcolumn', hword⟩, hpost', rfl⟩, rfl⟩
    cases hword
    exact ⟨pre', post', line', column', hpre', hpost', ⟨place, hplace⟩, hline', hcolumn', rfl⟩
  · rintro ⟨pre', post', line', column', hpre', hpost', ⟨place, hplace⟩, hline', hcolumn', rfl⟩
    exact ⟨pre', _, hpre', ⟨_, post', ⟨place, hplace, line', hline', column', hcolumn', rfl⟩, hpost', rfl⟩, rfl⟩

/-- **The place of a report and the place in its message agree**, wherever in the message the reference of the report
stands between blanks with the report's line and column. -/
theorem resolve_native (hsamples : r.samples = []) (n : Native)
    (houtside : r.isInSampleDir (n.file ++ n.mark) = false) (hkind : d.kind = .ok kind)
    (hfile : d.get? "file" = some n.text) (hline : d.get? "line" = some line)
    (hcolumn : d.get? "column" = some column) (hlineDigits : Digits line) (hcolumnDigits : Digits column)
    (hshort : Readable line ∧ Readable column) (hpre : pre.EndsBlank) (hpost : post.BeginsBlank)
    (hmessage : d.message = .ok (pre ++ (n.placedAt line column ++ post))) :
    let offset := r.offset kind
    let line' : Int := Text.valueOfDigits line + n.start + offset.line
    let column' : Int := Text.valueOfDigits column + offset.column + commentWidth n.file
    let columnSaid : Int := column' - offset.column + offset.embeddedColumn
    (Succeeds (r.resolve d) ↔
      r.Locatable n.file ∧ Writable line' ∧ Writable column' ∧ Writable columnSaid ∧
        r.MessageInterpretable pre offset (some n.file) ∧ r.MessageInterpretable post offset (some n.file)) ∧
    ∀ e, r.resolve d = .ok e →
      e.get? "line" = some (Text.ofInt line') ∧ e.get? "column" = some (Text.ofInt column') ∧
      ∃ pre' post', r.resolveMessage pre offset (some n.file) = .ok pre' ∧ pre'.EndsBlank ∧
        r.resolveMessage post offset (some n.file) = .ok post' ∧ post'.BeginsBlank ∧
        e.message = .ok (pre' ++ (n.scheme ++ n.file ++
          (':' :: Text.ofInt line' ++ ':' :: Text.ofInt columnSaid) ++ post')) := by
  intro offset line' column' columnSaid
  have hl : integer? d "line" = some (Text.valueOfDigits line : Int) := by
    rw [integer?, hline]
    exact Text.readInt?_valueOfDigits hlineDigits.ne_nil hlineDigits.isDecimal hshort.1
  have hc : integer? d "column" = some (Text.valueOfDigits column : Int) := by
    rw [integer?, hcolumn]
    exact Text.readInt?_valueOfDigits hcolumnDigits.ne_nil hcolumnDigits.isDecimal hshort.2
  have hsame : (Text.valueOfDigits column : Int) + offset.embeddedColumn + commentWidth n.file = columnSaid := by
    simp only [columnSaid, column']
    omega
  have hsteps := fun e => resolve_native_eq_ok_iff (e := e) houtside hkind hfile hl hc hmessage
  have htoken := resolveMessage_token (n := n) offset hsamples hlineDigits hcolumnDigits hshort.1 hshort.2 hpre hpost
  rw [hsame] at htoken
  refine ⟨⟨?_, ?_⟩, ?_⟩
  · rintro ⟨e, he⟩
    obtain ⟨lineShown, columnShown, said, shown, hlineShown, hcolumnShown, hsaid, -, -⟩ := (hsteps e).1 he
    obtain ⟨pre', post', _, columnTold, hpre', hpost', hplace, -, hcolumnTold, -⟩ := (htoken said).1 hsaid
    exact ⟨succeeds_absolute_iff.1 hplace, succeeds_writeNumber_iff.1 ⟨_, hlineShown⟩,
      succeeds_writeNumber_iff.1 ⟨_, hcolumnShown⟩, succeeds_writeNumber_iff.1 ⟨_, hcolumnTold⟩,
      succeeds_resolveMessage_iff.1 ⟨_, hpre'⟩, succeeds_resolveMessage_iff.1 ⟨_, hpost'⟩⟩
  · rintro ⟨hplace, hlineShown, hcolumnShown, hcolumnTold, hpre', hpost'⟩
    obtain ⟨place, hplace⟩ := succeeds_absolute_iff.2 hplace
    obtain ⟨lineShown, hlineShown⟩ := succeeds_writeNumber_iff.2 hlineShown
    obtain ⟨columnShown, hcolumnShown⟩ := succeeds_writeNumber_iff.2 hcolumnShown
    obtain ⟨columnTold, hcolumnTold⟩ := succeeds_writeNumber_iff.2 hcolumnTold
    obtain ⟨pre', hpre'⟩ := succeeds_resolveMessage_iff.2 hpre'
    obtain ⟨post', hpost'⟩ := succeeds_resolveMessage_iff.2 hpost'
    have hsaid := (htoken _).2 ⟨pre', post', lineShown, columnTold, hpre', hpost', ⟨place, hplace⟩, hlineShown,
      hcolumnTold, rfl⟩
    exact ⟨_, (hsteps _).2 ⟨lineShown, columnShown, _, _, hlineShown, hcolumnShown, hsaid,
      bind_eq_ok.2 ⟨place, hplace, rfl⟩, rfl⟩⟩
  · intro e he
    obtain ⟨lineShown, columnShown, said, shown, hlineShown, hcolumnShown, hsaid, -, rfl⟩ := (hsteps e).1 he
    obtain ⟨pre', post', lineTold, columnTold, hpre', hpost', -, hlineTold, hcolumnTold, rfl⟩ := (htoken said).1 hsaid
    obtain rfl := eq_ofInt_of_writeNumber hlineShown
    obtain rfl := eq_ofInt_of_writeNumber hcolumnShown
    obtain rfl := eq_ofInt_of_writeNumber hlineTold
    obtain rfl := eq_ofInt_of_writeNumber hcolumnTold
    refine ⟨?_, ?_, pre', post', hpre', endsBlank_of_resolveMessage hsamples hpre hpre', hpost',
      beginsBlank_of_resolveMessage hsamples hpost hpost', ?_⟩
    · simp only [Keyed.get?_set_of_ne, Keyed.get?_set_self, ne_eq, String.reduceEq, not_false_eq_true, line', offset]
    · simp only [Keyed.get?_set_of_ne, Keyed.get?_set_self, ne_eq, String.reduceEq, not_false_eq_true, column', offset]
    · refine Draft.message_of_get? ?_
      simp only [Keyed.get?_set_of_ne, Keyed.get?_set_self, ne_eq, String.reduceEq, not_false_eq_true, line']

/-- A failed test in a comment, with a stack frame: three columns are added for the asterisk, five are taken away in
the report and four in the message. -/
theorem resolve_native_comment :
    let place : Text := "/src/util.ts".toList
    let reference : Text := "file:///src/util.ts$40-45.ts".toList
    let pre : Text := "    at ".toList
    let post : Text := "\nbad".toList
    let r : Resolver := { cwd := .ofAbsolute [], offsets := Offset.test }
    let d : Draft := [("kind", "failure".toList), ("file", reference), ("line", ['3']), ("column", ['9']),
      ("message", pre ++ (reference ++ ":3:9".toList ++ post))]
    r.samples = [] ∧ r.isInSampleDir (place ++ "$40-45.ts".toList) = false ∧ d.kind = .ok .failure ∧
      Digits ['3'] ∧ Digits ['9'] ∧ pre.EndsBlank ∧ post.BeginsBlank ∧
      ∃ e, r.resolve d = .ok e ∧ e.get? "line" = some "42".toList ∧ e.get? "column" = some "7".toList ∧
        e.message = .ok "    at file:///src/util.ts:42:8\nbad".toList := by
  intro place reference pre post r d
  let n : Native :=
    { isUrl := true, file := place, first := "40".toList, last := "45".toList, ending := ".ts".toList
      rooted := by decide +kernel
      plain := fun _ => ⟨rfl, by decide +kernel⟩
      firstDigits := by decide +kernel
      lastDigits := by decide +kernel
      short := by decide +kernel
      isEnding := .extension (by decide) (List.all_eq_true.1 (by decide +kernel)) }
  have hthree : Digits ['3'] := by decide +kernel
  have hnine : Digits ['9'] := by decide +kernel
  have hpre : pre.EndsBlank := by decide +kernel
  have hpost : post.BeginsBlank := by decide +kernel
  have hkind : d.kind = .ok .failure := by decide +kernel
  obtain ⟨-, htold⟩ := resolve_native (r := r) (d := d) rfl n rfl hkind rfl rfl rfl hthree hnine
    ⟨by decide +kernel, by decide +kernel⟩ hpre hpost rfl
  obtain ⟨e, he⟩ : Succeeds (r.resolve d) := by decide +kernel
  obtain ⟨hline, hcolumn, pre', post', hpre', -, hpost', -, hmessage⟩ := htold e he
  have hbefore : r.resolveMessage pre (r.offset .failure) (some place) = .ok pre := by decide +kernel
  have hbehind : r.resolveMessage post (r.offset .failure) (some place) = .ok post := by decide +kernel
  obtain rfl := Except.ok.inj (hbefore.symm.trans hpre')
  obtain rfl := Except.ok.inj (hbehind.symm.trans hpost')
  exact ⟨rfl, rfl, hkind, hthree, hnine, hpre, hpost, e, he, hline.trans (by decide +kernel),
    hcolumn.trans (by decide +kernel), hmessage.trans (by decide +kernel)⟩

/-- **Where the two places differ.** No sample is known for a report on a reference into the directory of the sample
files: it keeps its line and loses its mark, and the message counts from the mark. A path with a null character
leads nowhere. -/
theorem resolve_native_astray :
    let r : Resolver := { cwd := .ofAbsolute [], sampleDir := some (.ofAbsolute ["t".toList]) }
    let draft (reference : Text) : Draft := [("kind", "check".toList), ("file", reference), ("line", ['1']),
      ("column", ['1']), ("message", "bad ".toList ++ reference ++ ":1:1".toList)]
    r.samples = [] ∧ r.offset .check = {} ∧
      r.resolve (draft "/t/x$3-5.ts".toList) = .ok [("kind", "check".toList), ("file", "/t/x".toList),
        ("line", ['1']), ("column", ['1']), ("message", "bad /t/x:4:4".toList)] ∧
      r.resolve (draft "/a\x00$3-5.ts".toList) = .error .nullInPath := by
  decide +kernel

end Resolver

end Fenceline
