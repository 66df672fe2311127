import Fenceline.Host
import Fenceline.Proofs.Files.Placed
import Fenceline.Proofs.Files.Readable
import Fenceline.Proofs.Line.Bytes

/-!
# Reading is faithful

A document is read as the text whose bytes are those of its file, or as nothing if nothing stands there and
that is allowed. Everything else is a failure about its path (`Failure.IsAbout`), and says so, unless the path
holds a null character or the bytes of the file are those of no text (`Textual`): then reading fails without a
word about the document.

**The law** (`reads_faithfully`): what reading comes to, for every tree, path and bytes.

Where a tree changes by texts only (`Retold`), what was a text or no file at all remains so
(`Textual.of_retold`).
-/

namespace Fenceline

namespace Failure

/-- **A failure that the file system has with a path.** -/
def IsAbout (p : Path) : Failure → Prop
  | .inaccessible q _ | .notRegular q | .changed q | .refused q _ => q = p
  | _ => False

/-- Such a failure names the path, as it is spelled or between quotes. -/
theorem IsAbout.names {p : Path} {failure : Failure} (h : failure.IsAbout p) :
    p.toText <:+: failure.message ∨ p.toText.quoted <:+: failure.message := by
  have hbetween (before spelled colon after : Text) : spelled <:+: before ++ spelled ++ colon ++ after :=
    ⟨before, colon ++ after, by simp only [List.append_assoc]⟩
  cases failure with
  | inaccessible q fault =>
    obtain rfl : q = p := h
    exact .inl (hbetween ..)
  | notRegular q =>
    obtain rfl : q = p := h
    exact .inl (List.prefix_append ..).isInfix
  | changed q =>
    obtain rfl : q = p := h
    exact .inl (List.prefix_append ..).isInfix
  | refused q fault =>
    obtain rfl : q = p := h
    exact .inr (List.suffix_append ..).isInfix
  | _ => exact h.elim

/-- **A failure of what is done with a path**: one about it, or the refusal of one with a null character. -/
def IsOf (p : Path) (failure : Failure) : Prop :=
  failure.IsAbout p ∨ p.hasNull = true ∧ failure = .nullInPath

theorem IsOf.isAbout {p : Path} {failure : Failure} (h : failure.IsOf p) (hspelled : p.hasNull = false) :
    failure.IsAbout p :=
  h.resolve_right fun hnull => Bool.false_ne_true (hspelled.symm.trans hnull.1)

end Failure

namespace FileTree

variable {t u : FileTree} {cwd a : Absolute} {p : Path} {text : Text}

/-! ## Texts -/

/-- **A path that leads to a text, or to no file**: it can be spelled to the file system, and a file that it
leads to has the bytes of a text. -/
structure Textual (t : FileTree) (cwd : Absolute) (p : Path) : Prop where
  spelled : p.hasNull = false
  text : ∀ f, t.look cwd p = .ok (.file f) → ∃ text, Utf8.encode text = f.bytes

/-- Whether a path leads to a text, or to no file. -/
def isTextual (t : FileTree) (cwd : Absolute) (p : Path) : Bool :=
  !p.hasNull && match t.look cwd p with
    | .ok (.file f) => (Utf8.decode? f.bytes).isSome
    | _ => true

theorem isTextual_iff : t.isTextual cwd p = true ↔ t.Textual cwd p := by
  rw [isTextual, Bool.and_eq_true, Bool.not_eq_true']
  constructor
  · rintro ⟨hspelled, htext⟩
    refine ⟨hspelled, fun f hf => ?_⟩
    rw [hf] at htext
    obtain ⟨text, hdecode⟩ := Option.isSome_iff_exists.1 htext
    exact ⟨text, Utf8.decode?_eq_some_iff.1 hdecode⟩
  · rintro ⟨hspelled, htext⟩
    refine ⟨hspelled, ?_⟩
    split
    · rename_i f hf
      obtain ⟨text, hbytes⟩ := htext f hf
      rw [Utf8.decode?_eq_some_iff.2 hbytes]
      rfl
    · rfl

instance (t : FileTree) (cwd : Absolute) (p : Path) : Decidable (t.Textual cwd p) :=
  decidable_of_iff _ isTextual_iff

/-! ## Reading -/

/-- **A text that is read has the bytes of the file.** -/
theorem read_eq_ok_iff_encode : t.read cwd p = .ok text ↔
    p.hasNull = false ∧ ∃ f, t.look cwd p = .ok (.file f) ∧ Utf8.encode text = f.bytes := by
  rw [read_eq_ok_iff]
  refine and_congr_right fun _ => ?_
  simp only [look_eq_ok_iff, Utf8.decode?_eq_some_iff]
  constructor
  · rintro ⟨a, f, hfollow, hnode, hbytes⟩
    exact ⟨f, ⟨a, hfollow, hnode⟩, hbytes⟩
  · rintro ⟨f, ⟨a, hfollow, hnode⟩, hbytes⟩
    exact ⟨a, f, hfollow, hnode, hbytes⟩

/-- What is not a text is not reported as such. -/
theorem read_of_not_textual (h : ¬ t.Textual cwd p) :
    t.read cwd p = .error (if p.hasNull then .nullInPath else .malformedText) := by
  cases hnull : p.hasNull with
  | true => rw [read, access, hnull]; rfl
  | false =>
    have hfile : ∃ f, t.look cwd p = .ok (.file f) ∧ ∀ text, Utf8.encode text ≠ f.bytes := by
      by_contra hnone
      refine h ⟨hnull, fun f hf => ?_⟩
      by_contra htext
      exact hnone ⟨f, hf, fun text heq => htext ⟨text, heq⟩⟩
    obtain ⟨f, hlook, hbytes⟩ := hfile
    have hdecode : Utf8.decode? f.bytes = none :=
      Option.eq_none_iff_forall_ne_some.2 fun text htext => hbytes text (Utf8.decode?_eq_some_iff.1 htext)
    rw [read, access, hnull, if_neg Bool.false_ne_true, hlook]
    simp only [hdecode]
    rfl

theorem failsWith_access (t : FileTree) (cwd : Absolute) (p : Path) : FailsWith (Failure.IsOf p) (t.access cwd p) := by
  rw [access]
  split
  · rename_i hnull
    exact failsWith_error (.inr ⟨hnull, rfl⟩)
  · cases t.look cwd p with
    | ok node => exact failsWith_ok node
    | error fault => exact failsWith_error (.inl rfl)

theorem failsWith_stamp (t : FileTree) (cwd : Absolute) (p : Path) : FailsWith (Failure.IsOf p) (t.stamp cwd p) := by
  refine (t.failsWith_access cwd p).bind fun node _ => ?_
  cases node with
  | file f => exact failsWith_ok _
  | directory => exact failsWith_error (.inl rfl)

theorem failsWith_placeOf (t : FileTree) (cwd : Absolute) (p : Path) :
    FailsWith (Failure.IsOf p) (t.placeOf cwd p) := by
  rw [placeOf]
  cases t.follow cwd p with
  | ok a => exact failsWith_ok a
  | error fault => exact failsWith_error (.inl rfl)

/-- What is a text, or no file, is read, or the failure is about the path. -/
theorem Textual.failsWith_read (h : t.Textual cwd p) : FailsWith (Failure.IsAbout p) (t.read cwd p) := by
  rw [read]
  cases hnode : t.access cwd p with
  | error failure =>
    have habout := (t.failsWith_access cwd p failure hnode).isAbout h.spelled
    cases failure with
    | inaccessible q fault => cases fault <;> exact failsWith_error habout
    | _ => exact failsWith_error habout
  | ok node =>
    cases node with
    | directory => exact failsWith_error rfl
    | file f =>
      obtain ⟨text, htext⟩ := h.text f (by
        rw [access, h.spelled, if_neg Bool.false_ne_true] at hnode
        split at hnode
        · rename_i hlook
          rw [hlook, Except.ok.inj hnode]
        · cases hnode)
      dsimp only
      rw [Utf8.decode?_eq_some_iff.2 htext]
      exact failsWith_ok text

theorem read?_eq_ok_some_iff : t.read? cwd p = .ok (some text) ↔ t.read cwd p = .ok text := by
  rw [read?]
  split <;> simp_all

/-- **A document is missing** just if nothing stands there. -/
theorem read?_eq_ok_none_iff :
    t.read? cwd p = .ok none ↔ p.hasNull = false ∧ t.look cwd p = .error .noEntry := by
  rw [read?, read, access]
  cases p.hasNull with
  | true => simp
  | false =>
    simp only [Bool.false_eq_true, if_false, true_and]
    cases t.look cwd p with
    | error fault => cases fault <;> simp
    | ok node =>
      cases node with
      | directory => simp
      | file f =>
        dsimp only
        cases Utf8.decode? f.bytes <;> simp

theorem Textual.failsWith_read? (h : t.Textual cwd p) : FailsWith (Failure.IsAbout p) (t.read? cwd p) := by
  intro failure hfailure
  rw [read?] at hfailure
  split at hfailure
  · cases hfailure
  · cases hfailure
  · rename_i e _ he
    exact Except.error.inj hfailure ▸ h.failsWith_read e he

theorem read?_of_not_textual (h : ¬ t.Textual cwd p) :
    t.read? cwd p = .error (if p.hasNull then .nullInPath else .malformedText) := by
  rw [read?, read_of_not_textual h]
  cases p.hasNull <;> rfl

/-- **Reading is faithful or fails as it should**, but for what is no text. -/
theorem reads_faithfully (t : FileTree) (cwd : Absolute) (p : Path) :
    (∀ text, t.read cwd p = .ok text ↔
      p.hasNull = false ∧ ∃ f, t.look cwd p = .ok (.file f) ∧ Utf8.encode text = f.bytes) ∧
      (∀ text, t.read? cwd p = .ok (some text) ↔ t.read cwd p = .ok text) ∧
      (t.read? cwd p = .ok none ↔ p.hasNull = false ∧ t.look cwd p = .error .noEntry) ∧
      (FailsWith (Failure.IsAbout p) (t.read cwd p) ↔ t.Textual cwd p) ∧
      (FailsWith (Failure.IsAbout p) (t.read? cwd p) ↔ t.Textual cwd p) := by
  have hnot : ¬ Failure.IsAbout p (if p.hasNull then .nullInPath else .malformedText) := by
    cases p.hasNull <;> exact id
  refine ⟨fun _ => read_eq_ok_iff_encode, fun _ => read?_eq_ok_some_iff, read?_eq_ok_none_iff,
    ⟨fun h => ?_, Textual.failsWith_read⟩, ⟨fun h => ?_, Textual.failsWith_read?⟩⟩
  · by_contra htextual
    exact hnot (h _ (read_of_not_textual htextual))
  · by_contra htextual
    exact hnot (h _ (read?_of_not_textual htextual))

/-! ## Trees that change by texts -/

/-- **A tree that is another one but for some texts.** -/
def Retold (t u : FileTree) : Prop :=
  ∀ a, u.node? a = t.node? a ∨ ∃ f text, u.node? a = some (.file f) ∧ Utf8.encode text = f.bytes

/-- Where the new tree leads, the old one led. -/
theorem Retold.follow (h : t.Retold u) (hfollow : u.follow cwd p = .ok a) : t.follow cwd p = .ok a := by
  refine follow_of_directories (fun b hb => ?_) hfollow
  rcases h b with hsame | ⟨f, text, hfile, _⟩
  · rw [← hsame, hb]
  · rw [hb] at hfile
    cases hfile

/-- **What was a text, or no file, remains so.** -/
theorem Textual.of_retold (h : t.Textual cwd p) (hretold : t.Retold u) : u.Textual cwd p := by
  refine ⟨h.spelled, fun f hf => ?_⟩
  obtain ⟨a, hfollow, hnode⟩ := look_eq_ok_iff.1 hf
  rcases hretold a with hsame | ⟨g, text, hfile, htext⟩
  · exact h.text f (look_eq_ok_iff.2 ⟨a, hretold.follow hfollow, hsame ▸ hnode⟩)
  · obtain rfl : g = f := by
      rw [hnode] at hfile
      cases hfile
      rfl
    exact ⟨text, htext⟩

/-- A text put into a directory that stands. -/
theorem Stands.retold_put {directory : Absolute} (h : t.Stands directory) (name : Text) (text : Text) :
    t.Retold (t.put (directory ++ [name]) (Utf8.encode text)) := by
  intro a
  by_cases ha : a = directory ++ [name]
  · subst ha
    have hself := t.node?_put_self (a := directory ++ [name]) (by simp) (Utf8.encode text)
    obtain ⟨f, hfile, hbytes⟩ := Option.map_eq_some_iff.1 hself
    exact .inr ⟨f, text, file?_eq_some_iff.1 hfile, hbytes.symm⟩
  · exact .inl (node?_put_of_stands h ha _)

/-- A directory goes on standing when a file is put into it. -/
theorem Stands.put {directory : Absolute} (h : t.Stands directory) (name : Text) (bytes : Bytes) :
    (t.put (directory ++ [name]) bytes).Stands directory := by
  intro a ha
  refine t.node?_put_of_ne ?_ (h a ha) bytes
  rintro rfl
  have hlength := ha.length_le
  rw [List.length_append, List.length_singleton] at hlength
  omega

/-- A text in the place of a file. -/
theorem retold_replace {f : File} (hfile : t.node? a = some (.file f)) (text : Text) :
    t.Retold (t.replace a (Utf8.encode text)) := by
  intro b
  by_cases hb : b = a
  · obtain ⟨g, hg, hbytes⟩ := t.node?_replace_self (ne_nil_of_file hfile) (Utf8.encode text)
    exact .inr ⟨g, text, hb ▸ hg, hbytes.symm⟩
  · exact .inl (node?_replace_of_ne hb)

end FileTree

/-- **Writing fails for a reason of the file system.** -/
theorem Host.failsWith_write (h : Host) (p : Path) (text : Text) (before : Stamp) :
    FailsWith (Failure.IsOf p) (h.write p text before) := by
  have hsame (after : Stamp) : FailsWith (Failure.IsOf p) (Stamp.ensureSame before after p) := by
    unfold Stamp.ensureSame
    split
    · exact failsWith_ok ()
    · exact failsWith_error (.inl rfl)
  have hplace := h.tree.failsWith_placeOf h.cwd p
  have htree : FailsWith (Failure.IsOf p) (h.tree.write h.cwd p text before) :=
    (h.tree.failsWith_stamp h.cwd p).bind fun after _ => (hsame after).bind fun _ _ =>
      hplace.bind fun _ _ => failsWith_ok _
  exact htree.bind fun _ _ => hplace.bind fun _ _ => failsWith_ok _

end Fenceline
