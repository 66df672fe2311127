import Fenceline.Proofs.Files.Aside
import Fenceline.Proofs.Session
import Fenceline.Sample.Patching

/-!
# Patching one document while others are at work

A document is looked at, read, and written if it still has the stamp that it had, by way of a temporary file
beside it (`Host.writeAside`). What others do in between is said by two changes of the host, and what the system
refuses by a hitch (`Meanwhile`); patching with nobody else at work and nothing refused is patching
(`perform_patchDocumentAmid_idle`).

**The laws.** `patchDocumentAmid_cases`: patching either writes the document, which then has the stamp with
which it was looked at, or leaves everything standing as the others left it. `comes_patchDocumentAmid`: where the
others leave the document alone, it comes to what could be seen from the session before.

**What it does not establish.** That every change of others is noticed: one that leaves the stamp as it was
is not.
-/

namespace Fenceline

open Act

namespace Session

variable (s : Session)

/-- Where a path leads. -/
def leadsTo (p : Path) : Except Fault Absolute :=
  s.host.tree.follow s.host.cwd p

/-- The text of the document at a path. -/
def textOf (p : Path) : Except Failure Text :=
  s.host.tree.read s.host.cwd p

/-- The change that the file of a sample asks for, if it has one. -/
def change? (x : Sample) : Except Failure (Option Sample.Change) :=
  match x.path with
  | some path => do
    let content ← s.textOf path
    return if content = x.content then none else some ⟨x, content⟩
  | none => .ok none

/-- The changes that the files of samples ask for. -/
def changes (samples : List Sample) : Except Failure (List Sample.Change) := do
  return (← samples.mapM s.change?).filterMap id

/-- What patching a document comes to, as far as can be seen from the session: another text, or none. -/
def patch? (document : Path) (samples : List Sample) : Except Failure (Option Text) := do
  let changes ← s.changes samples
  if changes.isEmpty then
    return none
  let _ ← s.host.tree.stamp s.host.cwd document
  let text ← s.textOf document
  return if Sample.patchAll text changes = text then none else some (Sample.patchAll text changes)

/-- Whether a document is patched, as far as can be seen from the session. -/
def outcome (document : Path) (samples : List Sample) : Except Failure Bool :=
  (s.patch? document samples).map Option.isSome

end Session

namespace Sample

variable {s t : Session} {document : Path} {samples : List Sample} {result : Except Failure Bool}

/-- Finding out about the changes only looks at the session. -/
theorem perform_changes (s : Session) (samples : List Sample) :
    (changes samples).perform s = (s.changes samples, s) := by
  rw [changes, perform_bind, perform_mapM_of_looks (g := s.change?), Session.changes]
  · cases samples.mapM s.change? <;> rfl
  · intro x _
    unfold Session.change?
    cases x.path with
    | none => rfl
    | some path =>
      dsimp only
      rw [change?, perform_bind_ok (perform_host s), perform_bind, perform_ofExcept, Session.textOf]
      cases s.host.tree.read s.host.cwd path <;> rfl

/-! ## Others at work -/

/-- **What comes between the steps** of patching a document: what others do to the host after it was looked at, and
after it was read, and what the system refuses while it is written. -/
structure Meanwhile where
  beforeReading : Host → Host := id
  beforeWriting : Host → Host := id
  hitch : Option Hitch := none

namespace Meanwhile

variable (others : Meanwhile) (h : Host)

/-- The host on which the document is read. -/
def reading : Host :=
  others.beforeReading h

/-- The host on which the document is written. -/
def writing : Host :=
  others.beforeWriting (others.reading h)

end Meanwhile

/-- Whether a document was patched with the samples that stand in it, while others were at work. -/
def patchDocumentAmid (others : Meanwhile) (document : Path) (samples : List Sample) : Act Bool := do
  let changes ← changes samples
  if changes.isEmpty then
    return false
  let host ← Act.host
  let stamp ← Act.ofExcept (host.tree.stamp host.cwd document)
  Act.setHost (others.reading host)
  let text ← Act.ofExcept ((others.reading host).tree.read (others.reading host).cwd document)
  Act.tell (patchAllNotices text changes)
  let patched := patchAll text changes
  if patched = text then
    return false
  let (written, after) := (others.writing host).writeAside others.hitch document patched stamp
  Act.setHost after
  Act.ofExcept written
  Act.log .info .patching
    ("Updated ".toList ++ Text.ofNat changes.length ++ " code samples in ".toList ++
      document.toText)
  return true

/-- **With nobody else at work, this is patching.** -/
theorem perform_patchDocumentAmid_idle (document : Path) (samples : List Sample) (s : Session) :
    (patchDocumentAmid {} document samples).perform s = (patchDocument document samples).perform s := by
  rw [patchDocumentAmid, patchDocument, perform_bind, perform_bind, perform_changes]
  cases s.changes samples with
  | error failure => rfl
  | ok changes =>
    dsimp only
    split
    · rfl
    · rw [perform_bind_ok (perform_host s), perform_bind_ok (perform_host s), perform_bind, perform_bind,
        perform_ofExcept]
      cases s.host.tree.stamp s.host.cwd document with
      | error failure => rfl
      | ok stamp =>
        dsimp only [Meanwhile.reading, Meanwhile.writing, id]
        rw [perform_bind_ok (perform_setHost _ _), perform_bind, perform_bind, perform_ofExcept]
        cases s.host.tree.read s.host.cwd document with
        | error failure => rfl
        | ok text =>
          dsimp only
          rw [perform_bind_ok (perform_tell _ _), perform_bind_ok (perform_tell _ _)]
          split
          · rfl
          · rw [Host.write_eq_writeAside]
            cases s.host.write document (patchAll text changes) stamp <;> rfl

/-- **What comes of patching a document while others are at work**: it is written, if the system refuses nothing,
and has the stamp then with which it was looked at; or everything stands as the others left it. -/
theorem patchDocumentAmid_cases {others : Meanwhile}
    (h : (patchDocumentAmid others document samples).perform s = (result, t)) :
    (result ≠ .ok true ∧
        (t.host = s.host ∨ t.host = others.reading s.host ∨
          ((others.writing s.host).Later t.host ∧ (others.hitch = none → t.host = others.writing s.host)))) ∨
      (result = .ok true ∧ others.hitch = none ∧ ∃ changes stamp text,
        s.changes samples = .ok changes ∧
        s.host.tree.stamp s.host.cwd document = .ok stamp ∧
        (others.reading s.host).tree.read (others.reading s.host).cwd document = .ok text ∧
        patchAll text changes ≠ text ∧
        (others.writing s.host).write document (patchAll text changes) stamp = .ok t.host) := by
  rw [patchDocumentAmid] at h
  rcases perform_look_cases (perform_changes s samples) h with ⟨failure, -, rfl, rfl⟩ | ⟨changes, hchanges, h⟩
  · exact .inl ⟨by simp, .inl rfl⟩
  split at h
  · cases h
    exact .inl ⟨by simp, .inl rfl⟩
  rw [perform_bind_ok (perform_host s)] at h
  rcases perform_look_cases (perform_ofExcept _ _) h with ⟨failure, -, rfl, rfl⟩ | ⟨stamp, hstamp, h⟩
  · exact .inl ⟨by simp, .inl rfl⟩
  rw [perform_bind_ok (perform_setHost _ _)] at h
  rcases perform_look_cases (perform_ofExcept _ _) h with ⟨failure, -, rfl, rfl⟩ | ⟨text, hread, h⟩
  · exact .inl ⟨by simp, .inr (.inl rfl)⟩
  rw [perform_bind_ok (perform_tell _ _)] at h
  dsimp only at h
  split at h
  · cases h
    exact .inl ⟨by simp, .inr (.inl rfl)⟩
  rename_i hsame
  rcases haside : (others.writing s.host).writeAside others.hitch document (patchAll text changes) stamp with
    ⟨written, after⟩
  rw [haside] at h
  dsimp only at h
  rw [perform_bind_ok (perform_setHost _ _)] at h
  rcases Host.writeAside_cases haside with ⟨hitch, rfl, hwrite⟩ | ⟨⟨failure, rfl⟩, hlater⟩
  · cases h
    exact .inr ⟨rfl, hitch, changes, stamp, text, hchanges, hstamp, hread, hsame, hwrite⟩
  · cases h
    exact .inl ⟨by simp, .inr (.inr hlater)⟩

/-- **What is done elsewhere does not matter**: if the document still reads as it did and has the stamp that it had,
what comes of patching it can be seen from the session before. -/
theorem perform_patchDocumentAmid_of_quiet {others : Meanwhile} (hhitch : others.hitch = none)
    (hreading : (others.reading s.host).tree.read (others.reading s.host).cwd document = s.textOf document)
    (hwriting : (others.writing s.host).tree.stamp (others.writing s.host).cwd document =
      s.host.tree.stamp s.host.cwd document) :
    ((patchDocumentAmid others document samples).perform s).1 = s.outcome document samples := by
  rw [patchDocumentAmid, perform_bind, perform_changes, Session.outcome, Session.patch?]
  cases s.changes samples with
  | error failure => rfl
  | ok changes =>
    rw [ok_bind]
    dsimp only
    by_cases hempty : changes.isEmpty = true
    · rw [if_pos hempty, if_pos hempty]
      rfl
    rw [if_neg hempty, if_neg hempty, perform_bind_ok (perform_host s), perform_bind, perform_ofExcept]
    cases hstamp : s.host.tree.stamp s.host.cwd document with
    | error failure => rfl
    | ok stamp =>
      rw [ok_bind, ← hreading]
      dsimp only
      rw [perform_bind_ok (perform_setHost _ _), perform_bind, perform_ofExcept]
      cases (others.reading s.host).tree.read (others.reading s.host).cwd document with
      | error failure => rfl
      | ok text =>
        rw [ok_bind]
        dsimp only
        rw [perform_bind_ok (perform_tell _ _)]
        by_cases hsame : patchAll text changes = text
        · rw [if_pos hsame, if_pos hsame]
          rfl
        rw [if_neg hsame, if_neg hsame, perform_bind_ok (perform_setHost _ _), hhitch, Host.write_eq_writeAside]
        obtain ⟨after, hafter⟩ := Host.succeeds_write (patchAll text changes) (hwriting.trans hstamp)
        rw [hafter]
        rfl

/-- **What a document comes to while others are at work.** -/
structure Meanwhile.Comes (others : Meanwhile) (document : Path) (samples : List Sample) (s : Session)
    (result : Except Failure Bool) (t : Session) : Prop where
  /-- If it was not written, everything stands as the others left it. -/
  kept : result ≠ .ok true → t.host = s.host ∨ t.host = others.reading s.host ∨
    ((others.writing s.host).Later t.host ∧ (others.hitch = none → t.host = others.writing s.host))
  /-- It is written only if nothing was refused, and if it has the stamp with which it was looked at. -/
  unchanged : result = .ok true → others.hitch = none ∧
    (others.writing s.host).tree.stamp (others.writing s.host).cwd document =
      s.host.tree.stamp s.host.cwd document
  /-- What is written is this document, and everything else stands as the others left it. -/
  written : result = .ok true → ∃ a text,
    (others.writing s.host).tree.follow (others.writing s.host).cwd document = .ok a ∧
      t.host.tree = (others.writing s.host).tree.replace a (Utf8.encode text)
  /-- Where the others leave the document alone, it comes to what it would have come to without them. -/
  quiet : others.hitch = none →
    (others.reading s.host).tree.read (others.reading s.host).cwd document = s.textOf document →
    (others.writing s.host).tree.stamp (others.writing s.host).cwd document =
      s.host.tree.stamp s.host.cwd document →
    result = s.outcome document samples

theorem comes_patchDocumentAmid {others : Meanwhile}
    (h : (patchDocumentAmid others document samples).perform s = (result, t)) :
    others.Comes document samples s result t := by
  have hquiet (hhitch : others.hitch = none)
      (hreading : (others.reading s.host).tree.read (others.reading s.host).cwd document = s.textOf document)
      (hwriting : (others.writing s.host).tree.stamp (others.writing s.host).cwd document =
        s.host.tree.stamp s.host.cwd document) : result = s.outcome document samples := by
    rw [← perform_patchDocumentAmid_of_quiet hhitch hreading hwriting, h]
  rcases patchDocumentAmid_cases h with ⟨hresult, hhost⟩ | ⟨rfl, hhitch, changes, stamp, text, -, hstamp, -, -, hwrite⟩
  · exact ⟨fun _ => hhost, fun hok => absurd hok hresult, fun hok => absurd hok hresult, hquiet⟩
  · obtain ⟨hunchanged, a, hfollow, hafter⟩ := Host.write_eq_ok_iff.1 hwrite
    exact ⟨fun hne => absurd rfl hne, fun _ => ⟨hhitch, hunchanged.trans hstamp.symm⟩,
      fun _ => ⟨a, _, hfollow, by rw [hafter]⟩, hquiet⟩

/-! ## Nobody else at work -/

/-- A document whose samples' files ask for no change is not even looked at. -/
theorem perform_patchDocument_of_no_changes (h : s.changes samples = .ok []) (document : Path) :
    (patchDocument document samples).perform s = (.ok false, s) := by
  rw [patchDocument, perform_bind, perform_changes, h]
  rfl

end Sample

end Fenceline
