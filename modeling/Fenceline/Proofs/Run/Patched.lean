import Fenceline.Proofs.Files.Faithful
import Fenceline.Proofs.Sample.Documents
import Fenceline.Proofs.Session

/-!
# Patching does not fail while everything can be read

Documents are patched one after the other, and each one is read and written in a session that the ones before
it have left. What carries through is that the files of the samples and the documents can be read: a document
that is written can still be read, and no other one becomes unreadable (`Host.readable_write`).

**The laws.** `thrives_patchDocuments`: samples are patched into their documents without a failure if their
files and their documents can be read at the beginning. `failsOnly_patchDocuments`: if not, patching fails for
what it finds, and not for what the toolchain wrote.
-/

namespace Fenceline

/-- **A session in which documents can be read**: all those that are meant. -/
def Session.Reads (meant : Path → Prop) (s : Session) : Prop :=
  ∀ p, meant p → Succeeds (s.host.tree.read s.host.cwd p)

namespace Sample

open Act

variable {meant : Path → Prop}

theorem thrives_change? (s : Sample) {path : Path} (h : meant path) :
    Thrives (Session.Reads meant) (s.change? path) := by
  intro session hreads
  obtain ⟨content, hcontent⟩ := hreads path h
  rw [change?, perform_bind_ok (perform_host session), hcontent]
  exact ⟨_, session, rfl, hreads⟩

theorem thrives_changes {samples : List Sample} (h : ∀ s ∈ samples, ∀ p, s.path = some p → meant p) :
    Thrives (Session.Reads meant) (changes samples) := by
  refine (thrives_mapM fun s hs => ?_).bind fun _ => thrives_pure _
  cases hpath : s.path with
  | none => exact thrives_pure none
  | some path => exact thrives_change? s (h s hs path hpath)

/-- **A document is patched** if it can be read, and so can the files of its samples. -/
theorem thrives_patchDocument {document : Path} {samples : List Sample} (hdocument : meant document)
    (h : ∀ s ∈ samples, ∀ p, s.path = some p → meant p) :
    Thrives (Session.Reads meant) (patchDocument document samples) := by
  refine (thrives_changes h).bind fun changes session hreads => ?_
  by_cases hnone : changes.isEmpty = true
  · rw [if_pos hnone]
    exact thrives_pure false session hreads
  · rw [if_neg hnone]
    obtain ⟨stamp, hstamp⟩ := FileTree.stamp_of_readable (hreads document hdocument)
    obtain ⟨text, htext⟩ := hreads document hdocument
    rw [perform_bind_ok (perform_host session), hstamp, perform_bind_ok (perform_ofExcept _ session), htext,
      perform_bind_ok (perform_ofExcept _ session), perform_bind_ok (perform_tell _ session)]
    dsimp only
    by_cases hsame : patchAll text changes = text
    · rw [if_pos hsame]
      exact thrives_pure false _ hreads
    · rw [if_neg hsame]
      obtain ⟨after, hwrite, hcwd, hkept⟩ :=
        Host.readable_write (patchAll text changes) (hreads document hdocument) hstamp
      rw [hwrite, perform_bind_ok (perform_ofExcept _ _), perform_bind_ok (perform_setHost _ _)]
      refine ⟨true, _, rfl, fun p hp => ?_⟩
      show Succeeds (after.tree.read after.cwd p)
      rw [hcwd]
      exact hkept p (hreads p hp)

/-- **Samples are patched into their documents** while their files and their documents can be read. -/
theorem thrives_patchDocuments {samples : List Sample} {workers : Int} (hworkers : 0 < workers)
    (h : ∀ s ∈ samples, ∀ p, s.path = some p → meant p ∧ meant s.file) :
    Thrives (Session.Reads meant) (patchDocuments samples workers) := by
  unfold patchDocuments
  rw [if_neg (by omega)]
  refine (thrives_pooled fun d hd => ?_).bind fun _ => thrives_pure _
  obtain ⟨hdocument, hsamples⟩ := forall_mem_byDocument h d hd
  exact (thrives_patchDocument hdocument hsamples).bind fun _ => thrives_pure _

end Sample

/-! ## What patching fails with -/

/-- **A failure that says nothing of the toolchain's output.** -/
def Failure.IsForeign : Failure → Prop
  | .run _ => False
  | _ => True

theorem Failure.IsAbout.isForeign {failure : Failure} {p : Path} (h : failure.IsAbout p) : failure.IsForeign := by
  cases failure with
  | run => exact h.elim
  | _ => trivial

theorem Failure.IsOf.isForeign {failure : Failure} {p : Path} (h : failure.IsOf p) : failure.IsForeign := by
  rcases h with habout | ⟨_, rfl⟩
  · exact habout.isForeign
  · trivial

theorem FileTree.failsWith_read (t : FileTree) (cwd : Absolute) (p : Path) :
    FailsWith Failure.IsForeign (t.read cwd p) := by
  by_cases htextual : t.Textual cwd p
  · exact htextual.failsWith_read.mono fun _ habout => habout.isForeign
  · rw [read_of_not_textual htextual]
    cases p.hasNull <;> exact failsWith_error trivial

namespace Sample

open Act

theorem failsOnly_change? (s : Sample) (path : Path) : FailsOnly Failure.IsForeign (s.change? path) :=
  failsOnly_host.bind fun host =>
    (failsOnly_ofExcept (host.tree.failsWith_read host.cwd path)).bind fun _ => failsOnly_pure _

theorem failsOnly_changes (samples : List Sample) : FailsOnly Failure.IsForeign (changes samples) := by
  refine (failsOnly_mapM fun s => ?_).bind fun _ => failsOnly_pure _
  cases s.path with
  | none => exact failsOnly_pure _
  | some path => exact s.failsOnly_change? path

theorem failsOnly_patchDocument (document : Path) (samples : List Sample) :
    FailsOnly Failure.IsForeign (patchDocument document samples) := by
  refine (failsOnly_changes samples).bind fun changes => ?_
  refine (failsOnly_pure false).ite (failsOnly_host.bind fun host => ?_)
  have hstamp := (host.tree.failsWith_stamp host.cwd document).mono fun _ h => h.isForeign
  refine (failsOnly_ofExcept hstamp).bind fun stamp => ?_
  refine (failsOnly_ofExcept (host.tree.failsWith_read host.cwd document)).bind fun text => ?_
  refine (failsOnly_tell _).bind fun _ => (failsOnly_pure false).ite ?_
  refine (failsOnly_ofExcept ((host.failsWith_write document _ stamp).mono fun _ h => h.isForeign)).bind fun after => ?_
  exact (failsOnly_setHost after).bind fun _ => (failsOnly_tell _).bind fun _ => failsOnly_pure true

/-- **Patching does not fail for what the toolchain wrote.** -/
theorem failsOnly_patchDocuments (samples : List Sample) (workers : Int) :
    FailsOnly Failure.IsForeign (patchDocuments samples workers) := by
  have hpatch : FailsOnly Failure.IsForeign (pooled (fun d => do
      return (d.1, ← patchDocument d.1 d.2)) (byDocument samples)) :=
    failsOnly_pooled fun d => (failsOnly_patchDocument d.1 d.2).bind fun _ => failsOnly_pure _
  have hdone := hpatch.bind fun patched => failsOnly_pure ((patched.filter (·.2)).map (·.1))
  refine FailsOnly.ite (FailsOnly.bind (failsOnly_ofExcept ?_) fun _ => hdone) hdone
  exact failsWith_error trivial

end Sample

end Fenceline
