import Fenceline.Proofs.Run.Stages

/-!
# The code with which the toolchain ends

Toolchains end with a code that is not zero when they have found problems, so the code says nothing of
whether a run has failed.

**The law** (`sameEnd_perform`): whatever comes of a run, with another code of the toolchain the same comes
of it, on the same files; only the failure of a run that was not accounted for tells which code it was.
-/

namespace Fenceline

/-! ## Patching does not look at what was told -/

namespace Sample

open Act

theorem deaf_change? (s : Sample) (path : Path) : Deaf (s.change? path) :=
  deaf_host.bind fun _ => (deaf_ofExcept _).bind fun _ => deaf_pure _

theorem deaf_changes (samples : List Sample) : Deaf (changes samples) := by
  refine (deaf_mapM fun s => ?_).bind fun _ => deaf_pure _
  cases s.path with
  | none => exact deaf_pure _
  | some path => exact s.deaf_change? path

theorem deaf_patchDocument (document : Path) (samples : List Sample) :
    Deaf (patchDocument document samples) := by
  refine (deaf_changes samples).bind fun changes => ?_
  refine (deaf_pure false).ite (deaf_host.bind fun host => ?_)
  refine (deaf_ofExcept _).bind fun stamp => (deaf_ofExcept _).bind fun text => ?_
  refine (deaf_tell _).bind fun _ => (deaf_pure false).ite ?_
  exact (deaf_ofExcept _).bind fun h => (deaf_setHost h).bind fun _ => (deaf_log _ _ _).bind fun _ =>
    deaf_pure true

theorem deaf_patchDocuments (samples : List Sample) (workers : Int) :
    Deaf (patchDocuments samples workers) := by
  have hpatch : Deaf (pooled (fun d => do
      return (d.1, ← patchDocument d.1 d.2)) (byDocument samples)) :=
    deaf_pooled fun d => (deaf_patchDocument d.1 d.2).bind fun _ => deaf_pure _
  have hdone := hpatch.bind fun patched => deaf_pure ((patched.filter (·.2)).map (·.1))
  exact ((deaf_fail _).bind fun _ => hdone).ite hdone

end Sample

namespace Run

/-- A run with a toolchain that does the same and ends with other codes. -/
def Setup.endingWith (r : Setup) (code : Launch → Int) : Setup :=
  { r with toolchain := fun launch => { r.toolchain launch with code := code launch } }

/-- **Two runs that come to the same**: to the same result or failure, but for the code that the failure of
a run tells of, on the same host. -/
structure SameEnd (a b : Except Failure (List FileResult) × Session) : Prop where
  host : a.2.host = b.2.host
  result : a.1 = b.1 ∨
    ∃ f g : RunFault, a.1 = .error (.run f) ∧ b.1 = .error (.run g) ∧ f.lines = g.lines

theorem SameEnd.refl (a : Except Failure (List FileResult) × Session) : SameEnd a a :=
  ⟨rfl, .inl rfl⟩

variable (r : Setup)

/-- A run concludes in the same way whatever the code is. -/
theorem sameEnd_conclude (args : List Text) (samples : List Sample) (ledger : Ledger) (c d : Int)
    (s : Session) :
    SameEnd ((conclude r args samples c ledger).perform s) ((conclude r args samples d ledger).perform s) := by
  by_cases hlines : ledger.unrecognized = []
  · have hend : Act.Deaf (need r .patchWorkers >>= fun _ =>
        Sample.patchDocuments samples r.config.patchWorkers >>= fun _ => pure ledger.results) := by
      refine Act.Deaf.bind ?_ fun _ => (Sample.deaf_patchDocuments _ _).bind fun _ => Act.deaf_pure _
      exact (Act.deaf_fail _).ite (Act.deaf_pure ())
    -- The code is logged before the documents are patched, which nobody looks at.
    have hlogged : ∀ code : Int, ∃ events,
        (conclude r args samples code ledger).perform s =
          (need r .patchWorkers >>= fun _ =>
            Sample.patchDocuments samples r.config.patchWorkers >>= fun _ => pure ledger.results).perform
            { s with events } := by
      intro code
      obtain ⟨events, htold⟩ := perform_tellCode r code s
      rw [conclude_of_no_complaints hlines]
      exact ⟨events, Act.perform_bind_ok htold⟩
    obtain ⟨left, hleft⟩ := hlogged c
    obtain ⟨right, hright⟩ := hlogged d
    rw [hleft, hright]
    obtain ⟨hresult, hhost⟩ := hend { s with events := left } { s with events := right } rfl
    exact ⟨hhost, .inl hresult⟩
  · rw [conclude_of_complaints hlines, conclude_of_complaints hlines]
    exact ⟨rfl, .inr ⟨_, _, rfl, rfl, rfl⟩⟩

/-- Two runs that go on in the same way from wherever they are come to the same. -/
theorem sameEnd_bind {α : Type} (act : Act α) {f g : α → Act (List FileResult)}
    (h : ∀ a s, SameEnd ((f a).perform s) ((g a).perform s)) (s : Session) :
    SameEnd ((act >>= f).perform s) ((act >>= g).perform s) := by
  rw [Act.perform_bind, Act.perform_bind]
  obtain ⟨result, t⟩ := act.perform s
  cases result with
  | error failure => exact .refl _
  | ok a => exact h a t

variable (code : Launch → Int)

theorem sameEnd_work (sampleDir : Option Absolute) (requested : List Text) (m : Material) (s : Session) :
    SameEnd ((work r sampleDir requested m).perform s)
      ((work (r.endingWith code) sampleDir requested m).perform s) := by
  have hseek : seek (r.endingWith code) = seek r := rfl
  rw [work, work, Act.perform_bind, Act.perform_bind, perform_launch, perform_launch, hseek]
  obtain ⟨found, t⟩ := (seek r).perform s
  cases found with
  | error failure => exact .refl _
  | ok executable =>
    exact sameEnd_bind _ (fun ledger t => sameEnd_conclude r _ _ ledger _ _ t) _

theorem sameEnd_within (sampleDir : Option Absolute) (requested : List Text) (s : Session) :
    SameEnd ((within r sampleDir requested).perform s)
      ((within (r.endingWith code) sampleDir requested).perform s) := by
  -- Only the toolchain is another one, so all stages before its end are the same.
  have hstages : within (r.endingWith code) sampleDir requested =
      if (files r requested).isEmpty && !r.command.permitsNoFiles then Act.fail .noTargets
      else prepare r sampleDir requested >>= fun m =>
        if isIdle r requested m then pure (blank r requested).results
        else work (r.endingWith code) sampleDir requested m :=
    within_eq (r.endingWith code) sampleDir requested
  rw [hstages, within_eq]
  by_cases hnone : ((files r requested).isEmpty && !r.command.permitsNoFiles) = true
  · rw [if_pos hnone, if_pos hnone]
    exact .refl _
  · rw [if_neg hnone, if_neg hnone]
    refine sameEnd_bind _ (fun m t => ?_) s
    by_cases hidle : isIdle r requested m = true
    · rw [if_pos hidle, if_pos hidle]
      exact .refl _
    · rw [if_neg hidle, if_neg hidle]
      exact sameEnd_work r code sampleDir requested m t

/-- **What comes of a run does not depend on the code** with which the toolchain ends. -/
theorem sameEnd_perform (requested : List Text) (s : Session) :
    SameEnd ((perform r requested).perform s) ((perform (r.endingWith code) requested).perform s) := by
  have hother := perform_eq (r.endingWith code) requested s
  have hwithin := sameEnd_within r code (directory r s) requested (opened r s)
  rw [perform_eq, hother]
  exact ⟨host_closed_congr hwithin.host (directory r s), hwithin.result⟩

end Run

end Fenceline
