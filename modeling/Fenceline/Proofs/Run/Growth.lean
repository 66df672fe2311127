import Fenceline.Proofs.Files.Fresh
import Fenceline.Proofs.Run.Stages

/-!
# Nothing is overwritten before the toolchain starts

Until the toolchain starts, a run adds to the files: the directory of its samples, and a file for each sample
under a name that is free (`Host.node?_fresh`).

**The law** (`grows_prepare`): whatever comes of the preparation of a run, everything that stood in the tree
stands there as it did, and the toolchain has not been started.
-/

namespace Fenceline

/-- What does not stand below a place stays when the place is emptied. -/
theorem FileTree.node?_remove_of_not_prefix (t : FileTree) {a b : Absolute} (h : ¬ a <+: b) :
    (t.remove a).node? b = t.node? b := by
  unfold node? remove
  split
  · rfl
  · dsimp only
    induction t.nodes with
    | nil => rfl
    | cons p nodes ih =>
      rw [List.filter_cons]
      by_cases hp : p.1 = b
      · have hkept : (!a.isPrefixOf p.1) = true := by
          rw [hp, Bool.not_eq_true', Bool.eq_false_iff]
          exact fun hprefix => h (List.isPrefixOf_iff_prefix.1 hprefix)
        rw [if_pos hkept, Keyed.get?, Keyed.get?, if_pos hp, if_pos hp]
      · rw [Keyed.get?, if_neg hp, ← ih]
        split
        · rw [Keyed.get?, if_neg hp]
        · rfl

/-! ## Sessions that grow -/

/-- **A session that has grown**: everything stands where it stood, and no toolchain was started. -/
structure Session.Grows (s t : Session) : Prop where
  launches : t.launches = s.launches
  cwd : t.host.cwd = s.host.cwd
  environment : t.host.environment = s.host.environment
  stays : ∀ a node, s.host.tree.node? a = some node → t.host.tree.node? a = some node

namespace Session.Grows

variable {s t : Session}

theorem refl (s : Session) : s.Grows s :=
  ⟨rfl, rfl, rfl, fun _ _ h => h⟩

theorem addFile (h : s.Grows t) (directory : Absolute) (ending : Text) (bytes : Bytes) :
    s.Grows { t with host := (t.host.addFile directory ending bytes).2 } := by
  refine ⟨h.launches, h.cwd, h.environment, fun a node ha => ?_⟩
  have hstood := h.stays a node ha
  refine FileTree.node?_put_of_ne _ ?_ hstood bytes
  rintro rfl
  rw [t.host.node?_fresh directory Host.fileLabel ending] at hstood
  cases hstood

theorem addDirectory (h : s.Grows t) (label : Text) :
    s.Grows { t with host := (t.host.addDirectory label).2 } :=
  ⟨h.launches, h.cwd, h.environment, fun a node ha =>
    FileTree.node?_addDirectories_of_some _ (h.stays a node ha)⟩

end Session.Grows

namespace Sample

open Act

variable {s : Session}

theorem grows_store (directory : Absolute) (sample : Sample) (extension : Text) :
    Keeps s.Grows (store directory sample extension) :=
  fun _ h => h.addFile directory (sample.fileEnding extension) (Utf8.encode sample.content)

theorem grows_log (level : Level) (topic : Topic) (message : Text) : Keeps s.Grows (log level topic message) :=
  fun _ h => ⟨h.launches, h.cwd, h.environment, h.stays⟩

theorem grows_extractFrom (directory : Absolute) (languages : List Text) (document : Path) :
    Keeps s.Grows (extractFrom directory languages document) := by
  refine keeps_host.bind fun host => (keeps_ofExcept _).bind fun text => ?_
  cases text with
  | none => exact (grows_log _ _ _).bind fun _ => keeps_pure _
  | some text =>
    refine (keeps_mapM fun x _ => grows_store directory x.1 x.2).bind fun samples => ?_
    exact (grows_log _ _ _).bind fun _ => keeps_pure _

theorem grows_extract (directory : Absolute) (languages : List Text) (workers : Int)
    (documents : List Path) : Keeps s.Grows (extract directory languages workers documents) := by
  unfold extract
  split
  · exact (keeps_ofExcept _).bind fun _ =>
      (keeps_pooled fun document _ => grows_extractFrom directory languages document).bind fun _ => keeps_pure _
  · exact (keeps_pooled fun document _ => grows_extractFrom directory languages document).bind
      fun _ => keeps_pure _

end Sample

namespace Run

open Act

variable {r : Setup}

/-- **The preparation of a run only adds to the files.** -/
theorem grows_prepare (r : Setup) (sampleDir : Option Absolute) (requested : List Text) (s : Session) :
    Keeps s.Grows (prepare r sampleDir requested) := by
  refine (keeps_ofExcept _).bind fun names => Keeps.bind ?_ fun _ => keeps_pure _
  cases sampleDir with
  | none => exact keeps_pure []
  | some directory =>
    refine Keeps.bind ?_ fun _ => Sample.grows_extract _ _ _ _
    unfold need
    split
    · exact keeps_ofExcept _
    · exact keeps_pure ()

/-- The session that a run works in has everything of the one before. -/
theorem grows_opened (r : Setup) (s : Session) : s.Grows (opened r s) := by
  unfold opened
  split
  · exact (Session.Grows.refl s).addDirectory _
  · exact .refl s

end Run

end Fenceline
