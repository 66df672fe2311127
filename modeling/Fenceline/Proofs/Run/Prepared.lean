import Fenceline.Proofs.Files.Readable
import Fenceline.Proofs.Keyed
import Fenceline.Proofs.Run.Growth

/-!
# What can be read is searched for samples

A run that only adds to the files can read afterwards what it could read before, and finds the executables that
it found before. So its preparation does not fail while the documents that it is given can be read.

**The laws.** `thrives_prepare`: documents that can be read are searched, and their samples stored.
`exists_which?`: an executable that was there is found.
-/

namespace Fenceline

/-! ## Looking into a tree that has grown -/

namespace FileTree

variable {t u : FileTree}

theorem follow_of_stays (h : ∀ a node, t.node? a = some node → u.node? a = some node) {cwd a : Absolute}
    {p : Path} (hfollow : t.follow cwd p = .ok a) : u.follow cwd p = .ok a :=
  follow_of_directories (fun a => h a .directory) hfollow

theorem read_of_stays (h : ∀ a node, t.node? a = some node → u.node? a = some node) {cwd : Absolute} {p : Path}
    {text : Text} (hread : t.read cwd p = .ok text) : u.read cwd p = .ok text := by
  obtain ⟨hnull, a, f, hfollow, hnode, hdecode⟩ := read_eq_ok_iff.1 hread
  exact read_eq_ok_iff.2 ⟨hnull, a, f, follow_of_stays h hfollow, h a _ hnode, hdecode⟩

end FileTree

namespace Session.Grows

variable {s t : Session}

theorem read (h : s.Grows t) {p : Path} {text : Text} (hread : s.host.tree.read s.host.cwd p = .ok text) :
    t.host.tree.read t.host.cwd p = .ok text := by
  rw [h.cwd]
  exact FileTree.read_of_stays h.stays hread

theorem isExecutable (h : s.Grows t) {name : Text} (hname : s.host.isExecutable name = true) :
    t.host.isExecutable name = true := by
  unfold Host.isExecutable at hname ⊢
  dsimp only at hname ⊢
  split at hname
  · rename_i f hlook
    obtain ⟨a, hfollow, hnode⟩ := FileTree.look_eq_ok_iff.1 hlook
    have hthere : t.host.tree.look t.host.cwd (Path.ofText name) = .ok (.file f) := by
      rw [h.cwd]
      exact FileTree.look_eq_ok_iff.2 ⟨a, FileTree.follow_of_stays h.stays hfollow, h.stays a _ hnode⟩
    rw [hthere]
    exact hname
  · cases hname

/-- **An executable that was found is found.** -/
theorem exists_which? (h : s.Grows t) {name executable : Text}
    (hfound : s.host.which? name = some executable) : ∃ executable, t.host.which? name = some executable := by
  unfold Host.which? at hfound ⊢
  split at hfound
  · split at hfound
    · rename_i hslash hname
      rw [if_pos hslash, if_pos (h.isExecutable hname)]
      exact ⟨name, rfl⟩
    · cases hfound
  · rename_i hslash
    have hpath : t.host.searchPath = s.host.searchPath := by rw [Host.searchPath, Host.searchPath, h.environment]
    rw [if_neg hslash, hpath]
    refine Option.isSome_iff_exists.1 (List.find?_isSome.2 ⟨executable, List.mem_of_find?_eq_some hfound, ?_⟩)
    exact h.isExecutable (List.find?_some hfound)

end Session.Grows

/-! ## Preparing a run -/

namespace Sample

open Act

variable {s : Session}

theorem thrives_store (directory : Absolute) (sample : Sample) (extension : Text) :
    Thrives s.Grows (store directory sample extension) :=
  fun t h => ⟨_, _, rfl, grows_store directory sample extension t h⟩

theorem thrives_log (level : Level) (topic : Topic) (message : Text) :
    Thrives s.Grows (log level topic message) :=
  fun t h => ⟨_, _, rfl, grows_log level topic message t h⟩

/-- **A document that can be read is searched.** -/
theorem perform_extractFrom {document : Path} {text : Text} (h : s.host.tree.read s.host.cwd document = .ok text)
    (directory : Absolute) (languages : List Text) :
    (extractFrom directory languages document).perform s =
      ((chosen text document languages).mapM (fun x => store directory x.1 x.2) >>= fun samples =>
        log .debug .sampling ("Extracted ".toList ++ Text.ofNat samples.length ++ " samples from ".toList ++
          document.toText) >>= fun _ => pure samples).perform s := by
  have hread : s.host.tree.read? s.host.cwd document = .ok (some text) := by
    rw [FileTree.read?, h]
  rw [extractFrom, perform_bind_ok (perform_host s), hread, perform_bind_ok (perform_ofExcept _ s)]

theorem thrives_extractFrom {document : Path} (h : Succeeds (s.host.tree.read s.host.cwd document))
    (directory : Absolute) (languages : List Text) :
    Thrives s.Grows (extractFrom directory languages document) := by
  intro t ht
  obtain ⟨text, htext⟩ := h
  rw [perform_extractFrom (ht.read htext)]
  refine ((thrives_mapM fun x _ => thrives_store directory x.1 x.2).bind fun samples => ?_) t ht
  exact (thrives_log _ _ _).bind fun _ => thrives_pure samples

theorem thrives_extract {documents : List Path} {workers : Int} (hworkers : 0 < workers)
    (h : ∀ document ∈ documents, Succeeds (s.host.tree.read s.host.cwd document)) (directory : Absolute)
    (languages : List Text) : Thrives s.Grows (extract directory languages workers documents) := by
  unfold extract
  rw [if_neg (by omega)]
  exact (thrives_pooled fun document hdocument => thrives_extractFrom (h document hdocument) directory languages).bind
    fun _ => thrives_pure _

end Sample

namespace Run

open Act

variable {r : Setup} {requested : List Text} {s : Session}

/-- A file of a run as it is searched for samples. -/
def document (r : Setup) (file : Text) : Path :=
  .ofAbsolute ((Path.ofText file).resolve r.cwd)

theorem displayNames_eq_ok (hspelled : ∀ file ∈ files r requested, (Path.ofText file).hasNull = false) :
    displayNames r.cwd (files r requested) =
      .ok (Keyed.ofList ((files r requested).map fun file => (document r file, file))) := by
  refine bind_eq_ok.2 ⟨_, mapM_eq_ok_map fun file hfile => ?_, rfl⟩
  dsimp only
  rw [hspelled file hfile]
  rfl

/-- **A run whose documents can be read is prepared.** -/
theorem thrives_prepare (hsound : r.config.Sound) (husable : r.unusable = [])
    (hspelled : ∀ file ∈ files r requested, (Path.ofText file).hasNull = false)
    {sampleDir : Option Absolute}
    (hreadable : sampleDir.isSome = true → ∀ file ∈ files r requested, r.command.isScanned file = true →
      Succeeds (s.host.tree.read s.host.cwd (document r file))) :
    Thrives s.Grows (prepare r sampleDir requested) := by
  intro t ht
  rw [prepare, displayNames_eq_ok hspelled, perform_bind_ok (perform_ofExcept _ t)]
  refine (Thrives.bind ?_ fun samples => thrives_pure _) t ht
  cases sampleDir with
  | none => exact thrives_pure []
  | some directory =>
    rw [gather, need_of_usable husable, pure_bind]
    refine Sample.thrives_extract hsound.extractWorkers (fun p hp => ?_) directory _
    obtain ⟨name, hname, rfl⟩ := List.mem_map.1 hp
    obtain ⟨hname, hscanned⟩ := List.mem_filter.1 hname
    obtain ⟨file, hfile, rfl⟩ := List.mem_map.1 (Keyed.mem_of_mem_ofList hname)
    exact hreadable rfl file hfile hscanned

end Run

end Fenceline
