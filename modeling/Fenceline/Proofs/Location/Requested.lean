import Fenceline.Proofs.Keyed
import Fenceline.Proofs.Location.Growing
import Fenceline.Proofs.Location.Mark
import Fenceline.Proofs.Text.Places

/-!
# Requested documents and reports on them

A path leads to a place by its names alone, one after the other (`place_append`), so detours in its spelling do
not matter (`place_detour`). Documents are requested under spellings, and a resolver knows the last spelling of
each (`Requests`). A report tells its file by any spelling of the path, by a file URL of it, and with the mark of
a sample's lines behind it or without one (`Denotes`).

**The law** (`resolve_denoted`): a report that is brought back is on the spelling under which its document was
requested, or on the path itself if none was (`spelling`); and it is brought back just if its mark can be counted
from and its message can be interpreted.
-/

namespace Fenceline

open Reference

/-! ## Places -/

namespace Resolver

variable {r : Resolver} {files : List Text} {p file value : Text}

/-- **The place that a path leads to**, seen from where relative paths begin. -/
def place (r : Resolver) (file : Text) : Absolute :=
  (r.cwd.join (Path.ofText file)).resolve []

/-- Where the names of a path begin to lead. -/
def origin (r : Resolver) (file : Text) : Absolute :=
  if file.head? = some '/' then [] else r.cwd.names.foldl Path.step []

/-- A path is followed name by name. -/
theorem place_eq (r : Resolver) (file : Text) :
    r.place file = (Path.components file).foldl Path.step (r.origin file) := by
  have hresolve : ∀ q : Path, q.resolve [] = q.names.foldl Path.step [] := fun q => by
    rw [Path.resolve, ite_self]
  rw [place, hresolve, origin, Path.join]
  by_cases hhead : file.head? = some '/'
  · have hroot : (Path.ofText file).root ≠ .relative := fun hrelative =>
      (Path.rootOf_eq_relative_iff file).1 hrelative hhead
    rw [if_pos hhead]
    split
    · exact absurd ‹_› hroot
    · rfl
  · have hroot : (Path.ofText file).root = .relative := (Path.rootOf_eq_relative_iff file).2 hhead
    rw [if_neg hhead, hroot]
    exact List.foldl_append

/-- **What stands behind a path leads on from its place.** -/
theorem place_append {file : Text} (hne : file ≠ []) (u : Text) :
    r.place (file ++ '/' :: u) = (Path.components u).foldl Path.step (r.place file) := by
  have horigin : r.origin (file ++ '/' :: u) = r.origin file := by
    obtain ⟨c, rest, rfl⟩ := List.exists_cons_of_ne_nil hne
    rfl
  rw [place_eq, place_eq, horigin, Path.components_append, List.foldl_append]

end Resolver

/-- **A path with one detour in its spelling**: a slash too many, a dot, or a name that is taken back. -/
inductive Path.Detour (t u : Text) : Text → Prop
  | slash : Detour t u (t ++ '/' :: '/' :: u)
  | dot : Detour t u (t ++ '/' :: '.' :: '/' :: u)
  | back {name : Text} : name ≠ [] → name ≠ ['.'] → name ≠ ['.', '.'] → '/' ∉ name →
    Detour t u (t ++ '/' :: (name ++ '/' :: '.' :: '.' :: '/' :: u))

/-- The names of a detour lead back to where they begin. -/
theorem Path.Detour.foldl_step {t u file : Text} (h : Detour t u file) (base : Absolute) :
    (components file).foldl step base = (components (t ++ '/' :: u)).foldl step base := by
  have hdot : ∀ u, components ('.' :: '/' :: u) = components u := fun u => components_append ['.'] u
  have hslash : ∀ u, components ('/' :: u) = components u := fun u => components_append [] u
  have hback : ∀ u, components ('.' :: '.' :: '/' :: u) = ['.', '.'] :: components u := fun u =>
    components_append ['.', '.'] u
  cases h with
  | slash => rw [components_append, hslash, components_append]
  | dot => rw [components_append, hdot, components_append]
  | @back name hne hdot hup hname =>
    have hcomponents : components name = [name] := by
      rw [components, Text.cutAt_of_not_mem hname, List.filter_cons_of_pos (by simp [hne, hdot])]
      rfl
    have htaken : step (step (components t |>.foldl step base) name) ['.', '.'] = (components t).foldl step base := by
      rw [step, if_pos rfl, step, if_neg hup, List.dropLast_concat]
    simp only [components_append, hback, hcomponents, List.foldl_append, List.foldl_cons, List.foldl_nil, htaken]

namespace Resolver

variable {r : Resolver} {files : List Text} {p file value mark : Text}

/-- **A detour leads nowhere else.** -/
theorem place_detour {t u : Text} (h : Path.Detour t u file) : r.place file = r.place (t ++ '/' :: u) := by
  have horigin : r.origin file = r.origin (t ++ '/' :: u) := by
    cases t with
    | nil => cases h <;> rfl
    | cons c t => cases h <;> rfl
  rw [place_eq, place_eq, horigin, h.foldl_step]

theorem absolute_eq (h : r.Locatable file) : r.absolute file = .ok (.ofAbsolute (r.place file)) := by
  unfold Locatable at h
  unfold absolute
  dsimp only
  rw [h]
  rfl

/-! ## Requested documents -/

/-- **Documents requested under spellings**: the resolver knows the last spelling of each. -/
structure Requests (r : Resolver) (files : List Text) : Prop where
  locatable : ∀ file ∈ files, r.Locatable file
  displayNames_eq : r.displayNames = Keyed.ofList (files.map fun file => (Path.ofAbsolute (r.place file), file))

/-- **The spelling under which a path's document was requested**, the last one if there are several, or the
path itself if it was not. -/
def spelling (r : Resolver) (files : List Text) (p : Text) : Text :=
  ((files.filter fun file => r.place file = r.place p).getLast?).getD p

/-- A spelling that was requested and leads where the path does, if there is one. -/
theorem spelling_cases (r : Resolver) (files : List Text) (p : Text) :
    (r.spelling files p ∈ files ∧ r.place (r.spelling files p) = r.place p) ∨
      (r.spelling files p = p ∧ ∀ file ∈ files, r.place file ≠ r.place p) := by
  unfold spelling
  cases hlast : (files.filter fun file => r.place file = r.place p).getLast? with
  | none =>
    have hnone := List.filter_eq_nil_iff.1 (List.getLast?_eq_none_iff.1 hlast)
    exact .inr ⟨rfl, fun file hfile hplace => hnone file hfile (decide_eq_true hplace)⟩
  | some file =>
    obtain ⟨hfile, hplace⟩ := List.mem_filter.1 (List.mem_of_getLast? hlast)
    exact .inl ⟨hfile, of_decide_eq_true hplace⟩

theorem Requests.get?_eq (h : r.Requests files) (p : Text) :
    (r.displayNames.get? (.ofAbsolute (r.place p))).getD p = r.spelling files p := by
  have hkeys : ((files.map fun file => (Path.ofAbsolute (r.place file), file)).filter
        fun q => q.1 = Path.ofAbsolute (r.place p)) =
      (files.filter fun file => r.place file = r.place p).map fun file => (Path.ofAbsolute (r.place file), file) := by
    rw [List.filter_map]
    congr 2
    funext file
    simp [Path.ofAbsolute]
  rw [h.displayNames_eq, Keyed.get?_ofList, hkeys, List.getLast?_map, Option.map_map, spelling]
  exact congrArg (Option.getD · p) (congrFun Option.map_id _)

theorem Requests.displayName_eq_ok_iff (h : r.Requests files) {shown : Text} :
    r.displayName p = .ok shown ↔ r.Locatable p ∧ shown = r.spelling files p := by
  have hshown : r.Locatable p → r.displayName p = .ok (r.spelling files p) := fun hp => by
    rw [displayName, absolute_eq hp, ← h.get?_eq]
    rfl
  constructor
  · intro hok
    obtain ⟨place, hplace, -⟩ := bind_eq_ok.1 hok
    have hp := succeeds_absolute_iff.1 ⟨place, hplace⟩
    exact ⟨hp, Except.ok.inj (hok.symm.trans (hshown hp))⟩
  · rintro ⟨hp, rfl⟩
    exact hshown hp

/-! ## Values that denote paths -/

/-- **A value that denotes a path with a mark behind it**: the two as they are, or a file URL with the
percent-encoding of an absolute path. -/
inductive Names (p mark : Text) : Text → Prop
  | path : ¬ FileUrl.scheme <+: p → Names p mark (p ++ mark)
  | url {rest t : Text} : p = '/' :: rest → FileUrl.Encodes t (Utf8.encode p) →
    Names p mark (FileUrl.scheme ++ (t ++ mark))

/-- **A value that denotes a path**, with the mark of a sample's lines behind it or without one. -/
structure Denotes (value p mark : Text) : Prop where
  named : Names p mark value
  marked : IsMark mark ∨ mark = [] ∧ Unmarked p

theorem Denotes.path_eq (h : Denotes value p mark) : FileUrl.path value = .ok (p ++ mark) := by
  obtain ⟨hpath | ⟨rfl, hencodes⟩, hmarked⟩ := h
  · refine FileUrl.path_of_not_url fun hurl => hpath ?_
    rcases hmarked with hmark | ⟨rfl, -⟩
    · obtain ⟨tail, rfl, -⟩ := hmark.exists_tail
      exact Text.prefix_of_not_mem (by decide) hurl
    · rwa [List.append_nil] at hurl
  · have hplain : FileUrl.Plain mark := by
      rcases hmarked with hmark | ⟨rfl, -⟩
      · exact hmark.plain
      · exact List.forall_mem_nil _
    exact FileUrl.path_encoded hencodes hplain

theorem Denotes.unmarked_eq (h : Denotes value p mark) : unmarked (p ++ mark) = p := by
  rcases h.marked with hmark | ⟨rfl, hp⟩
  · exact unmarked_append hmark p
  · rw [List.append_nil]
    exact unmarked_eq_self hp

/-! ## Reports -/

variable {d e : Draft} {offset : Offset} {message : Text}

/-- A report outside of the known samples keeps its file, and what it says. -/
theorem Becomes.get?_file (h : r.Becomes d e) (hvalue : d.get? "file" = some value)
    (hpath : FileUrl.path value = .ok file)
    (houtside : r.isInSampleDir file = true → r.sampleAt? file = none) :
    e.get? "file" = some file ∧ e.get? "message" = d.get? "message" := by
  have hsame : ∀ {value' file' : Text}, d.get? "file" = some value' → FileUrl.path value' = .ok file' →
      file' = file := by
    intro value' file' hvalue' hpath'
    obtain rfl := Option.some.inj (hvalue.symm.trans hvalue')
    exact Except.ok.inj (hpath'.symm.trans hpath)
  cases h with
  | nowhere hnone =>
    rw [hnone] at hvalue
    cases hvalue
  | plain hvalue' hpath' =>
    obtain rfl := hsame hvalue' hpath'
    simp [Keyed.get?_set_of_ne]
  | inSample hvalue' hpath' hinside hsample =>
    obtain rfl := hsame hvalue' hpath'
    rw [houtside hinside] at hsample
    cases hsample
  | ofSample hvalue' hpath' hinside hsample =>
    obtain rfl := hsame hvalue' hpath'
    rw [houtside hinside] at hsample
    cases hsample
  | markedLine hvalue' hpath' =>
    obtain rfl := hsame hvalue' hpath'
    simp [Keyed.get?_set_of_ne]
  | marked hvalue' hpath' =>
    obtain rfl := hsame hvalue' hpath'
    simp [Keyed.get?_set_of_ne]

/-- **What can be interpreted of a report outside of the known samples**: its mark, and its message as a report
on its path. -/
theorem interpretable_iff (hmessage : d.message = .ok message) (hvalue : d.get? "file" = some value)
    (hpath : FileUrl.path value = .ok file)
    (houtside : r.isInSampleDir file = true → r.sampleAt? file = none) :
    r.Interpretable d offset ↔
      (r.isInSampleDir file = false → ∀ m, whole.matchStart file = some m →
        MarkInterpretable (integer? d "line") (integer? d "column") offset m) ∧
      r.MessageInterpretable message offset (some (unmarked file)) := by
  have hfields : ∀ {fields}, r.resolveFields d offset = .ok fields →
      fields.get? "file" = some file ∧ fields.message = .ok message := by
    intro fields hfields
    obtain ⟨hfile, hsaid⟩ := (becomes_of_resolveFields hfields).get?_file hvalue hpath houtside
    exact ⟨hfile, Draft.message_of_get? (hsaid.trans (Draft.message_eq_ok_iff.1 hmessage))⟩
  have hfile_iff : (∀ value, d.get? "file" = some value → r.FileInterpretable d offset value) ↔
      (r.isInSampleDir file = false → ∀ m, whole.matchStart file = some m →
        MarkInterpretable (integer? d "line") (integer? d "column") offset m) := by
    constructor
    · exact fun h => (h value hvalue).mark file hpath
    · intro hmark value' hvalue'
      obtain rfl := Option.some.inj (hvalue.symm.trans hvalue')
      refine ⟨FileUrl.succeeds_path_iff.1 ⟨file, hpath⟩, fun file' hpath' hinside s hs => ?_,
        fun file' hpath' => ?_⟩
      · obtain rfl := Except.ok.inj (hpath.symm.trans hpath')
        rw [houtside hinside] at hs
        cases hs
      · obtain rfl := Except.ok.inj (hpath.symm.trans hpath')
        exact hmark
  constructor
  · intro h
    refine ⟨hfile_iff.1 h.file, ?_⟩
    obtain ⟨fields, hresolved⟩ := (succeeds_resolveFields_iff ⟨message, hmessage⟩).2 h.file
    obtain ⟨hfile, hsaid⟩ := hfields hresolved
    have hmessage' := h.message fields message hresolved hsaid
    rwa [hfile] at hmessage'
  · rintro ⟨hmark, hinterpretable⟩
    refine ⟨hfile_iff.2 hmark, fun fields said hresolved hsaid => ?_⟩
    obtain ⟨hfile, hsaid'⟩ := hfields hresolved
    obtain rfl := Except.ok.inj (hsaid'.symm.trans hsaid)
    rwa [hfile]

/-- **A report that is brought back is on a spelling** of what its fields tell, without the mark, or on no file. -/
theorem Requests.get?_file_of_resolve (hrequests : r.Requests files) {kind : Kind} (hkind : d.kind = .ok kind)
    (h : r.resolve d = .ok e) :
    ∃ fields, r.resolveFields d (r.offset kind) = .ok fields ∧
      e.get? "file" = (fields.get? "file").map fun file => r.spelling files (unmarked file) := by
  obtain ⟨kind', hkind', h⟩ := bind_eq_ok.1 h
  obtain rfl := Except.ok.inj (hkind.symm.trans hkind')
  obtain ⟨fields, hfields, h⟩ := bind_eq_ok.1 h
  obtain ⟨message, -, h⟩ := bind_eq_ok.1 h
  obtain ⟨said, -, h⟩ := bind_eq_ok.1 h
  refine ⟨fields, hfields, ?_⟩
  cases hfile : fields.get? "file" with
  | none =>
    rw [hfile] at h
    cases h
    rw [Keyed.get?_set_of_ne _ _ (by decide), hfile]
    rfl
  | some file =>
    rw [hfile] at h
    obtain ⟨shown, hshown, h⟩ := bind_eq_ok.1 h
    cases h
    rw [Keyed.get?_set_self, (hrequests.displayName_eq_ok_iff.1 hshown).2]
    rfl

/-- **A report on a path is brought back to the spelling under which its document was requested**, or to the path
itself, if its mark can be counted from and its message can be interpreted, and only then. -/
theorem resolve_denoted (hrequests : r.Requests files) {kind : Kind} (hkind : d.kind = .ok kind)
    (hmessage : d.message = .ok message) (hvalue : d.get? "file" = some value) (hdenotes : Denotes value p mark)
    (houtside : r.isInSampleDir (p ++ mark) = true → r.sampleAt? (p ++ mark) = none) :
    (Succeeds (r.resolve d) ↔
      (r.isInSampleDir (p ++ mark) = false → ∀ m, whole.matchStart (p ++ mark) = some m →
        MarkInterpretable (integer? d "line") (integer? d "column") (r.offset kind) m) ∧
      r.MessageInterpretable message (r.offset kind) (some p)) ∧
      ∀ e, r.resolve d = .ok e → e.get? "file" = some (r.spelling files p) := by
  have hpath := hdenotes.path_eq
  refine ⟨?_, fun e he => ?_⟩
  · rw [succeeds_resolve_iff hkind ⟨message, hmessage⟩, interpretable_iff hmessage hvalue hpath houtside,
      hdenotes.unmarked_eq]
  · obtain ⟨fields, hfields, hshown⟩ := hrequests.get?_file_of_resolve hkind he
    obtain ⟨hfile, -⟩ := (becomes_of_resolveFields hfields).get?_file hvalue hpath houtside
    rw [hshown, hfile, Option.map_some, hdenotes.unmarked_eq]

end Resolver

end Fenceline
