import Fenceline.Proofs.Run.Meanwhile
import Mathlib.Data.List.Perm.Subperm

/-!
# Patching touches only what changed

What patching a document comes to can be seen from the session before it (`Session.patch?`), and it rewrites this
document or nothing (`patchDocument_touches`). Where documents are files of their own (`Session.Isolates`), what is
done to one of them cannot be seen from the others.

**The laws.** `patchDocumentAmid_touches`: what others do elsewhere while a document is patched does not matter to
it. `attempts_touches`: of documents patched one after the other, in any order and whatever comes of
each, every one comes to what it would have come to alone, and nothing stands differently at any place but theirs.
`attempts_filter`: a document whose samples' files ask for no change may as well not be there.
-/

namespace Fenceline

namespace Session

variable {s t u : Session} {places : Absolute → Prop} {document p q : Path} {old new : Text}

/-- **A session that differs from another one at some places only**, and in which every path leads where it
led. -/
structure Touches (s : Session) (places : Absolute → Prop) (t : Session) : Prop where
  cwd : t.host.cwd = s.host.cwd
  leads : ∀ p, t.leadsTo p = s.leadsTo p
  elsewhere : ∀ a, ¬ places a → t.host.tree.node? a = s.host.tree.node? a

/-- Two paths that do not lead to one place. -/
def Apart (s : Session) (p q : Path) : Prop :=
  ∀ a, s.leadsTo p = .ok a → s.leadsTo q ≠ .ok a

instance : Decidable (s.Apart p q) :=
  match h : s.leadsTo p with
  | .ok a => decidable_of_iff (s.leadsTo q ≠ .ok a) (by simp [Apart, h])
  | .error _ => .isTrue fun _ ha => by rw [h] at ha; cases ha

/-- The file of a sample still says what the sample says. -/
def Holds (s : Session) (x : Sample) : Prop :=
  ∀ path ∈ x.path, s.textOf path = .ok x.content

instance (x : Sample) : Decidable (s.Holds x) :=
  inferInstanceAs (Decidable (∀ path ∈ x.path, s.textOf path = .ok x.content))

theorem Apart.symm (h : s.Apart p q) : s.Apart q p :=
  fun a hq hp => h a hp hq

theorem touches_of_host_eq (h : t.host = s.host) (places : Absolute → Prop) : s.Touches places t :=
  ⟨by rw [h], fun p => by rw [leadsTo, leadsTo, h], fun a _ => by rw [h]⟩

namespace Touches

theorem trans (hst : s.Touches places t) (htu : t.Touches places u) : s.Touches places u :=
  ⟨htu.cwd.trans hst.cwd, fun p => (htu.leads p).trans (hst.leads p),
    fun a ha => (htu.elsewhere a ha).trans (hst.elsewhere a ha)⟩

theorem mono {more : Absolute → Prop} (h : s.Touches places t) (hmore : ∀ a, places a → more a) :
    s.Touches more t :=
  ⟨h.cwd, h.leads, fun a ha => h.elsewhere a fun hplace => ha (hmore a hplace)⟩

/-- **A path that leads elsewhere reads what it read.** -/
theorem textOf_eq (h : s.Touches places t) (hp : ∀ a, s.leadsTo p = .ok a → ¬ places a) :
    t.textOf p = s.textOf p := by
  rw [textOf, textOf, h.cwd]
  refine FileTree.read_congr ?_ fun a ha => h.elsewhere a (hp a ha)
  have hleads := h.leads p
  rwa [leadsTo, leadsTo, h.cwd] at hleads

theorem apart (h : s.Touches places t) (hpq : s.Apart p q) : t.Apart p q := by
  intro a hp
  rw [h.leads] at hp ⊢
  exact hpq a hp

end Touches

/-- **A session in which a document was rewritten**: another text has been put where its path leads. -/
structure Rewrites (document : Path) (old new : Text) (t : Session) : Prop where
  said : s.textOf document = .ok old
  differs : new ≠ old
  place : ∃ a, s.leadsTo document = .ok a ∧ t.host.tree = s.host.tree.replace a (Utf8.encode new)
  cwd : t.host.cwd = s.host.cwd

namespace Rewrites

/-- **Rewriting a document touches the place that its path leads to.** -/
theorem touches (h : s.Rewrites document old new t) : s.Touches (s.leadsTo document = .ok ·) t := by
  obtain ⟨a, hleads, htree⟩ := h.place
  obtain ⟨-, b, f, hfollow, hnode, -⟩ := FileTree.read_eq_ok_iff.1 h.said
  obtain rfl : b = a := Except.ok.inj (hfollow.symm.trans hleads)
  refine ⟨h.cwd, fun p => ?_, fun c hc => ?_⟩
  · rw [leadsTo, leadsTo, h.cwd, htree]
    exact FileTree.follow_replace hnode _ p
  · rw [htree]
    exact FileTree.node?_replace_of_ne fun heq => hc (heq ▸ hleads)

theorem textOf_eq (h : s.Rewrites document old new t) : t.textOf document = .ok new := by
  obtain ⟨a, hleads, htree⟩ := h.place
  obtain ⟨hnull, b, f, hfollow, hnode, -⟩ := FileTree.read_eq_ok_iff.1 h.said
  obtain rfl : b = a := Except.ok.inj (hfollow.symm.trans hleads)
  rw [textOf, h.cwd, htree]
  exact FileTree.read_replace_self hnode hnull hleads new

end Rewrites

section elsewhere

variable {samples : List Sample} (h : s.Touches places t)
  (hfiles : ∀ x ∈ samples, ∀ path ∈ x.path, ∀ a, s.leadsTo path = .ok a → ¬ places a)
  (hdocument : ∀ a, s.leadsTo document = .ok a → ¬ places a)

include h

theorem Touches.stamp_eq (hdocument : ∀ a, s.leadsTo document = .ok a → ¬ places a) :
    t.host.tree.stamp t.host.cwd document = s.host.tree.stamp s.host.cwd document := by
  rw [h.cwd]
  refine FileTree.stamp_congr ?_ fun a ha => h.elsewhere a (hdocument a ha)
  have hleads := h.leads document
  rwa [leadsTo, leadsTo, h.cwd] at hleads

include hfiles

theorem Touches.changes_eq : t.changes samples = s.changes samples := by
  have hasks : ∀ x ∈ samples, t.change? x = s.change? x := by
    intro x hx
    unfold change?
    cases hpath : x.path with
    | none => rfl
    | some path =>
      dsimp only
      rw [h.textOf_eq (hfiles x hx path hpath)]
  rw [changes, changes, mapM_congr hasks]

include hdocument

/-- **A change elsewhere changes nothing of what patching comes to.** -/
theorem Touches.patch?_eq : t.patch? document samples = s.patch? document samples := by
  rw [patch?, patch?, h.changes_eq hfiles, h.stamp_eq hdocument, h.textOf_eq hdocument]

end elsewhere

theorem changes_of_holds {samples : List Sample} (h : ∀ x ∈ samples, s.Holds x) : s.changes samples = .ok [] := by
  have hnone : ∀ x ∈ samples, s.change? x = .ok none := by
    intro x hx
    unfold change?
    cases hpath : x.path with
    | none => rfl
    | some path =>
      dsimp only
      rw [h x hx path hpath]
      exact congrArg Except.ok (if_pos rfl)
  rw [changes, mapM_eq_ok_map (g := fun _ => none) hnone]
  simp [bind, Except.bind, pure, Except.pure]

theorem outcome_of_holds {samples : List Sample} (h : ∀ x ∈ samples, s.Holds x) (document : Path) :
    s.outcome document samples = .ok false := by
  rw [outcome, patch?, changes_of_holds h]
  rfl

/-- The text of a document after it was patched, or if it was not. -/
def textAfter (s : Session) (document : Path) (samples : List Sample) : Except Failure Text :=
  match s.patch? document samples with
  | .ok (some new) => .ok new
  | _ => s.textOf document

/-- What patching puts in the place of a text is another one, with the changes made in it. -/
theorem exists_of_patch? {samples : List Sample} (h : s.patch? document samples = .ok (some new)) :
    ∃ changes old, s.changes samples = .ok changes ∧ s.textOf document = .ok old ∧
      new = Sample.patchAll old changes ∧ new ≠ old := by
  unfold patch? at h
  obtain ⟨changes, hchanges, h⟩ := bind_eq_ok.1 h
  split at h
  · cases h
  obtain ⟨stamp, -, h⟩ := bind_eq_ok.1 h
  obtain ⟨old, hold, h⟩ := bind_eq_ok.1 h
  have hpatched := Except.ok.inj h
  split at hpatched
  · cases hpatched
  · rename_i hne
    obtain rfl := Option.some.inj hpatched
    exact ⟨changes, old, hchanges, hold, rfl, hne⟩

/-- **A document is patched just if its text becomes another one.** -/
theorem outcome_eq_ok_true_iff {samples : List Sample} :
    s.outcome document samples = .ok true ↔ s.textAfter document samples ≠ s.textOf document := by
  rw [outcome, textAfter]
  cases hpatch : s.patch? document samples with
  | error failure => simp [Except.map]
  | ok new =>
    cases new with
    | none => simp [Except.map]
    | some new =>
      obtain ⟨_, old, -, hold, -, hne⟩ := exists_of_patch? hpatch
      simpa [Except.map, hold] using hne

/-- **Documents with their samples, each of them a file of its own**: not the file of another document, nor that of a
sample. -/
structure Isolates (s : Session) (l : List (Path × List Sample)) : Prop where
  documents : l.Pairwise fun d e => s.Apart d.1 e.1
  files : ∀ d ∈ l, ∀ x ∈ d.2, ∀ path ∈ x.path, ∀ e ∈ l, s.Apart path e.1

namespace Isolates

variable {l order : List (Path × List Sample)} {d : Path × List Sample}

/-- Where there are fewer documents, or in another order. -/
theorem subperm (h : s.Isolates l) (horder : order.Subperm l) : s.Isolates order := by
  have hmem := horder.subset
  refine ⟨?_, fun d hd x hx path hpath e he => h.files d (hmem hd) x hx path hpath e (hmem he)⟩
  obtain ⟨same, hperm, hsublist⟩ := horder
  exact (hperm.pairwise_iff fun {d e} (hde : s.Apart d.1 e.1) => hde.symm).1 (h.documents.sublist hsublist)

theorem tail (h : s.Isolates (d :: l)) : s.Isolates l :=
  h.subperm (List.sublist_cons_self d l).subperm

/-- Every path leads where it led. -/
theorem of_touches (h : s.Isolates l) (htouches : s.Touches places t) : t.Isolates l :=
  ⟨h.documents.imp fun hde => htouches.apart hde,
    fun d hd x hx path hpath e he => htouches.apart (h.files d hd x hx path hpath e he)⟩

/-- **What is done to the first document cannot be seen from the others.** -/
theorem spared (h : s.Isolates (d :: l)) (htouches : s.Touches places t)
    (hplaces : ∀ a, places a → s.leadsTo d.1 = .ok a) {e : Path × List Sample} (he : e ∈ l) :
    t.patch? e.1 e.2 = s.patch? e.1 e.2 ∧ t.textOf e.1 = s.textOf e.1 ∧
      ∀ x ∈ e.2, ∀ path ∈ x.path, t.textOf path = s.textOf path := by
  obtain ⟨hfirst, -⟩ := List.pairwise_cons.1 h.documents
  have hdocument : ∀ a, s.leadsTo e.1 = .ok a → ¬ places a := fun a ha hplace =>
    hfirst e he a (hplaces a hplace) ha
  have hfiles : ∀ x ∈ e.2, ∀ path ∈ x.path, ∀ a, s.leadsTo path = .ok a → ¬ places a :=
    fun x hx path hpath a ha hplace =>
      h.files e (List.mem_cons_of_mem _ he) x hx path hpath d List.mem_cons_self a ha (hplaces a hplace)
  exact ⟨htouches.patch?_eq hfiles hdocument, htouches.textOf_eq hdocument,
    fun x hx path hpath => htouches.textOf_eq (hfiles x hx path hpath)⟩

end Isolates

end Session

namespace Sample

variable {s t : Session} {places : Absolute → Prop} {samples : List Sample} {document : Path}

/-! ## One document -/

/-- **What is done elsewhere in the meantime does not matter**: a document comes to what it would have come to alone,
and nothing else differs than what the others touched. -/
theorem patchDocumentAmid_touches {others : Meanwhile} {result : Except Failure Bool} (hhitch : others.hitch = none)
    (hreading : s.Touches places { s with host := others.reading s.host })
    (hwriting : s.Touches places { s with host := others.writing s.host })
    (hdocument : ∀ a, s.leadsTo document = .ok a → ¬ places a)
    (h : (patchDocumentAmid others document samples).perform s = (result, t)) :
    result = s.outcome document samples ∧
      s.Touches (fun a => places a ∨ result = .ok true ∧ s.leadsTo document = .ok a) t ∧
      t.textOf document = s.textAfter document samples := by
  have hresult : result = s.outcome document samples :=
    (comes_patchDocumentAmid h).quiet hhitch (hreading.textOf_eq hdocument) (hwriting.stamp_eq hdocument)
  refine ⟨hresult, ?_⟩
  rcases patchDocumentAmid_cases h with ⟨hne, hhost⟩ | ⟨rfl, -, changes, stamp, text, hchanges, -, hread, hcase⟩
  · -- the host is that of a session that was there before
    obtain ⟨u, htouches, hhost⟩ : ∃ u, s.Touches places u ∧ t.host = u.host := by
      rcases hhost with hhost | hhost | ⟨-, hhost⟩
      · exact ⟨s, Session.touches_of_host_eq rfl _, hhost⟩
      · exact ⟨_, hreading, hhost⟩
      · exact ⟨_, hwriting, hhost hhitch⟩
    have hsame : ¬ s.textAfter document samples ≠ s.textOf document := fun hdiffers =>
      hne (hresult.trans (Session.outcome_eq_ok_true_iff.2 hdiffers))
    refine ⟨(htouches.trans (Session.touches_of_host_eq hhost _)).mono fun a => .inl, ?_⟩
    rw [not_not.1 hsame, ← htouches.textOf_eq hdocument, Session.textOf, Session.textOf, hhost]
  · obtain ⟨hdiffers, hwrite⟩ := hcase
    obtain ⟨-, a, hfollow, hafter⟩ := Host.write_eq_ok_iff.1 hwrite
    have hsaid := (hreading.textOf_eq hdocument).symm.trans hread
    have hrewrites : ({ s with host := others.writing s.host } : Session).Rewrites document text
        (patchAll text changes) t :=
      ⟨(hwriting.textOf_eq hdocument).trans hsaid, hdiffers, ⟨a, hfollow, by rw [hafter]⟩, by rw [hafter]⟩
    refine ⟨(hwriting.mono fun a => .inl).trans (hrewrites.touches.mono fun b hb => ?_), ?_⟩
    · rw [hwriting.leads] at hb
      exact .inr ⟨rfl, hb⟩
    · obtain ⟨new, hpatch, hnew⟩ := map_eq_ok.1 hresult.symm
      obtain ⟨new, rfl⟩ := Option.isSome_iff_exists.1 hnew
      obtain ⟨_, _, hchanges', hold, rfl, -⟩ := Session.exists_of_patch? hpatch
      obtain rfl := Except.ok.inj (hchanges.symm.trans hchanges')
      obtain rfl := Except.ok.inj (hsaid.symm.trans hold)
      rw [hrewrites.textOf_eq, Session.textAfter, hpatch]

/-- **What comes of patching one document**: whether it is patched, which text it has then, and that everything
elsewhere stands as it stood. -/
theorem patchDocument_touches (document : Path) (samples : List Sample) (s : Session) :
    ((patchDocument document samples).perform s).1 = s.outcome document samples ∧
      s.Touches (fun a => s.outcome document samples = .ok true ∧ s.leadsTo document = .ok a)
        ((patchDocument document samples).perform s).2 ∧
      ((patchDocument document samples).perform s).2.textOf document = s.textAfter document samples := by
  have hnobody : s.Touches (fun _ => False) s := Session.touches_of_host_eq rfl _
  have hnone : ({} : Meanwhile).hitch = none := rfl
  rw [← perform_patchDocumentAmid_idle]
  obtain ⟨hresult, htouches, htext⟩ := patchDocumentAmid_touches hnone hnobody hnobody (fun _ _ => not_false) rfl
  exact ⟨hresult, htouches.mono fun a ha => ha.elim False.elim (hresult ▸ ·), htext⟩

/-! ## Documents one after the other -/

/-- Documents patched one after the other, whatever comes of the ones before: each with what came of it. -/
def attempts : List (Path × List Sample) → Session → List (Path × Except Failure Bool) × Session
  | [], s => ([], s)
  | d :: rest, s =>
    let (result, t) := (patchDocument d.1 d.2).perform s
    let (results, u) := attempts rest t
    ((d.1, result) :: results, u)

variable {l : List (Path × List Sample)}

/-- One document is tried, and then the others. -/
theorem attempts_cons (d : Path × List Sample) (l : List (Path × List Sample)) (s : Session) :
    attempts (d :: l) s =
      ((d.1, s.outcome d.1 d.2) :: (attempts l ((patchDocument d.1 d.2).perform s).2).1,
        (attempts l ((patchDocument d.1 d.2).perform s).2).2) := by
  rw [← (patchDocument_touches d.1 d.2 s).1]
  rfl

/-- **Documents that are files of their own are patched each on its own**, in whatever order and whatever comes of
the others: what comes of each could be seen from the session before, and nothing else differs. -/
theorem attempts_touches (h : s.Isolates l) :
    (attempts l s).1 = l.map (fun d => (d.1, s.outcome d.1 d.2)) ∧
      s.Touches (fun a => ∃ d ∈ l, s.outcome d.1 d.2 = .ok true ∧ s.leadsTo d.1 = .ok a) (attempts l s).2 ∧
      ∀ d ∈ l, (attempts l s).2.textOf d.1 = s.textAfter d.1 d.2 := by
  induction l generalizing s with
  | nil => exact ⟨rfl, Session.touches_of_host_eq rfl _, List.forall_mem_nil _⟩
  | cons d l ih =>
    obtain ⟨-, htouches, htext⟩ := patchDocument_touches d.1 d.2 s
    rw [attempts_cons]
    generalize ((patchDocument d.1 d.2).perform s).2 = u at htouches htext
    obtain ⟨houtcomes, hothers, htexts⟩ := ih (h.tail.of_touches htouches)
    obtain ⟨hfirst, -⟩ := List.pairwise_cons.1 h.documents
    have hspared : ∀ e ∈ l, u.patch? e.1 e.2 = s.patch? e.1 e.2 ∧ u.textOf e.1 = s.textOf e.1 := by
      intro e he
      obtain ⟨hsame, htext, -⟩ := h.spared htouches (fun a ha => ha.2) he
      exact ⟨hsame, htext⟩
    have houtcome : ∀ e ∈ l, u.outcome e.1 e.2 = s.outcome e.1 e.2 := fun e he => by
      rw [Session.outcome, Session.outcome, (hspared e he).1]
    have hkept : (attempts l u).2.textOf d.1 = u.textOf d.1 := by
      refine hothers.textOf_eq fun a ha => ?_
      rintro ⟨e, he, -, hplace⟩
      rw [htouches.leads] at ha hplace
      exact hfirst e he a ha hplace
    refine ⟨?_, ?_, List.forall_mem_cons.2 ⟨hkept.trans htext, fun e he => ?_⟩⟩
    · rw [houtcomes, List.map_cons]
      exact congrArg _ (List.map_congr_left fun e he => by rw [houtcome e he])
    · refine (htouches.mono fun a ha => ⟨d, List.mem_cons_self, ha⟩).trans (hothers.mono ?_)
      rintro a ⟨e, he, hpatched, hplace⟩
      exact ⟨e, List.mem_cons_of_mem _ he, (houtcome e he).symm.trans hpatched, htouches.leads e.1 ▸ hplace⟩
    · rw [htexts e he, Session.textAfter, Session.textAfter, (hspared e he).1, (hspared e he).2]

/-- Documents whose samples' files ask for no change are left alone. -/
theorem attempts_of_holds (h : ∀ d ∈ l, ∀ x ∈ d.2, s.Holds x) :
    attempts l s = (l.map fun d => (d.1, .ok false), s) := by
  induction l with
  | nil => rfl
  | cons d l ih =>
    obtain ⟨hd, hl⟩ := List.forall_mem_cons.1 h
    rw [attempts_cons, perform_patchDocument_of_no_changes (Session.changes_of_holds hd), ih hl,
      Session.outcome_of_holds hd d.1]
    rfl

/-- **A document whose samples' files ask for no change may as well not be there.** -/
theorem attempts_filter (h : s.Isolates l) (hholds : ∀ e ∈ l, e.1 = document → ∀ x ∈ e.2, s.Holds x) :
    attempts (l.filter (·.1 ≠ document)) s =
      ((attempts l s).1.filter (·.1 ≠ document), (attempts l s).2) := by
  induction l generalizing s with
  | nil => rfl
  | cons d l ih =>
    obtain ⟨hfirst, hrest⟩ := List.forall_mem_cons.1 hholds
    by_cases hd : d.1 = document
    · rw [List.filter_cons_of_neg (by simpa using hd), attempts_cons,
        perform_patchDocument_of_no_changes (Session.changes_of_holds (hfirst hd)), ih h.tail hrest,
        List.filter_cons_of_neg (by simpa using hd)]
    · obtain ⟨-, htouches, -⟩ := patchDocument_touches d.1 d.2 s
      rw [List.filter_cons_of_pos (by simpa using hd), attempts_cons, attempts_cons,
        List.filter_cons_of_pos (by simpa using hd)]
      generalize ((patchDocument d.1 d.2).perform s).2 = u at htouches
      rw [ih (h.tail.of_touches htouches)]
      intro e he hdocument x hx path hpath
      obtain ⟨-, -, hfiles⟩ := h.spared htouches (fun a ha => ha.2) he
      rw [hfiles x hx path hpath]
      exact hrest e he hdocument x hx path hpath

end Sample

end Fenceline
