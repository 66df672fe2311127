import Fenceline.Proofs.Run.Touched
import Fenceline.Proofs.Sample.Documents

/-!
# Documents that a pool of workers serves

Samples are patched into their documents by a pool of workers, to which all documents are handed at once. The
workers take them in some order, and what came of them is gathered in the order of the documents up to the first
one that failed; documents behind that one may still be patched, or nobody gets to them (`Sample.Serves`). Patching
documents, which tries them one after the other, is one such serving (`Sample.serves_patchDocuments`).

**The law** (`Sample.patchDocuments_touches`): every serving has the same result, and touches only what changed.

**What it does not establish.** The same for documents that are one file under several paths, or for a sample
whose file is a document: `Sample.patchDocuments_shared`. Nor does it say which documents are patched behind one
that failed.
-/

namespace Fenceline

namespace Sample

open Act

variable {s t : Session} {samples : List Sample} {workers : Int} {document : Path}

/-! ## Documents that are files of their own -/

/-- **Documents that are separate files**, none of which is the file of a sample. -/
structure Separates (s : Session) (samples : List Sample) : Prop where
  documents : ∀ x ∈ stored samples, ∀ y ∈ stored samples, x.file ≠ y.file → s.Apart x.file y.file
  files : ∀ x ∈ stored samples, ∀ path ∈ x.path, ∀ y ∈ stored samples, s.Apart path y.file

instance : Decidable (Separates s samples) :=
  decidable_of_iff ((∀ x ∈ stored samples, ∀ y ∈ stored samples, x.file ≠ y.file → s.Apart x.file y.file) ∧
      ∀ x ∈ stored samples, ∀ path ∈ x.path, ∀ y ∈ stored samples, s.Apart path y.file)
    ⟨fun h => ⟨h.1, h.2⟩, fun h => ⟨h.documents, h.files⟩⟩

theorem holds_of_mem_byDocument (h : ∀ x ∈ stored samples, x.file = document → s.Holds x) :
    ∀ d ∈ byDocument samples, d.1 = document → ∀ x ∈ d.2, s.Holds x := by
  intro d hd hdocument x hx
  obtain ⟨hstored, hfile⟩ := (mem_of_mem_byDocument hd).2 x hx
  exact h x hstored (hfile.trans hdocument)

theorem Separates.isolates (h : Separates s samples) : s.Isolates (byDocument samples) where
  documents := by
    have hdocuments : (Sample.documents samples).Pairwise s.Apart := by
      refine (nodup_eraseDups _).imp_of_mem fun {p q} hp hq hne => ?_
      obtain ⟨x, hx, rfl⟩ := mem_documents_iff.1 hp
      obtain ⟨y, hy, rfl⟩ := mem_documents_iff.1 hq
      exact h.documents x hx y hy hne
    rw [← map_byDocument] at hdocuments
    exact List.pairwise_map.1 hdocuments
  files := by
    intro d hd x hx path hpath e he
    obtain ⟨y, hy, hfile⟩ := mem_documents_iff.1 (mem_of_mem_byDocument he).1
    exact hfile ▸ h.files x ((mem_of_mem_byDocument hd).2 x hx).1 path hpath y hy

/-! ## What came of all documents -/

/-- The documents that were patched, of all that were tried, or the first failure. -/
def gather (outcomes : List (Path × Except Failure Bool)) : Except Failure (List Path) := do
  let patched ← outcomes.mapM fun o => return (o.1, ← o.2)
  return (patched.filter (·.2)).map (·.1)

theorem gather_cons (o : Path × Except Failure Bool) (outcomes : List (Path × Except Failure Bool)) :
    gather (o :: outcomes) = do
      let patched ← o.2
      let more ← gather outcomes
      return if patched then o.1 :: more else more := by
  simp only [gather, List.mapM_cons, bind_assoc, pure_bind]
  refine congrArg _ (funext fun patched => congrArg _ (funext fun rest => ?_))
  cases patched <;> rfl

/-- A document that was not patched is not told of. -/
theorem gather_filter {outcomes : List (Path × Except Failure Bool)}
    (h : ∀ o ∈ outcomes, o.1 = document → o.2 = .ok false) :
    gather (outcomes.filter (·.1 ≠ document)) = gather outcomes := by
  induction outcomes with
  | nil => rfl
  | cons o outcomes ih =>
    obtain ⟨ho, hothers⟩ := List.forall_mem_cons.1 h
    by_cases hdocument : o.1 = document
    · rw [List.filter_cons_of_neg (by simpa using hdocument), ih hothers, gather_cons, ho hdocument]
      cases gather outcomes <;> rfl
    · rw [List.filter_cons_of_pos (by simpa using hdocument), gather_cons, gather_cons, ih hothers]

/-- Patching a document, with its name to what comes of it. -/
def attempt (d : Path × List Sample) : Act (Path × Bool) := do
  return (d.1, ← patchDocument d.1 d.2)

theorem perform_attempt (d : Path × List Sample) (s : Session) :
    (attempt d).perform s =
      (do return (d.1, ← s.outcome d.1 d.2), ((patchDocument d.1 d.2).perform s).2) := by
  rw [attempt, ← (patchDocument_touches d.1 d.2 s).1, perform_bind]
  rcases (patchDocument d.1 d.2).perform s with ⟨_ | _, u⟩ <;> rfl

theorem perform_pooled_attempt (l : List (Path × List Sample)) (s : Session) :
    (pooled attempt l).perform s = ((attempts l s).1.mapM fun o => return (o.1, ← o.2), (attempts l s).2) := by
  induction l generalizing s with
  | nil => rfl
  | cons d l ih =>
    rw [perform_pooled_cons (perform_attempt d s) (ih _), attempts_cons, List.mapM_cons]

/-- **Patching documents is trying all of them**, one after the other. -/
theorem perform_patchDocuments (hworkers : 0 < workers) (samples : List Sample) (s : Session) :
    (patchDocuments samples workers).perform s =
      (gather (attempts (byDocument samples) s).1, (attempts (byDocument samples) s).2) := by
  have hpool : patchDocuments samples workers = do
      let patched ← pooled attempt (byDocument samples)
      return (patched.filter (·.2)).map (·.1) := by
    unfold patchDocuments
    rw [if_neg (by omega)]
    rfl
  rw [hpool, perform_bind, perform_pooled_attempt, gather]
  cases (attempts (byDocument samples) s).1.mapM fun o => return (o.1, ← o.2) <;> rfl

theorem perform_patchDocuments_of_no_workers (hworkers : workers ≤ 0) (samples : List Sample) (s : Session) :
    (patchDocuments samples workers).perform s = (.error .noWorkers, s) := by
  unfold patchDocuments
  rw [if_pos hworkers]
  rfl

/-- **A document may be left out** if its samples' files say what the samples say. -/
theorem perform_patchDocuments_filter (h : Separates s samples) (workers : Int)
    (hholds : ∀ x ∈ stored samples, x.file = document → s.Holds x) :
    (patchDocuments samples workers).perform s =
      (patchDocuments (samples.filter (·.file ≠ document)) workers).perform s := by
  by_cases hworkers : 0 < workers
  swap
  · rw [perform_patchDocuments_of_no_workers (by omega), perform_patchDocuments_of_no_workers (by omega)]
  have hall := holds_of_mem_byDocument hholds
  rw [perform_patchDocuments hworkers, perform_patchDocuments hworkers, byDocument_filter,
    attempts_filter h.isolates hall, gather_filter]
  rw [(attempts_touches h.isolates).1]
  rintro o ho hdocument
  obtain ⟨d, hd, rfl⟩ := List.mem_map.1 ho
  exact Session.outcome_of_holds (hall d hd hdocument) d.1

/-! ## What came of the documents that somebody got to -/

/-- **What is gathered of the outcomes**, in the order of the documents: they have all been served, up to the first
one that failed. -/
inductive Gathered (outcomes : List (Path × Except Failure Bool)) :
    List Path → Except Failure (List Path) → Prop
  | nil : Gathered outcomes [] (.ok [])
  | failed {d : Path} {rest : List Path} {failure : Failure} (hd : (d, .error failure) ∈ outcomes) :
    Gathered outcomes (d :: rest) (.error failure)
  | served {d : Path} {rest : List Path} {patched : Bool} {result : Except Failure (List Path)}
    (hd : (d, .ok patched) ∈ outcomes) (hrest : Gathered outcomes rest result) :
    Gathered outcomes (d :: rest) (result.map fun more => if patched then d :: more else more)

namespace Gathered

variable {outcomes : List (Path × Except Failure Bool)} {all : List Path} {result : Except Failure (List Path)}

/-- What all documents came to is gathered. -/
theorem of_subset {l : List (Path × Except Failure Bool)} (h : l ⊆ outcomes) :
    Gathered outcomes (l.map (·.1)) (gather l) := by
  induction l with
  | nil => exact .nil
  | cons o l ih =>
    obtain ⟨document, outcome⟩ := o
    obtain ⟨ho, hl⟩ := List.cons_subset.1 h
    rw [gather_cons]
    cases outcome with
    | error failure => exact .failed ho
    | ok patched =>
      have hserved := Gathered.served ho (ih hl)
      cases hgather : gather l <;> rw [hgather] at hserved <;> exact hserved

/-- **Nothing else can be gathered** than what each document came to. -/
theorem eq_gather {l : List (Path × List Sample)} {f : Path × List Sample → Except Failure Bool}
    (h : ∀ d ∈ l, ∀ r, (d.1, r) ∈ outcomes → r = f d) (hgathered : Gathered outcomes (l.map (·.1)) result) :
    result = gather (l.map fun d => (d.1, f d)) := by
  induction l generalizing result with
  | nil =>
    cases hgathered
    rfl
  | cons d l ih =>
    obtain ⟨hd, hl⟩ := List.forall_mem_cons.1 h
    rw [List.map_cons, gather_cons]
    cases hgathered with
    | failed hfailed =>
      rw [← hd _ hfailed]
      rfl
    | served hserved hrest =>
      rw [← hd _ hserved, ← ih hl hrest]
      rename_i result _
      cases result <;> rfl

/-- The documents that are told of are those that were patched. -/
theorem eq_filter {patched : List Path} {p : Path → Bool} (hp : ∀ d b, (d, .ok b) ∈ outcomes → b = p d)
    (hgathered : Gathered outcomes all (.ok patched)) : patched = all.filter p := by
  generalize hresult : (.ok patched : Except Failure (List Path)) = result at hgathered
  induction hgathered generalizing patched with
  | nil => exact Except.ok.inj hresult
  | failed hd => cases hresult
  | served hd hrest ih =>
    obtain ⟨more, rfl, rfl⟩ := map_eq_ok.1 hresult.symm
    rw [ih rfl, List.filter_cons, hp _ _ hd]

/-- The failure that is told is that of a document. -/
theorem exists_failed {failure : Failure} (hgathered : Gathered outcomes all (.error failure)) :
    ∃ d ∈ all, (d, .error failure) ∈ outcomes := by
  generalize hresult : (.error failure : Except Failure (List Path)) = result at hgathered
  induction hgathered with
  | nil => cases hresult
  | failed hd =>
    cases hresult
    exact ⟨_, List.mem_cons_self, hd⟩
  | @served d rest patched result hd hrest ih =>
    cases result with
    | error other =>
      cases hresult
      obtain ⟨e, he, hfailed⟩ := ih rfl
      exact ⟨e, List.mem_cons_of_mem _ he, hfailed⟩
    | ok more => cases hresult

/-- A document that was not patched makes no difference. -/
theorem filter (h : ∀ r, (document, r) ∈ outcomes → r = .ok false) (hgathered : Gathered outcomes all result) :
    Gathered (outcomes.filter (·.1 ≠ document)) (all.filter (· ≠ document)) result := by
  induction hgathered with
  | nil => exact .nil
  | @failed d rest failure hd =>
    have hne : d ≠ document := by
      rintro rfl
      cases h _ hd
    rw [List.filter_cons_of_pos (by simpa using hne)]
    exact .failed (List.mem_filter.2 ⟨hd, by simpa using hne⟩)
  | @served d rest patched result hd hrest ih =>
    by_cases hdocument : d = document
    · subst hdocument
      obtain rfl : patched = false := Except.ok.inj (h _ hd)
      rw [List.filter_cons_of_neg (by simp)]
      cases result <;> exact ih
    · rw [List.filter_cons_of_pos (by simpa using hdocument)]
      exact .served (List.mem_filter.2 ⟨hd, by simpa using hdocument⟩) ih

end Gathered

/-- **A serving of documents**: what came of those that workers got to, what is told of them, and the session
afterwards. -/
structure Serves (s : Session) (samples : List Sample) (outcomes : List (Path × Except Failure Bool))
    (result : Except Failure (List Path)) (t : Session) : Prop where
  /-- Workers got to documents in some order, and patched each of them, or failed to, or found nothing to do. -/
  taken : ∃ order, order.Subperm (byDocument samples) ∧ attempts order s = (outcomes, t)
  /-- What came of them was gathered in the order of the documents. -/
  gathered : Gathered outcomes (documents samples) result

/-- **Patching documents is a serving of them.** -/
theorem serves_patchDocuments (hworkers : 0 < workers) (h : Separates s samples) :
    Serves s samples (attempts (byDocument samples) s).1 ((patchDocuments samples workers).perform s).1
      ((patchDocuments samples workers).perform s).2 where
  taken := ⟨byDocument samples, List.Subperm.refl _, by rw [perform_patchDocuments hworkers]⟩
  gathered := by
    have hnames : (attempts (byDocument samples) s).1.map (·.1) = documents samples := by
      rw [(attempts_touches h.isolates).1, List.map_map, ← map_byDocument]
      rfl
    rw [perform_patchDocuments hworkers, ← hnames]
    exact .of_subset (List.Subset.refl _)

namespace Serves

variable {outcomes : List (Path × Except Failure Bool)} {result : Except Failure (List Path)}
variable (hserves : Serves s samples outcomes result t) (h : Separates s samples)

include hserves h

/-- Each document that somebody got to came to what could be seen from the session before. -/
theorem exists_of_mem {r : Except Failure Bool} (hmem : (document, r) ∈ outcomes) :
    ∃ d ∈ byDocument samples, d.1 = document ∧ r = s.outcome d.1 d.2 ∧ t.textOf d.1 = s.textAfter d.1 d.2 := by
  obtain ⟨order, horder, hattempts⟩ := hserves.taken
  obtain ⟨houtcomes, -, htexts⟩ := attempts_touches (h.isolates.subperm horder)
  rw [hattempts] at houtcomes htexts
  dsimp only at houtcomes
  rw [houtcomes] at hmem
  obtain ⟨d, hd, heq⟩ := List.mem_map.1 hmem
  obtain ⟨rfl, rfl⟩ := Prod.mk.inj heq
  exact ⟨d, horder.subset hd, rfl, rfl, htexts d hd⟩

/-- **A document that was served changed just if it was patched.** -/
theorem eq_of_mem {patched : Bool} (hmem : (document, .ok patched) ∈ outcomes) :
    patched = decide (t.textOf document ≠ s.textOf document) := by
  obtain ⟨d, -, rfl, houtcome, htext⟩ := hserves.exists_of_mem h hmem
  rw [Bool.eq_iff_iff, decide_eq_true_iff, htext, ← Session.outcome_eq_ok_true_iff, ← houtcome]
  simp

/-- **A document that failed is left as it was.** -/
theorem textOf_of_mem_error {failure : Failure} (hmem : (document, .error failure) ∈ outcomes) :
    t.textOf document = s.textOf document := by
  obtain ⟨d, -, rfl, houtcome, htext⟩ := hserves.exists_of_mem h hmem
  rw [htext]
  by_contra hne
  cases houtcome.trans (Session.outcome_eq_ok_true_iff.2 hne)

/-- **Nothing else differs** than the documents whose texts changed. -/
theorem touches :
    s.Touches (fun a => ∃ d ∈ documents samples, t.textOf d ≠ s.textOf d ∧ s.leadsTo d = .ok a) t := by
  obtain ⟨order, horder, hattempts⟩ := hserves.taken
  obtain ⟨-, htouches, htexts⟩ := attempts_touches (h.isolates.subperm horder)
  rw [hattempts] at htouches htexts
  refine htouches.mono ?_
  rintro a ⟨d, hd, hpatched, hplace⟩
  refine ⟨d.1, (mem_of_mem_byDocument (horder.subset hd)).1, ?_, hplace⟩
  rw [htexts d hd]
  exact Session.outcome_eq_ok_true_iff.1 hpatched

/-- **The files of the samples are left as they are.** -/
theorem textOf_sample {x : Sample} (hx : x ∈ stored samples) {path : Path} (hpath : path ∈ x.path) :
    t.textOf path = s.textOf path := by
  refine (hserves.touches h).textOf_eq fun a ha => ?_
  rintro ⟨d, hd, -, hplace⟩
  obtain ⟨y, hy, rfl⟩ := mem_documents_iff.1 hd
  exact h.files x hx path hpath y hy a ha hplace

/-- **Every serving has the same result.** -/
theorem eq_result : result = gather ((byDocument samples).map fun d => (d.1, s.outcome d.1 d.2)) := by
  have hgathered := hserves.gathered
  rw [← map_byDocument] at hgathered
  refine Gathered.eq_gather (f := fun d => s.outcome d.1 d.2) (fun d hd r hmem => ?_) hgathered
  obtain ⟨e, he, heq, rfl, -⟩ := hserves.exists_of_mem h hmem
  rw [eq_of_mem_byDocument he hd heq]

/-- **A document may be left out** of a serving if its samples' files say what the samples say. -/
theorem filter (hholds : ∀ x ∈ stored samples, x.file = document → s.Holds x) :
    Serves s (samples.filter (·.file ≠ document)) (outcomes.filter (·.1 ≠ document)) result t := by
  have hall := holds_of_mem_byDocument hholds
  constructor
  · obtain ⟨order, horder, hattempts⟩ := hserves.taken
    refine ⟨order.filter (·.1 ≠ document), ?_, ?_⟩
    · rw [byDocument_filter]
      exact horder.filter _
    · rw [attempts_filter (h.isolates.subperm horder) fun d hd => hall d (horder.subset hd), hattempts]
  · have hfalse : ∀ r, (document, r) ∈ outcomes → r = .ok false := by
      intro r hmem
      obtain ⟨d, hd, hdocument, rfl, -⟩ := hserves.exists_of_mem h hmem
      exact Session.outcome_of_holds (hall d hd hdocument) d.1
    rw [documents_filter]
    exact hserves.gathered.filter hfalse

end Serves

/-- **What a serving of documents leaves.** -/
structure Leaves (s : Session) (samples : List Sample) (outcomes : List (Path × Except Failure Bool))
    (result : Except Failure (List Path)) (t : Session) : Prop where
  /-- The documents that are given back are those whose texts changed, in the order of their first samples. -/
  patched : ∀ patched, result = .ok patched →
    patched = (documents samples).filter (fun d => t.textOf d ≠ s.textOf d)
  /-- Everything at another place stands as it stood, also if documents failed. -/
  touches : s.Touches (fun a => ∃ d ∈ documents samples, t.textOf d ≠ s.textOf d ∧ s.leadsTo d = .ok a) t
  files : ∀ x ∈ stored samples, ∀ path ∈ x.path, t.textOf path = s.textOf path
  /-- A document that failed is left as it was. -/
  failed : ∀ document failure, (document, .error failure) ∈ outcomes → t.textOf document = s.textOf document
  /-- The failure that is told is that of a document. -/
  told : ∀ failure, result = .error failure → ∃ d ∈ documents samples, (d, .error failure) ∈ outcomes

theorem Serves.leaves {outcomes : List (Path × Except Failure Bool)} {result : Except Failure (List Path)}
    (hserves : Serves s samples outcomes result t) (h : Separates s samples) :
    Leaves s samples outcomes result t where
  patched := by
    rintro patched rfl
    exact hserves.gathered.eq_filter fun d b hmem => hserves.eq_of_mem h hmem
  touches := hserves.touches h
  files := fun x hx path hpath => hserves.textOf_sample h hx hpath
  failed := fun document failure hmem => hserves.textOf_of_mem_error h hmem
  told := by
    rintro failure rfl
    exact hserves.gathered.exists_failed

/-- **If nothing is to be done, nothing is.** -/
theorem Serves.eq_of_holds {outcomes : List (Path × Except Failure Bool)} {result : Except Failure (List Path)}
    (hserves : Serves s samples outcomes result t) (h : Separates s samples)
    (hholds : ∀ x ∈ stored samples, s.Holds x) : result = .ok [] ∧ t = s := by
  obtain ⟨order, horder, hattempts⟩ := hserves.taken
  rw [attempts_of_holds fun d hd x hx => hholds x ((mem_of_mem_byDocument (horder.subset hd)).2 x hx).1] at hattempts
  obtain ⟨rfl, rfl⟩ := Prod.mk.inj hattempts
  refine ⟨?_, rfl⟩
  cases result with
  | ok patched => simp [(hserves.leaves h).patched patched rfl]
  | error failure =>
    obtain ⟨d, -, hmem⟩ := (hserves.leaves h).told failure rfl
    simp at hmem

/-- **Patching touches only what changed**, where documents are separate files.

Whatever order the workers take the documents in, and whichever they get to behind one that failed, the result is
the same: the documents whose texts changed, or the failure of one whose text is left as it was. Everything at
another place stands as it stood, the files of the samples too. A document whose samples' files say what the samples
say may as well not be there, whatever stands where its path leads; and if this goes for every document, nothing
happens at all. What others do elsewhere while a document is patched does not matter to it; one that they have
changed since it was looked at is not written, nor is one that the system refuses to write: then everything stands as
the others left it. -/
theorem patchDocuments_touches (h : Separates s samples) (workers : Int) :
    (workers ≤ 0 → (patchDocuments samples workers).perform s = (.error .noWorkers, s)) ∧
    (0 < workers → ∃ outcomes, Serves s samples outcomes ((patchDocuments samples workers).perform s).1
      ((patchDocuments samples workers).perform s).2) ∧
    (∀ outcomes result t, Serves s samples outcomes result t →
      Leaves s samples outcomes result t ∧
        (0 < workers → result = ((patchDocuments samples workers).perform s).1) ∧
        (∀ document, (∀ x ∈ stored samples, x.file = document → s.Holds x) →
          Serves s (samples.filter (·.file ≠ document)) (outcomes.filter (·.1 ≠ document)) result t) ∧
        ((∀ x ∈ stored samples, s.Holds x) → result = .ok [] ∧ t = s)) ∧
    (∀ document, (∀ x ∈ stored samples, x.file = document → s.Holds x) →
      (patchDocuments samples workers).perform s =
        (patchDocuments (samples.filter (·.file ≠ document)) workers).perform s) ∧
    ∀ others document own u result t, (patchDocumentAmid others document own).perform u = (result, t) →
      others.Comes document own u result t ∧
        (others.hitch = none →
          u.Touches (fun a => u.leadsTo document ≠ .ok a) { u with host := others.reading u.host } →
          u.Touches (fun a => u.leadsTo document ≠ .ok a) { u with host := others.writing u.host } →
          result = u.outcome document own ∧ t.textOf document = u.textAfter document own) := by
  refine ⟨fun hworkers => perform_patchDocuments_of_no_workers hworkers samples s,
    fun hworkers => ⟨_, serves_patchDocuments hworkers h⟩, fun outcomes result t hserves => ?_,
    fun document => perform_patchDocuments_filter h workers,
    fun others document own u result t hperform => ⟨comes_patchDocumentAmid hperform, ?_⟩⟩
  · refine ⟨hserves.leaves h, fun hworkers => ?_, fun document => hserves.filter h, hserves.eq_of_holds h⟩
    exact (hserves.eq_result h).trans ((serves_patchDocuments hworkers h).eq_result h).symm
  · intro hhitch hreading hwriting
    obtain ⟨hresult, -, htext⟩ :=
      patchDocumentAmid_touches hhitch hreading hwriting (fun a ha hne => hne ha) hperform
    exact ⟨hresult, htext⟩

/-- A session in the directory `/p` with files in it. -/
def sessionWith (files : List (Text × Bytes)) : Session where
  host :=
    { tree := files.foldl (fun t file => t.put ((Path.ofText file.1).resolve ["p".toList]) file.2) {}
      cwd := ["p".toList]
      temporary := ["tmp".toList] }

/-- A sample of one line at the beginning of a document of `/p`, with its file. -/
def lineSample (document : Path) (line file : Text) : Sample :=
  ⟨document, 1, 1, 1, [], some "ts".toList, line ++ ['\n'], some (.ofAbsolute ["p".toList, file])⟩

/-- Three documents: the first is patched, the second is not text and its sample has not changed, and the third does
not have its sample. If the file of that sample is missing, the first is patched all the same when it comes last, but
nobody has to get to it. -/
theorem patchDocuments_touches_three :
    let document (name : Text) : Path := .ofAbsolute ["p".toList, name]
    let files : List (Text × Bytes) :=
      [("a.md".toList, Utf8.encode "```ts\na\n```\n".toList), ("a.ts".toList, Utf8.encode "b\n".toList),
        ("b.md".toList, [0xFF]), ("b.ts".toList, Utf8.encode "b\n".toList), ("c.md".toList, [])]
    let s := sessionWith (("c.ts".toList, Utf8.encode "d\n".toList) :: files)
    let lost := sessionWith files
    let first := lineSample (document "a.md".toList) "a".toList "a.ts".toList
    let second := lineSample (document "b.md".toList) "b".toList "b.ts".toList
    let third := lineSample (document "c.md".toList) "c".toList "c.ts".toList
    let failure := Failure.inaccessible (document "c.ts".toList) .noEntry
    (Separates s [first, second, third] ∧ s.textOf (document "b.md".toList) = .error .malformedText ∧
      ∃ t, (patchDocuments [first, second, third] 1).perform s = (.ok [document "a.md".toList], t) ∧
        [document "a.md".toList] =
          (documents [first, second, third]).filter (fun d => t.textOf d ≠ s.textOf d) ∧
        (patchDocuments [first, third] 1).perform s = (.ok [document "a.md".toList], t)) ∧
      Separates lost [third, first] ∧
        (∃ outcomes t, (patchDocuments [third, first] 1).perform lost = (.error failure, t) ∧
          Leaves lost [third, first] outcomes (.error failure) t ∧
          t.textOf (document "a.md".toList) ≠ lost.textOf (document "a.md".toList)) ∧
        ∃ t, Leaves lost [third, first] [(document "c.md".toList, .error failure)] (.error failure) t ∧
          t.textOf (document "a.md".toList) = lost.textOf (document "a.md".toList) := by
  intro document files s lost first second third failure
  refine ⟨?_, ?_⟩
  · have hseparates : Separates s [first, second, third] := by decide +kernel
    have hresult : ((patchDocuments [first, second, third] 1).perform s).1 = .ok [document "a.md".toList] := by
      decide +kernel
    have hholds : ∀ x ∈ stored [first, second, third], x.file = document "b.md".toList → s.Holds x := by
      decide +kernel
    have hothers : [first, second, third].filter (·.file ≠ document "b.md".toList) = [first, third] := by
      decide +kernel
    have hperform : (patchDocuments [first, second, third] 1).perform s =
        (.ok [document "a.md".toList], ((patchDocuments [first, second, third] 1).perform s).2) := by rw [← hresult]
    obtain ⟨-, hserves, hleaves, hleft, -⟩ := patchDocuments_touches hseparates 1
    obtain ⟨outcomes, hserves⟩ := hserves (by decide)
    have hfiltered := hleft _ hholds
    rw [hothers] at hfiltered
    exact ⟨hseparates, by decide +kernel, _, hperform, (hleaves _ _ _ hserves).1.patched _ hresult,
      hfiltered.symm.trans hperform⟩
  · have hseparates : Separates lost [third, first] := by decide +kernel
    have hresult : ((patchDocuments [third, first] 1).perform lost).1 = .error failure := by decide +kernel
    have hperform : (patchDocuments [third, first] 1).perform lost =
        (.error failure, ((patchDocuments [third, first] 1).perform lost).2) := by rw [← hresult]
    have hdiffers : ((patchDocuments [third, first] 1).perform lost).2.textOf (document "a.md".toList) ≠
        lost.textOf (document "a.md".toList) := by decide +kernel
    obtain ⟨-, hserves, hleaves, -⟩ := patchDocuments_touches hseparates 1
    obtain ⟨outcomes, hserves⟩ := hserves (by decide)
    rw [hresult] at hserves
    refine ⟨hseparates, ⟨outcomes, _, hperform, (hleaves _ _ _ hserves).1, hdiffers⟩, ?_⟩
    -- a worker gets to the document that fails, and none to the other one
    have hboth : byDocument [third, first] =
        [(document "c.md".toList, [third]), (document "a.md".toList, [first])] := by decide +kernel
    have hnames : documents [third, first] = [document "c.md".toList, document "a.md".toList] := by decide +kernel
    have hone : (attempts [(document "c.md".toList, [third])] lost).1 =
        [(document "c.md".toList, .error failure)] := by decide +kernel
    have hsame : (attempts [(document "c.md".toList, [third])] lost).2.textOf (document "a.md".toList) =
        lost.textOf (document "a.md".toList) := by decide +kernel
    have halone : Serves lost [third, first] [(document "c.md".toList, .error failure)] (.error failure)
        (attempts [(document "c.md".toList, [third])] lost).2 := by
      refine ⟨⟨[(document "c.md".toList, [third])], ?_, ?_⟩, ?_⟩
      · rw [hboth]
        exact (List.sublist_append_left [_] [_]).subperm
      · rw [← hone]
      · rw [hnames]
        exact .failed List.mem_cons_self
    exact ⟨_, (hleaves _ _ _ halone).1, hsame⟩

/-- Documents that are not separate files. Under a second path a document changes that is not given back, and
one that fails for its sample's file changes all the same; and a document is patched although its sample's file
said what the sample says, since this file is a document that was patched before. And a pool without workers fails,
also if nothing is to be done. -/
theorem patchDocuments_shared :
    let document (name : Text) : Path := .ofAbsolute ["p".toList, name]
    let again : Path := ⟨.slash, ["p".toList, "x".toList, "..".toList, "a.md".toList]⟩
    let block (inside : Text) : Text := "```ts\n".toList ++ inside ++ "\n```".toList
    let files : List (Text × Bytes) :=
      [("a.md".toList, Utf8.encode (block "a".toList)), ("a.ts".toList, Utf8.encode "b\n".toList),
        ("x/y".toList, []), ("d.md".toList, Utf8.encode (block (block "a".toList)))]
    let s := sessionWith (("c.ts".toList, Utf8.encode "a\n".toList) :: files)
    let lost := sessionWith files
    let first := lineSample (document "a.md".toList) "a".toList "a.ts".toList
    let second := lineSample again "a".toList "c.ts".toList
    let third : Sample := { lineSample (document "d.md".toList) [] "a.md".toList with content := block "a".toList }
    (again ∈ documents [first, second] ∧
        ((patchDocuments [first, second] 1).perform s).1 = .ok [document "a.md".toList] ∧
        ((patchDocuments [first, second] 1).perform s).2.textOf again ≠ s.textOf again) ∧
      (byDocument [first, second] = [(document "a.md".toList, [first]), (again, [second])] ∧
        ((patchDocuments [first, second] 1).perform lost).1 =
          .error (.inaccessible (document "c.ts".toList) .noEntry) ∧
        ((patchDocuments [first, second] 1).perform lost).2.textOf again ≠ lost.textOf again) ∧
      s.Holds third ∧
        ((patchDocuments [first, third] 1).perform s).1 =
          .ok [document "a.md".toList, document "d.md".toList] ∧
        ((patchDocuments [first, third] 1).perform s).2.textOf (document "d.md".toList) ≠
          s.textOf (document "d.md".toList) ∧
        ((patchDocuments [third] 0).perform s).1 = .error .noWorkers := by
  intro document again block files s lost first second third
  refine ⟨⟨?_, ?_, ?_⟩, ⟨?_, ?_, ?_⟩, ?_, ?_, ?_, ?_⟩ <;> decide +kernel

end Sample

end Fenceline
