import Fenceline.Proofs.Files.Placed
import Fenceline.Proofs.Keyed
import Fenceline.Proofs.Location.Character
import Fenceline.Proofs.Run.Prepared
import Fenceline.Proofs.Sample.Order

/-!
# Extraction stores each sample once

Extraction goes through the documents, and in each through the samples that are wanted; every step stores one
sample under a name that was free (`Written`), so what was stored before stays as it is, and what is read
later reads as it did at the beginning. The steps add up (`Written.append`, `written_mapM`).

Within a document the samples stand one below the other, so a sample's document and the line of its opening
fence tell which one it is (`nodup_origins`).

**The law** (`perform_extract`): extraction has one entry for each wanted sample of the documents that are
there, in their order, with a file of its own that holds the sample's content; and a resolver that knows the
entries finds each of them by its document and line.
-/

namespace Fenceline

namespace Session.Grows

variable {s t u : Session}

theorem trans (h : s.Grows t) (h' : t.Grows u) : s.Grows u :=
  ⟨h'.launches.trans h.launches, h'.cwd.trans h.cwd, h'.environment.trans h.environment,
    fun a node ha => h'.stays a node (h.stays a node ha)⟩

/-- A directory that stands goes on standing. -/
theorem stands (h : s.Grows t) {directory : Absolute} (hstands : s.host.tree.Stands directory) :
    t.host.tree.Stands directory :=
  fun a ha => h.stays a _ (hstands a ha)

end Session.Grows

namespace Sample

open Act

variable {directory : Absolute} {s t u : Session} {languages : List Text}

/-! ## The samples of several documents -/

/-- The samples of a document that may be missing. -/
def foundIn (contents : Path → Option Text) (document : Path) : List Sample :=
  match contents document with
  | some text => findAll text document
  | none => []

/-- The samples among these whose language is wanted, each with the extension of its file. -/
def wanted (languages : List Text) (samples : List Sample) : List (Sample × Text) :=
  samples.filterMap fun x => (x.extension? languages).map (x, ·)

/-- What tells where a sample stands. -/
def origin (x : Sample) : Path × Int :=
  (x.file, x.startLine)

/-- The wanted samples are some of all, in their order. -/
theorem map_wanted_sublist (languages : List Text) (samples : List Sample) :
    ((wanted languages samples).map (·.1)).Sublist samples := by
  have hmap : (wanted languages samples).map (·.1) =
      samples.filterMap (Option.guard fun x => (x.extension? languages).isSome) := by
    rw [wanted, List.map_filterMap]
    refine List.filterMap_congr fun x _ => ?_
    cases h : x.extension? languages with
    | none => simp [Option.guard, h]
    | some extension => simp [Option.guard, h]
  rw [hmap, List.filterMap_eq_filter]
  exact List.filter_sublist

theorem wanted_flatMap (languages : List Text) (contents : Path → Option Text) (documents : List Path) :
    wanted languages (documents.flatMap (foundIn contents)) =
      documents.flatMap fun document => wanted languages (foundIn contents document) :=
  List.filterMap_flatMap

/-- **The lines of a document's samples**: they are lines of the document, counted from one, and those of
each sample stand above those of the next. -/
structure InLines (text : Text) (samples : List Sample) : Prop where
  first : ∀ x ∈ samples, 1 ≤ x.startLine
  last : ∀ x ∈ samples, x.endLine = x.startLine + x.lineCount + 1 ∧ x.endLine ≤ text.documentLines.length
  count : ∀ x ∈ samples, x.lineCount = x.content.count '\n'
  apart : samples.Pairwise fun x y => x.endLine < y.startLine

/-- The lines of a text are as many as its line feeds. -/
theorem count_unlines {lines : List Text} (h : ∀ l ∈ lines, '\n' ∉ l) :
    (Text.unlines lines).count '\n' = lines.length := by
  induction lines with
  | nil => rfl
  | cons l lines ih =>
    obtain ⟨hl, hlines⟩ := List.forall_mem_cons.1 h
    rw [Text.unlines, List.flatMap_cons, List.count_append, List.count_append,
      List.count_eq_zero_of_not_mem hl, ← Text.unlines, ih hlines, List.length_cons]
    simp [Nat.add_comm]

/-- **The samples of a document stand in its lines.** -/
theorem inLines_findAll (text : Text) (document : Path) : InLines text (findAll text document) := by
  have hstart : Scan.At text.documentLines .outside 0 text.documentLines := ⟨0, rfl, rfl⟩
  refine ⟨?_, ?_, ?_, (pairwise_scan hstart).1⟩
  · intro x hx
    exact (pairwise_scan hstart).2 x hx
  · intro x hx
    obtain ⟨n, fence, lines, hblock, rfl⟩ := isBlock_of_mem_findAll hx
    have hlast := hblock.end_lt
    refine ⟨rfl, ?_⟩
    simp only [endLine, ofBlock]
    omega
  · intro x hx
    obtain ⟨n, fence, lines, hblock, rfl⟩ := isBlock_of_mem_findAll hx
    rw [content_ofBlock, count_unlines, List.length_map]
    · rfl
    · intro piece hpiece
      obtain ⟨l, hl, rfl⟩ := List.mem_map.1 hpiece
      exact fun hmem => newline_not_mem_of_isBlock hblock hl (List.mem_of_mem_drop hmem)

/-- Samples of one document that stand one below the other begin in different lines. -/
theorem InLines.startLine_lt {text : Text} {samples : List Sample} (h : InLines text samples) :
    samples.Pairwise fun x y => x.startLine < y.startLine := by
  refine h.apart.imp_of_mem fun {x y} hx _ hxy => ?_
  have hend := (h.last x hx).1
  have hcount := h.count x hx
  omega

/-- **A sample is told by its document and line**, among all samples of distinct documents. -/
theorem nodup_origins {documents : List Path} (hdistinct : documents.Nodup)
    (contents : Path → Option Text) :
    ((documents.flatMap (foundIn contents)).map origin).Nodup := by
  have hfile : ∀ document, ∀ x ∈ foundIn contents document, x.file = document := by
    intro document x hx
    rw [foundIn] at hx
    split at hx
    · exact file_of_mem_findAll hx
    · cases hx
  rw [List.map_flatMap, List.nodup_flatMap]
  constructor
  · intro document _
    rw [foundIn]
    split
    · refine List.pairwise_map.2 ((inLines_findAll _ document).startLine_lt.imp fun hlt heq => ?_)
      exact absurd (congrArg Prod.snd heq) (Int.ne_of_lt hlt)
    · exact List.nodup_nil
  · refine hdistinct.imp fun {a b} hne => ?_
    intro key hkey hkey'
    obtain ⟨x, hx, rfl⟩ := List.mem_map.1 hkey
    obtain ⟨y, hy, heq⟩ := List.mem_map.1 hkey'
    refine hne ?_
    rw [← hfile a x hx, ← hfile b y hy]
    exact (congrArg Prod.fst heq).symm

/-! ## What was stored -/

/-- **An entry of extraction**: the sample with a file in the directory, whose name ends in the mark of the
sample's lines and the extension and which holds the sample's content. -/
def IsEntry (directory : Absolute) (tree : FileTree) (w : Sample × Text) (x : Sample) : Prop :=
  ∃ label file, let place := directory ++ [label ++ w.1.fileEnding w.2]
    x = { w.1 with path := some (.ofAbsolute place) } ∧ tree.node? place = some (.file file) ∧
      file.bytes = Utf8.encode w.1.content

/-- **What a session has after samples were stored**: it has grown by files of the directory, one for each
sample, which were not there before. -/
structure Written (directory : Absolute) (s t : Session) (wanted : List (Sample × Text))
    (stored : List Sample) : Prop where
  grows : s.Grows t
  elsewhere : ∀ a, (∀ name, a ≠ directory ++ [name]) → t.host.tree.node? a = s.host.tree.node? a
  entries : List.Forall₂ (IsEntry directory t.host.tree) wanted stored
  fresh : ∀ x ∈ stored, ∀ a, x.path = some (.ofAbsolute a) → s.host.tree.node? a = none
  distinct : (stored.map (·.path)).Nodup

theorem Written.refl (s : Session) : Written directory s s [] [] :=
  ⟨.refl s, fun _ _ => rfl, .nil, List.forall_mem_nil _, List.nodup_nil⟩

/-- The file of an entry stands. -/
theorem Written.exists_file {w : List (Sample × Text)} {stored : List Sample}
    (h : Written directory s t w stored) {x : Sample} (hx : x ∈ stored) :
    ∃ a file, x.path = some (.ofAbsolute a) ∧ t.host.tree.node? a = some (.file file) := by
  obtain ⟨i, hi, rfl⟩ := List.mem_iff_getElem.1 hx
  obtain ⟨label, file, hentry, hfile, _⟩ := h.entries.get (h.entries.length_eq ▸ hi) hi
  exact ⟨_, file, congrArg Sample.path hentry, hfile⟩

/-- **What is stored in two steps** is stored. -/
theorem Written.append {w w' : List (Sample × Text)} {stored stored' : List Sample}
    (h : Written directory s t w stored) (h' : Written directory t u w' stored') :
    Written directory s u (w ++ w') (stored ++ stored') := by
  refine ⟨h.grows.trans h'.grows, ?_, ?_, ?_, ?_⟩
  · intro a ha
    rw [h'.elsewhere a ha, h.elsewhere a ha]
  · refine List.rel_append (h.entries.imp ?_) h'.entries
    rintro w x ⟨label, file, hx, hnode, hbytes⟩
    exact ⟨label, file, hx, h'.grows.stays _ _ hnode, hbytes⟩
  · intro x hx a hpath
    rcases List.mem_append.1 hx with hx | hx
    · exact h.fresh x hx a hpath
    · cases hnode : s.host.tree.node? a with
      | none => rfl
      | some node =>
        have hstood := h.grows.stays a node hnode
        rw [h'.fresh x hx a hpath] at hstood
        cases hstood
  · rw [List.map_append, List.nodup_append]
    refine ⟨h.distinct, h'.distinct, ?_⟩
    -- a file of the first step stands where those of the second one were not
    intro path hpath other hother heq
    obtain ⟨x, hx, rfl⟩ := List.mem_map.1 hpath
    obtain ⟨y, hy, rfl⟩ := List.mem_map.1 hother
    obtain ⟨a, file, hplace, hnode⟩ := h.exists_file hx
    rw [h'.fresh y hy a (heq ▸ hplace)] at hnode
    cases hnode

/-- **Storing a sample.** -/
theorem written_store (hstands : s.host.tree.Stands directory) (w : Sample × Text) :
    ∃ x t, (store directory w.1 w.2).perform s = (.ok x, t) ∧ Written directory s t [w] [x] := by
  let label := Host.fileLabel ++ Text.ofNat (s.host.fresh directory Host.fileLabel (w.1.fileEnding w.2))
  let place := directory ++ [label ++ w.1.fileEnding w.2]
  have hfree : s.host.tree.node? place = none :=
    s.host.node?_fresh directory Host.fileLabel (w.1.fileEnding w.2)
  refine ⟨{ w.1 with path := some (.ofAbsolute place) }, _, rfl, ?_⟩
  refine ⟨(Session.Grows.refl s).addFile directory (w.1.fileEnding w.2) (Utf8.encode w.1.content), ?_,
    .cons ?_ .nil, ?_, List.nodup_singleton _⟩
  · intro a ha
    exact FileTree.node?_put_of_stands hstands (ha _) _
  · have hbytes := s.host.tree.node?_put_self (a := place) (by simp [place]) (Utf8.encode w.1.content)
    obtain ⟨file, hfile, hfileBytes⟩ := Option.map_eq_some_iff.1 hbytes
    exact ⟨label, file, rfl, FileTree.file?_eq_some_iff.1 hfile, hfileBytes⟩
  · intro x hx a hpath
    obtain rfl := List.mem_singleton.1 hx
    obtain rfl : place = a := congrArg Path.names (Option.some.inj hpath)
    exact hfree

/-- **Storing step by step**: what each step stores, wherever the steps before it have left the session. -/
theorem written_mapM {α β : Type} {f : α → Act β} (want : α → List (Sample × Text))
    (entries : β → List Sample) (xs : List α)
    (h : ∀ x ∈ xs, ∀ t w done, Written directory s t w done →
      ∃ y u, (f x).perform t = (.ok y, u) ∧ Written directory t u (want x) (entries y)) :
    ∃ ys t, (xs.mapM f).perform s = (.ok ys, t) ∧
      Written directory s t (xs.flatMap want) (ys.flatMap entries) := by
  induction xs generalizing s with
  | nil => exact ⟨[], s, rfl, .refl s⟩
  | cons x xs ih =>
    obtain ⟨hx, hxs⟩ := List.forall_mem_cons.1 h
    obtain ⟨y, t, hfirst, hwritten⟩ := hx s [] [] (.refl s)
    obtain ⟨ys, u, hrest, hwritten'⟩ :=
      ih fun x hx v w done hv => hxs x hx v _ _ (hwritten.append hv)
    refine ⟨y :: ys, u, ?_, ?_⟩
    · rw [List.mapM_cons, perform_bind_ok hfirst, perform_bind_ok hrest]
      rfl
    · rw [List.flatMap_cons, List.flatMap_cons]
      exact hwritten.append hwritten'

/-- A result that is told before it is given. -/
theorem perform_log_pure {α : Type} (a : α) (level : Level) (topic : Topic) (message : Text) (s : Session) :
    (Act.log level topic message >>= fun _ => pure a).perform s =
      (.ok a, ((Act.log level topic message).perform s).2) := rfl

/-- Telling something stores nothing. -/
theorem Written.log {w : List (Sample × Text)} {stored : List Sample}
    (h : Written directory s t w stored) (level : Level) (topic : Topic) (message : Text) :
    Written directory s ((Act.log level topic message).perform t).2 w stored :=
  ⟨grows_log level topic message t h.grows, h.elsewhere, h.entries, h.fresh, h.distinct⟩

/-- **Extracting the samples of one document.** -/
theorem written_extractFrom {document : Path} {contents : Path → Option Text}
    (hstands : s.host.tree.Stands directory)
    (hread : s.host.tree.read? s.host.cwd document = .ok (contents document)) :
    ∃ samples t, (extractFrom directory languages document).perform s = (.ok samples, t) ∧
      Written directory s t (wanted languages (foundIn contents document)) samples := by
  rw [extractFrom, perform_bind_ok (perform_host s), hread, perform_bind_ok (perform_ofExcept _ s), foundIn]
  cases contents document with
  | none => exact ⟨[], _, perform_log_pure [] _ _ _ s, (Written.refl s).log _ _ _⟩
  | some text =>
    obtain ⟨samples, t, hstored, hwritten⟩ :=
      written_mapM (fun w => [w]) (fun x => [x]) (chosen text document languages)
        fun w _ t _ _ ht => written_store (ht.grows.stands hstands) w
    rw [List.flatMap_singleton', List.flatMap_singleton'] at hwritten
    refine ⟨samples, _, ?_, hwritten.log .debug .sampling ("Extracted ".toList ++
      Text.ofNat samples.length ++ " samples from ".toList ++ document.toText)⟩
    rw [perform_bind_ok hstored]
    exact perform_log_pure samples _ _ _ t

/-! ## All documents -/

/-- **What extraction begins with**: the directory stands, the documents are distinct and read so, and those
that are missing are not looked for in the directory. -/
structure Ready (directory : Absolute) (s : Session) (documents : List Path)
    (contents : Path → Option Text) : Prop where
  stands : s.host.tree.Stands directory
  distinct : documents.Nodup
  read : ∀ d ∈ documents, s.host.tree.read? s.host.cwd d = .ok (contents d)
  missing : ∀ d ∈ documents, contents d = none → d.root ≠ .relative ∧ ¬ d.Enters directory

/-- **The documents read as they did** after samples were stored. -/
theorem Ready.read_of_written {documents : List Path} {contents : Path → Option Text}
    (h : Ready directory s documents contents) {w : List (Sample × Text)} {stored : List Sample}
    (hwritten : Written directory s t w stored) {d : Path} (hd : d ∈ documents) :
    t.host.tree.read? t.host.cwd d = .ok (contents d) := by
  have hread := h.read d hd
  cases hcontent : contents d with
  | none =>
    obtain ⟨hrooted, henters⟩ := h.missing d hd hcontent
    rw [hwritten.grows.cwd, FileTree.read?_of_not_enters hrooted henters hwritten.elsewhere, hread, hcontent]
  | some text =>
    rw [hcontent] at hread
    have htext : s.host.tree.read s.host.cwd d = .ok text := by
      rw [FileTree.read?] at hread
      split at hread
      · rename_i htext
        rw [htext, Option.some.inj (Except.ok.inj hread)]
      · cases hread
      · cases hread
    rw [FileTree.read?, hwritten.grows.read htext]

/-- **Extracting the samples of documents.** -/
theorem written_extract {documents : List Path} {contents : Path → Option Text}
    (h : Ready directory s documents contents) {workers : Int} (hworkers : 0 < workers)
    (languages : List Text) :
    ∃ samples t, (extract directory languages workers documents).perform s = (.ok samples, t) ∧
      Written directory s t (wanted languages (documents.flatMap (foundIn contents))) samples := by
  obtain ⟨lists, t, hdone, hwritten⟩ :=
    written_mapM (fun d => wanted languages (foundIn contents d)) id documents
      fun d hd t _ _ ht => written_extractFrom (ht.grows.stands h.stands) (h.read_of_written ht hd)
  refine ⟨lists.flatten, t, ?_, ?_⟩
  · rw [extract, if_neg (by omega)]
    exact perform_bind_ok (perform_pooled_of_mapM hdone)
  · rw [wanted_flatMap, ← List.flatMap_id]
    exact hwritten

/-- The entries tell the documents and lines of the samples they are of. -/
theorem Written.origins_eq {w : List (Sample × Text)} {stored : List Sample}
    (h : Written directory s t w stored) : stored.map origin = (w.map (·.1)).map origin := by
  have hentries := h.entries
  clear h
  induction hentries with
  | nil => rfl
  | cons hentry _ ih =>
    obtain ⟨_, _, rfl, _⟩ := hentry
    rw [List.map_cons, List.map_cons, List.map_cons, ih]
    rfl

/-- Samples with a file of their own each are all kept under their files. -/
theorem indexed_of_nodup {samples : List Sample} (h : (samples.map (·.path)).Nodup) :
    indexed samples = samples := by
  have hkeys : ((samples.map fun x => (x.path, x)).map (·.1)).Nodup := by
    rw [List.map_map]
    exact h
  rw [indexed, Keyed.ofList_of_nodup hkeys, List.map_map]
  exact List.map_id _

end Sample

/-- **A sample that is told by its document and line is found by them.** -/
theorem Resolver.sampleFrom?_of_nodup {r : Resolver} (h : (r.samples.map Sample.origin).Nodup)
    {x : Sample} (hx : x ∈ r.samples) : r.sampleFrom? x.file x.startLine = some x := by
  obtain ⟨y, hy, hfind, hfile, hline⟩ := r.exists_sampleFrom? hx
  rw [hfind]
  exact congrArg some (List.inj_on_of_nodup_map h hy hx (Prod.ext hfile hline))

namespace Sample

open Act

variable {directory : Absolute} {s : Session}

/-- **Extraction stores each wanted sample once**, and each is found again by where it stands. -/
theorem perform_extract {documents : List Path} {contents : Path → Option Text}
    (h : Ready directory s documents contents) {workers : Int} (hworkers : 0 < workers)
    (languages : List Text) :
    ∃ samples t, (extract directory languages workers documents).perform s = (.ok samples, t) ∧
      List.Forall₂ (IsEntry directory t.host.tree)
        (wanted languages (documents.flatMap (foundIn contents))) samples ∧
      indexed samples = samples ∧
      (∀ d ∈ documents, ∀ text, contents d = some text → InLines text (findAll text d)) ∧
      ((documents.flatMap (foundIn contents)).map origin).Nodup ∧
      ∀ r : Resolver, r.samples = indexed samples →
        ∀ x ∈ samples, r.sampleFrom? x.file x.startLine = some x := by
  obtain ⟨samples, t, hdone, hwritten⟩ := written_extract h hworkers languages
  have horigins := nodup_origins h.distinct contents
  have hindexed := indexed_of_nodup hwritten.distinct
  refine ⟨samples, t, hdone, hwritten.entries, hindexed, fun d _ text _ => inLines_findAll text d,
    horigins, ?_⟩
  intro r hr x hx
  rw [hindexed] at hr
  refine Resolver.sampleFrom?_of_nodup ?_ (hr ▸ hx)
  rw [hr, hwritten.origins_eq]
  exact horigins.sublist ((map_wanted_sublist languages _).map origin)

/-- Of three documents one is missing, and one has a sample without a language: two entries are left. -/
theorem perform_extract_three :
    let first : Path := .ofAbsolute ["a.md".toList]
    let gone : Path := .ofAbsolute ["gone.md".toList]
    let second : Path := .ofAbsolute ["b.md".toList]
    let contents (d : Path) : Option Text :=
      if d = first then some "```\nx\n```\n```ts\ny\n```\n".toList
      else if d = second then some "```ts\nz\n```\n".toList
      else none
    let file (t : String) : FileTree.Node := .file ⟨Utf8.encode t.toList, 0, 0, false⟩
    let s : Session :=
      { host :=
          { tree := { nodes := [(["t".toList], .directory), (["a.md".toList], file "```\nx\n```\n```ts\ny\n```\n"),
              (["b.md".toList], file "```ts\nz\n```\n")] }
            cwd := []
            temporary := [] } }
    let y : Sample := ⟨first, 4, 1, 1, [], some "ts".toList, "y\n".toList, none⟩
    let z : Sample := ⟨second, 1, 1, 1, [], some "ts".toList, "z\n".toList, none⟩
    Ready ["t".toList] s [first, gone, second] contents ∧
      ∃ samples t, (extract ["t".toList] ["ts".toList] 2 [first, gone, second]).perform s = (.ok samples, t) ∧
        indexed samples = samples ∧
        List.Forall₂ (IsEntry ["t".toList] t.host.tree) [(y, "ts".toList), (z, "ts".toList)] samples := by
  intro first gone second contents file s y z
  have hready : Ready ["t".toList] s [first, gone, second] contents := by
    refine ⟨?_, by decide, ?_, ?_⟩
    · intro a ha
      rcases List.prefix_cons_iff.1 ha with rfl | ⟨b, rfl, hb⟩
      · rfl
      · rw [List.prefix_nil.1 hb]
        rfl
    · intro d hd
      simp only [List.mem_cons, List.not_mem_nil, or_false] at hd
      rcases hd with rfl | rfl | rfl <;> rfl
    · intro d hd hnone
      simp only [List.mem_cons, List.not_mem_nil, or_false] at hd
      rcases hd with rfl | rfl | rfl
      · cases hnone
      · refine ⟨by decide, ?_⟩
        rintro ⟨front, name, back, hnames, hplace⟩
        cases front with
        | nil => cases hplace
        | cons x front => exact absurd (List.cons.inj hnames).2 (by simp)
      · cases hnone
  obtain ⟨samples, t, hdone, hentries, hindexed, _⟩ := perform_extract hready (by decide : (0 : Int) < 2)
    ["ts".toList]
  have hfirst : foundIn contents first = [⟨first, 1, 1, 1, [], none, "x\n".toList, none⟩, y] :=
    findAll_eq_of_scanWithin 7 (by decide +kernel)
  have hsecond : foundIn contents second = [z] := findAll_eq_of_scanWithin 4 (by decide +kernel)
  have hwanted : wanted ["ts".toList] ([first, gone, second].flatMap (foundIn contents)) =
      [(y, "ts".toList), (z, "ts".toList)] := by
    rw [List.flatMap_cons, List.flatMap_cons, List.flatMap_cons, hfirst, hsecond]
    decide +kernel
  exact ⟨hready, samples, t, hdone, hindexed, hwanted ▸ hentries⟩

end Sample

end Fenceline
