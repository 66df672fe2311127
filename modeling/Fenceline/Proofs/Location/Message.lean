import Fenceline.Proofs.Location.Mention

/-!
# Bringing the places of a message back to documents

A message is brought back to documents in three steps: the file of the sample that the report is on becomes
a reference, then those of the other samples do, and then all references become places.

**The law** (`resolve_mentions`): every place in a sample becomes the place in its document, and all other
text stays.

**What it does not establish.** The directory of the sample files may begin in the other text, or a file's
spelling in that of another file; then a place is taken for something else (`resolve_mistaken`).
-/

namespace Fenceline

open Pattern Reference

namespace Mention

variable {root t next next' pre : Text} {m : Mention} {ms : List Mention} {r : Resolver} {directory : Absolute}
  {s : Sample}

/-- The first place of a message, with what stands before and behind its file. -/
theorem append_say_cons (pre t : Text) (m : Mention) (ms : List Mention) (name : Sample → Text) :
    pre ++ (t ++ say (named name) (m :: ms)) =
      (pre ++ (t ++ m.scheme)) ++ (name m.sample ++ (m.numbers ++ (m.after ++ say (named name) ms))) := by
  simp only [say_cons, named, List.append_assoc]

/-! ## The files of samples become references -/

/-- How samples are named when one spelling has become another. -/
def swapped (file new : Text) (u : Sample) : Text :=
  if u.place = file then new else u.place

/-- **A spelling in the directory** becomes another where it is that of a sample's file, and nothing else
changes. -/
theorem replaceAll_file (hr : r.Extracted directory) {z : Text} (hcolon : ':' ∉ z)
    (htold : Told (Path.inside directory) t ms) (hms : ∀ m ∈ ms, m.sample ∈ r.samples)
    (hown : ∀ m ∈ ms, Path.inside directory ++ z <+: m.sample.place →
      m.sample.place = Path.inside directory ++ z)
    (hpre : '/' ∉ pre) (new : Text) :
    (pre ++ (t ++ say (named Sample.place) ms)).replaceAll (Path.inside directory ++ z) new =
      pre ++ (t ++ say (named (swapped (Path.inside directory ++ z) new)) ms) := by
  induction htold generalizing pre with
  | @last t between =>
    have hmisses : Text.Misses (Path.inside directory ++ z) (pre ++ t) [] :=
      ((misses_of_not_mem_slash hr hpre _).append between.misses).append_right z
    simpa [say] using Text.replaceAll_of_misses hmisses new
  | @next t m ms between invites numbered told ih =>
    obtain ⟨hm, hms⟩ := List.forall_mem_cons.1 hms
    obtain ⟨hownm, hown⟩ := List.forall_mem_cons.1 hown
    have hrest := ih hms hown (numbers_not_mem numbered (by decide) (by decide))
    have hbefore : Text.Misses (Path.inside directory ++ z) (pre ++ (t ++ m.scheme))
        (m.sample.place ++ (m.numbers ++ (m.after ++ say (named Sample.place) ms))) :=
      (misses_before hr hpre hm between).append_right z
    rw [append_say_cons, append_say_cons, Text.replaceAll_append_of_misses hbefore, swapped]
    split
    · rename_i heq
      rw [heq, Text.replaceAll_append (Path.inside_append_ne_nil directory z), hrest]
    · rename_i hother
      have hinside : Text.Misses (Path.inside directory ++ z) m.sample.place
          (m.numbers ++ (m.after ++ say (named Sample.place) ms)) :=
        misses_file hr hcolon hm (fun hprefix => hother (hownm hprefix)) _
      rw [Text.replaceAll_append_of_misses hinside, hrest]

/-- How samples are named when the files of one of them have become references. -/
def own (s u : Sample) : Text :=
  if u.place = s.place then s.reference else u.place

/-- **The file of the sample that a report is on** becomes a reference, and nothing else changes. -/
theorem replaceAll_told (hr : r.Extracted directory) (hs : s ∈ r.samples)
    (htold : Told (Path.inside directory) t ms) (hms : ∀ m ∈ ms, m.sample ∈ r.samples)
    (hown : ∀ m ∈ ms, s.place <+: m.sample.place → m.sample.place = s.place) (hpre : '/' ∉ pre) :
    (pre ++ (t ++ say (named Sample.place) ms)).replaceAll s.place s.reference =
      pre ++ (t ++ say (named (own s)) ms) := by
  obtain ⟨name, hname, _, hplace⟩ := (hr.stored s hs).exists_name hr.holding.ne_nil
  rw [hplace] at hown
  have hreplaced := replaceAll_file hr hname.not_mem_colon htold hms hown hpre s.reference
  rw [← hplace] at hreplaced
  exact hreplaced

/-- What the path of a sample file is put as: a reference, if the sample is known. -/
def putSample (r : Resolver) (m : Match) : Text :=
  (r.sampleAt? m.text).elim m.text Sample.reference

/-- **What a text becomes** when references are put in the place of the files of known samples. -/
def Naming (r : Resolver) (directory : Absolute) (t t' : Text) : Prop :=
  (Resolver.samplePath (Path.inside directory)).Turns
    (fun m => (.ok (putSample r m) : Except Empty Text)) t t'

/-- A stretch in which the directory does not begin stays. -/
theorem Naming.through {w : Text} (h : Text.Misses (Path.inside directory) w next)
    (hnext : Naming r directory next next') : Naming r directory (w ++ next) (w ++ next') := by
  refine Turns.through (fun v hv hvw b m hm => ?_) hnext
  rw [matchAt_samplePath_of_misses h hv hvw b] at hm
  cases hm

/-- A file of the directory with a name that no sample file has is put back. -/
theorem put_of_unknown (hr : r.Extracted directory) {name : Text} (hslash : '/' ∉ name)
    (hname : ¬ IsSampleName name) {m : Match} (htext : m.text = Path.inside directory ++ name) :
    putSample r m = m.text := by
  rw [putSample, htext, hr.sampleAt?_eq_none hslash hname]
  rfl

/-- What is read as a sample file in front of a colon ends there, and is put back if its name is none of a
sample file. -/
theorem put_of_colon (hr : r.Extracted directory) {name z next : Text} {m : Match}
    (hall : ∀ x ∈ name, Resolver.inSampleName x = true) (htext : m.text = Path.inside directory ++ name)
    (hrest : z ++ ':' :: next = name ++ m.rest) (hunknown : name <+: z → ¬ IsSampleName name) :
    (':' :: next).length ≤ m.rest.length ∧ putSample r m = m.text := by
  have hcolon : ':' ∉ name := fun hmem => absurd (hall ':' hmem) (by decide)
  have hslash : '/' ∉ name := fun hmem => absurd (hall '/' hmem) (by decide)
  obtain ⟨q, rfl⟩ : name <+: z :=
    Text.prefix_of_not_mem hcolon (hrest.symm ▸ List.prefix_append name m.rest)
  constructor
  · rw [List.append_assoc, List.append_cancel_left_eq] at hrest
    rw [← hrest, List.length_append]
    exact Nat.le_add_left _ _
  · exact put_of_unknown hr hslash (hunknown (List.prefix_append name q)) htext

/-- A file of the directory may be read in front of a reference, or at its beginning; it is none of a
sample, as the mark of a reference has no extension. -/
theorem put_of_reference (hr : r.Extracted directory) {x mark next v : Text} (hx : '$' ∉ x)
    (hslash : '/' ∉ '$' :: mark) (hdot : '.' ∉ mark) (hv : v ≠ []) (hvx : v <:+ x ++ '$' :: mark)
    {b : Option Char} {m : Match}
    (hm : (Resolver.samplePath (Path.inside directory)).matchAt b (v ++ ':' :: next) = some m) :
    (':' :: next).length ≤ m.rest.length ∧ putSample r m = m.text := by
  obtain ⟨name, _, hall, heq, htext⟩ := Resolver.path_of_matchAt_samplePath hm
  obtain ⟨c, w, _, hinside⟩ := hr.holding.inside_eq
  rcases Text.suffix_append_cases hvx with hend | ⟨y, _, hyx, rfl⟩
  · -- no directory begins in the mark
    obtain ⟨z, v, rfl⟩ := List.exists_cons_of_ne_nil hv
    rw [hinside, List.cons_append, List.cons_append] at heq
    exact absurd (hend.subset List.mem_cons_self) ((List.cons.inj heq).1 ▸ hslash)
  · have hy : '$' ∉ y := fun hmem => hx (hyx.subset hmem)
    have hbegin : Path.inside directory <+: y := by
      refine Text.prefix_of_not_mem (x := '$') (b := mark ++ ':' :: next) hr.holding.noDollar_inside ?_
      rw [List.append_assoc, List.cons_append] at heq
      exact heq ▸ List.prefix_append _ _
    obtain ⟨z, rfl⟩ := hbegin
    have hrest : z ++ '$' :: mark ++ ':' :: next = name ++ m.rest := by
      rw [List.append_assoc, List.append_assoc] at heq
      rw [List.append_assoc]
      exact List.append_cancel_left heq
    apply put_of_colon hr hall htext hrest
    rintro ⟨q, hq⟩ hname
    obtain ⟨stem, ending, rfl, hstem, hending⟩ := hname.marked
    rw [List.append_assoc, List.cons_append] at hq
    have hz : '$' ∉ z := fun hmem => hy (List.mem_append_right _ hmem)
    obtain ⟨_, hmark⟩ := Text.eq_of_append_cons hstem hz hq
    exact hdot (hmark ▸ List.mem_append_left q hending)

/-- A sample's file becomes a reference. -/
theorem naming_place (hr : r.Extracted directory) (hm : m.sample ∈ r.samples)
    (hnext : Naming r directory (m.numbers ++ next) next') :
    Naming r directory
      (m.sample.place ++ (m.numbers ++ next)) (m.sample.reference ++ next') := by
  obtain ⟨own, hown, _, hplace⟩ := (hr.stored _ hm).exists_name hr.holding.ne_nil
  refine Turns.hit ?_ (fun b => ?_) hnext
  · have hpos := List.length_pos_iff.2 (place_ne_nil hr hm)
    simp only [List.length_append]
    omega
  · have hcolon : ∀ x ∈ (m.numbers ++ next).head?, Resolver.inSampleName x = false := by
      intro x hx
      obtain rfl := Option.some.inj hx
      decide
    obtain ⟨found, hmatch, hrest, htext⟩ :=
      Resolver.matchAt_samplePath (Path.inside directory) hown.ne_nil hown.all hcolon b
    refine ⟨found, ?_, hrest, ?_⟩
    · rw [hplace, List.append_assoc]
      exact hmatch
    · rw [putSample, htext, ← hplace, hr.sampleAt?_place hm]
      rfl

/-- A reference stays, and so does what stands before it. -/
theorem naming_behind_reference (hr : r.Extracted directory) (hm : m.sample ∈ r.samples) {w next' : Text}
    (hw : '$' ∉ w)
    (hnext : Naming r directory (m.numbers ++ next) next') :
    Naming r directory
      (w ++ m.sample.reference ++ (m.numbers ++ next)) (w ++ m.sample.reference ++ next') := by
  obtain ⟨run, first, last, hrun, _, _, hreference⟩ := (hr.stored _ hm).exists_reference
  have hdollar : '$' ∉ w ++ '/' :: run := by
    rw [List.mem_append, List.mem_cons, not_or, not_or]
    exact ⟨hw, by decide, fun hmem => (hrun '$' hmem).2 rfl⟩
  have hslash : '/' ∉ '$' :: (Text.ofNat first ++ '-' :: Text.ofNat last) := by
    simp [Text.not_mem_ofNat]
  have hdot : '.' ∉ Text.ofNat first ++ '-' :: Text.ofNat last := by
    simp [Text.not_mem_ofNat]
  refine Turns.through (fun v hv hvw b found hfound => ?_) hnext
  rw [hreference, ← List.append_assoc] at hvw
  obtain ⟨hlength, hput⟩ := put_of_reference hr hdollar hslash hdot hv hvw hfound
  exact ⟨hlength, congrArg Except.ok hput⟩

/-- **A place that is not read again**: a path without a dollar sign, and numbers behind it. -/
def Settled (n : Text) : Prop :=
  ∃ path numbers, n = '/' :: path ++ ':' :: numbers ∧ '$' ∉ path ∧ '/' ∉ numbers ∧ '$' ∉ numbers

theorem Settled.noDollar {n : Text} (h : Settled n) : '$' ∉ n := by
  obtain ⟨path, numbers, rfl, hpath, -, hnumbers⟩ := h
  simp [hpath, hnumbers]

/-- What is read in text in front of a colon is no sample file, as no mark stands there. -/
theorem naming_behind_path (hr : r.Extracted directory) (hcolon : ':' ∉ Path.inside directory) {w next' : Text}
    (hw : '$' ∉ w) (hnext : Naming r directory (':' :: next) next') :
    Naming r directory (w ++ ':' :: next) (w ++ next') := by
  refine Turns.through (fun v hv hvw b m hm => ?_) hnext
  obtain ⟨name, _, hall, heq, htext⟩ := Resolver.path_of_matchAt_samplePath hm
  obtain ⟨z, rfl⟩ : Path.inside directory <+: v :=
    Text.prefix_of_not_mem hcolon (heq ▸ List.prefix_append (Path.inside directory) _)
  have hrest : z ++ ':' :: next = name ++ m.rest := by
    rw [List.append_assoc] at heq
    exact List.append_cancel_left heq
  have hunknown : name <+: z → ¬ IsSampleName name := by
    rintro ⟨q, rfl⟩ hname
    obtain ⟨stem, ending, rfl, -, -⟩ := hname.marked
    apply hw (hvw.subset _)
    simp
  obtain ⟨hlength, hput⟩ := put_of_colon hr hall htext hrest hunknown
  exact ⟨hlength, congrArg Except.ok hput⟩

/-- **The files of all samples become references**, where they are none yet, and nothing else changes; a
place may be named in another way already, which stays. -/
theorem naming_named (hr : r.Extracted directory) (htold : Told (Path.inside directory) t ms)
    (hms : ∀ m ∈ ms, m.sample ∈ r.samples) {name name' : Sample → Text}
    (hname : ∀ m ∈ ms,
      ((name m.sample = m.sample.place ∨ name m.sample = m.sample.reference) ∧
        name' m.sample = m.sample.reference) ∨
      (':' ∉ Path.inside directory ∧ Settled (name m.sample) ∧ name' m.sample = name m.sample))
    (hslash : '/' ∉ pre) (hdollar : '$' ∉ pre) :
    Naming r directory (pre ++ (t ++ say (named name) ms)) (pre ++ (t ++ say (named name') ms)) := by
  induction htold generalizing pre with
  | @last t between =>
    have hall : Naming r directory (pre ++ t ++ []) (pre ++ t ++ []) :=
      Naming.through ((misses_of_not_mem_slash hr hslash _).append between.misses) Turns.nil
    simpa [say] using hall
  | @next t m ms between invites numbered told ih =>
    obtain ⟨hm, hms⟩ := List.forall_mem_cons.1 hms
    obtain ⟨hnamem, hname⟩ := List.forall_mem_cons.1 hname
    have hbefore : '$' ∉ pre ++ (t ++ m.scheme) := by
      rw [List.mem_append, List.mem_append, not_or, not_or]
      exact ⟨hdollar, between.noDollar, scheme_not_mem_dollar m⟩
    have hrest := ih hms hname (numbers_not_mem numbered (by decide) (by decide))
      (numbers_not_mem numbered (by decide) (by decide))
    rw [append_say_cons, append_say_cons]
    rcases hnamem with ⟨hnamem | hnamem, hnamem'⟩ | ⟨hcolon, ⟨path, numbers, heq, hpath, hnumbers⟩, hnamem'⟩
    · rw [hnamem, hnamem']
      refine Naming.through ?_ (naming_place hr hm hrest)
      obtain ⟨own, hown, _, hplace⟩ := (hr.stored _ hm).exists_name hr.holding.ne_nil
      obtain ⟨stem, ending, rfl, _, _⟩ := hown.marked
      have hmisses := misses_before hr hslash hm between
      have hbegin : ∀ rest, m.sample.place ++ rest =
          (Path.inside directory ++ stem) ++ '$' :: (ending ++ rest) := fun rest => by
        rw [hplace]
        simp
      rw [hbegin] at hmisses ⊢
      exact hmisses.congr_behind hr.holding.noDollar_inside _
    · rw [hnamem, hnamem', ← List.append_assoc, ← List.append_assoc (pre ++ (t ++ m.scheme))]
      exact naming_behind_reference hr hm hbefore hrest
    · have hslash : '/' ∉ ':' :: numbers ++ m.numbers := by
        simp [hnumbers.1, numbers_not_mem numbered (x := '/') (by decide) (by decide)]
      have hdollar : '$' ∉ ':' :: numbers ++ m.numbers := by
        simp [hnumbers.2, numbers_not_mem numbered (x := '$') (by decide) (by decide)]
      have hbehind := ih hms hname hslash hdollar
      have hpath : '$' ∉ pre ++ (t ++ m.scheme) ++ '/' :: path := by
        rw [List.mem_append, List.mem_cons, not_or, not_or]
        exact ⟨hbefore, by decide, hpath⟩
      have hnaming := naming_behind_path hr hcolon hpath hbehind
      rw [hnamem', heq]
      simpa using hnaming

/-- **The files of all samples become references**, where they are none yet, and nothing else changes. -/
theorem naming_samples (hr : r.Extracted directory) (htold : Told (Path.inside directory) t ms)
    (hms : ∀ m ∈ ms, m.sample ∈ r.samples) {name : Sample → Text}
    (hname : ∀ m ∈ ms, name m.sample = m.sample.place ∨ name m.sample = m.sample.reference)
    (hslash : '/' ∉ pre) (hdollar : '$' ∉ pre) :
    Naming r directory
      (pre ++ (t ++ say (named name) ms)) (pre ++ (t ++ say (named Sample.reference) ms)) :=
  naming_named hr htold hms (fun m hm => .inl ⟨hname m hm, rfl⟩) hslash hdollar

/-! ## References become places -/

/-- No digit stands behind a place, whatever follows. -/
theorem noDigit_after {t : Text} (ht : NoDigit t) {name : Sample → Text}
    (hname : ∀ m ∈ ms, ∃ rest, name m.sample = '/' :: rest) : NoDigit (t ++ say (named name) ms) := by
  cases t with
  | cons x t => exact ht
  | nil =>
    cases ms with
    | nil => exact ht
    | cons m ms =>
      obtain ⟨rest, hrest⟩ := hname m List.mem_cons_self
      rw [List.nil_append, say_cons, named, hrest]
      rcases m.scheme_eq with hm | hm
      · rw [hm]
        exact noDigit_cons (by decide) _
      · rw [hm]
        exact noDigit_cons (by decide) _

/-- A reference becomes a place of the sample's document. -/
theorem turns_reference (hr : r.Extracted directory) (hm : m.sample ∈ r.samples) (hnumbered : m.Numbered)
    (hnext : NoDigit next) {offset : Offset} {current : Option Path}
    (hrest : embedded.Turns (r.unmark offset current) next next') :
    embedded.Turns (r.unmark offset current) (named Sample.reference m ++ next) (m.inDocument ++ next') := by
  obtain ⟨run, first, last, hrun, hfirst, hfile, hreference⟩ := (hr.stored _ hm).exists_reference
  have htext : named Sample.reference m ++ next = m.scheme ++ '/' :: run ++
      '$' :: (Text.ofNat first ++ '-' :: (Text.ofNat last ++ ':' ::
        (m.line ++ ':' :: (m.column ++ next)))) := by
    rw [named, hreference, numbers]
    simp
  refine Turns.hit ?_ (fun b => ?_) hrest
  · rw [htext]
    simp only [List.length_append, List.length_cons]
    omega
  · obtain ⟨found, hfound, hbehind, hparts⟩ := matchAt_embedded m.scheme_eq (rooted_slash hrun)
      (digits_ofNat first) (digits_ofNat last) .nothing hnumbered.line hnumbered.column
      hnext b
    rw [List.nil_append, ← htext] at hfound
    rw [← hfile] at hparts
    exact ⟨found, hfound, hbehind,
      hr.unmark_of_hasParts hm hfirst hparts hnumbered.short.1 hnumbered.short.2 offset current⟩

/-- What the other text of a message is like, up to the first place. -/
theorem Told.begins (h : Told root t ms) : '$' ∉ t ∧ (ms ≠ [] → Invites t) := by
  cases h with
  | last between => exact ⟨between.noDollar, fun hne => absurd rfl hne⟩
  | next between invites _ _ => exact ⟨between.noDollar, fun _ => invites⟩

/-- More text in front does not matter to a place. -/
theorem Invites.behind {u : Text} (h : Invites u) (hne : u ≠ []) (t : Text) : Invites (t ++ u) := by
  rcases h with rfl | ⟨v, x, hx, rfl | rfl⟩
  · exact absurd rfl hne
  · exact .inr ⟨t ++ v, x, hx, .inl (List.append_assoc ..).symm⟩
  · exact .inr ⟨t ++ v, x, hx, .inr (List.append_assoc ..).symm⟩

/-- **All references become places**, and nothing else changes; a place that is settled stays, if other text
stands between it and the next one. -/
theorem turns_named (hr : r.Extracted directory) (htold : Told root t ms) (hms : ∀ m ∈ ms, m.sample ∈ r.samples)
    {name : Sample → Text} {tell : Mention → Text}
    (hname : ∀ m ∈ ms, (name m.sample = m.sample.reference ∧ tell m = m.inDocument) ∨
      (Settled (name m.sample) ∧ tell m = named name m))
    (hafter : ∀ m ∈ ms.dropLast, name m.sample = m.sample.reference ∨ m.after ≠ [])
    (offset : Offset) (current : Option Path) {before : Text} (hbefore : '$' ∉ before)
    (hinvites : ms ≠ [] → Invites before) :
    embedded.Turns (r.unmark offset current) (before ++ say (named name) ms) (before ++ say tell ms) := by
  have hslash : ∀ m ∈ ms, ∃ rest, name m.sample = '/' :: rest := by
    intro m hm
    rcases hname m hm with ⟨hreference, -⟩ | ⟨⟨path, numbers, heq, -⟩, -⟩
    · obtain ⟨run, first, last, -, -, -, htext⟩ := (hr.stored _ (hms m hm)).exists_reference
      exact ⟨_, hreference.trans htext⟩
    · exact ⟨_, heq⟩
  induction htold generalizing before with
  | @last t between =>
    refine Turns.through (fun v _ hvt b found hfound => ?_) Turns.nil
    have hv : '$' ∉ v := fun hmem => hbefore (hvt.subset hmem)
    cases (matchAt_embedded_of_last hv b).symm.trans hfound
  | @next t m ms between invites numbered told ih =>
    obtain ⟨hm, hms⟩ := List.forall_mem_cons.1 hms
    obtain ⟨hnamem, hname⟩ := List.forall_mem_cons.1 hname
    obtain ⟨-, hslash⟩ := List.forall_mem_cons.1 hslash
    obtain ⟨hdollar, hbehind⟩ := told.begins
    have hlater : ∀ u ∈ ms.dropLast, name u.sample = u.sample.reference ∨ u.after ≠ [] := by
      intro u hu
      cases ms with
      | nil => cases hu
      | cons m' ms => exact hafter u (List.mem_cons_of_mem _ hu)
    rw [say_cons, say_cons]
    rcases hnamem with ⟨hreference, htell⟩ | ⟨hsettled, htell⟩
    · have hfirst : named name m = named Sample.reference m := by rw [named, named, hreference]
      rw [hfirst, htell]
      refine Turns.through (fun v hv hvt b found hfound => ?_)
        (turns_reference hr hm numbered (noDigit_after numbered.after hslash)
          (ih hms hname hlater hdollar hbehind hslash))
      rw [matchAt_embedded_of_invites hbefore (hinvites (List.cons_ne_nil m ms)) hv hvt _ b] at hfound
      cases hfound
    · -- no reference begins in the settled place, so it is one stretch with the text around it
      have hplain : '$' ∉ before ++ (named name m ++ m.after) := by
        simp only [named, List.mem_append, not_or]
        exact ⟨hbefore, ⟨⟨scheme_not_mem_dollar m, hsettled.noDollar⟩,
          numbers_not_mem numbered (by decide) (by decide)⟩, hdollar⟩
      have hopen : ms ≠ [] → Invites (before ++ (named name m ++ m.after)) := by
        intro hne
        obtain ⟨m', ms, rfl⟩ := List.exists_cons_of_ne_nil hne
        rw [← List.append_assoc]
        apply (hbehind hne).behind
        rcases hafter m List.mem_cons_self with hreference | hne
        · obtain ⟨run, first, last, -, -, -, htext⟩ := (hr.stored _ hm).exists_reference
          apply absurd _ hsettled.noDollar
          rw [hreference, htext]
          simp
        · exact hne
      have hturns := ih hms hname hlater hplain hopen hslash
      rw [htell]
      simpa only [List.append_assoc] using hturns

/-- **All references become places**, and nothing else changes. -/
theorem turns_references (hr : r.Extracted directory) (htold : Told root t ms)
    (hms : ∀ m ∈ ms, m.sample ∈ r.samples) (offset : Offset) (current : Option Path) :
    embedded.Turns (r.unmark offset current)
      (t ++ say (named Sample.reference) ms) (t ++ say inDocument ms) :=
  turns_named hr htold hms (fun _ _ => .inl ⟨rfl, rfl⟩) (fun _ _ => .inl rfl) offset current
    htold.begins.1 htold.begins.2

/-- **What a message is brought back to**, by how its samples are named and by what becomes of the names. -/
theorem resolveMessage_of_turns (hr : r.Extracted directory) {text named told : Text} {offset : Offset}
    {current : Option Text} {place : Option Path} (hcurrent : current.mapM r.absolute = .ok place)
    (hnaming : Naming r directory text named)
    (hturns : embedded.Turns (r.unmark offset place) named told) :
    r.resolveMessage text offset current = .ok told := by
  have hsamples : r.nameSamples text = named := by
    rw [Resolver.nameSamples, hr.sampleRoot?_eq]
    exact substitute_of_turns hnaming
  rw [Resolver.resolveMessage, hcurrent, hsamples]
  exact substituteM_of_turns hturns

/-- **A message is brought back to documents**, however its samples are named. -/
theorem resolveMessage_told (hr : r.Extracted directory) (htold : Told (Path.inside directory) t ms)
    (hms : ∀ m ∈ ms, m.sample ∈ r.samples) {name : Sample → Text}
    (hname : ∀ m ∈ ms, name m.sample = m.sample.place ∨ name m.sample = m.sample.reference)
    (offset : Offset) {current : Option Text} {place : Option Path}
    (hcurrent : current.mapM r.absolute = .ok place) :
    r.resolveMessage (t ++ say (named name) ms) offset current = .ok (t ++ say inDocument ms) := by
  have hnaming := naming_samples hr htold hms hname (List.not_mem_nil : '/' ∉ ([] : Text)) List.not_mem_nil
  exact resolveMessage_of_turns hr hcurrent hnaming (turns_references hr htold hms offset place)

end Mention

namespace Resolver

open Mention

variable {r : Resolver} {directory : Absolute}

/-- **Every place in a sample becomes the place in its document**, and all other text stays. The report may
be of any kind and on no file, or on that of one of the samples. -/
theorem resolve_mentions (hr : r.Extracted directory) {lead : Text} {ms : List Mention}
    (htold : Told (Path.inside directory) lead ms) (hms : ∀ m ∈ ms, m.sample ∈ r.samples)
    {d : Draft} {kind : Kind} (hkind : d.kind = .ok kind)
    (hmessage : d.message = .ok (lead ++ say (named Sample.place) ms))
    (hfile : d.get? "file" = none ∨ ∃ value s line column, d.get? "file" = some value ∧ s ∈ r.samples ∧
      FileUrl.path value = .ok s.place ∧ integer? d "line" = some line ∧ integer? d "column" = some column ∧
      Short line ∧ Short column ∧ ∀ m ∈ ms, s.place <+: m.sample.place → m.sample.place = s.place) :
    ∃ e, r.resolve d = .ok e ∧ e.message = .ok (lead ++ say inDocument ms) := by
  have hset : ∀ (d : Draft) (text : Text), Draft.message (d.set "message" text) = .ok text := fun d text => by
    rw [Draft.message, Draft.need, Keyed.get?_set_self]
  rcases hfile with hfile | ⟨value, s, line, column, hfile, hs, hvalue, hl, hc, hline, hcolumn, hown⟩
  · have hcurrent : (none : Option Text).mapM r.absolute = .ok none := rfl
    have hsaid := resolveMessage_told hr htold hms (fun m _ => .inl rfl) (r.offset kind) hcurrent
    refine ⟨d.set "message" (lead ++ say inDocument ms), ?_, hset _ _⟩
    simp only [resolve, hkind, resolveFields, hfile, hmessage, Option.map_none, hsaid, bind, Except.bind]
    rfl
  · obtain ⟨hshort, hshort'⟩ := (hr.stored s hs).short
    have hunmarked : unmarked s.file.toText = s.file.toText :=
      unmarked_of_not_mem (hr.stored s hs).dollar_not_mem_file
    have hname : ∀ m ∈ ms, own s m.sample = m.sample.place ∨ own s m.sample = m.sample.reference := by
      intro m hm
      rw [own]
      split
      · rename_i heq
        rw [← hr.sample_eq_of_place hs (hms m hm) heq]
        exact .inr rfl
      · exact .inl rfl
    have hcurrent : (some s.file.toText).mapM r.absolute = .ok (some s.file) := by
      rw [Option.mapM_some, hr.absolute_file hs]
      rfl
    have hown := replaceAll_told hr hs htold hms hown (List.not_mem_nil : '/' ∉ ([] : Text))
    have hsaid := resolveMessage_told hr htold hms hname (r.offset kind) hcurrent
    obtain ⟨shown, hshown⟩ := displayName_of_resolveMessage hsaid
    have hresolve := resolve_eq_bind hkind hmessage hfile hvalue (hr.isInSampleDir_place hs)
      (hr.sampleAt?_place hs) hl hc
      (writeNumber_add hline hshort (k := line + s.startLine) (by omega))
      (writeNumber_add hcolumn hshort' (k := column + s.column - 1) (by omega))
    rw [List.nil_append, List.nil_append] at hown
    rw [hunmarked, hown] at hresolve
    dsimp only at hresolve
    rw [hsaid, Except.bind, hshown] at hresolve
    refine ⟨_, hresolve, ?_⟩
    rw [Draft.message, Draft.need, Keyed.get?_set_of_ne _ _ (by decide), Keyed.get?_set_self]

/-- Places in two samples, one of them that of the report, in brackets and as a URL. -/
theorem resolve_mentions_pair :
    let directory : Absolute := ["t".toList]
    let s : Sample := ⟨.ofAbsolute ["p".toList, "a.ts".toList], 1, 1, 4, " * ".toList, some "ts".toList,
      "x\n".toList, some (.ofAbsolute ["t".toList, "x$1-3.ts".toList])⟩
    let u : Sample := ⟨.ofAbsolute ["p".toList, "b.md".toList], 5, 1, 1, [], some "js".toList, "y\n".toList,
      some (.ofAbsolute ["t".toList, "y$5-7.js".toList])⟩
    let r : Resolver := { cwd := .ofAbsolute [], samples := [s, u], sampleDir := some (.ofAbsolute directory) }
    let ms : List Mention := [⟨false, s, "2".toList, "1".toList, ") or /t ".toList⟩,
      ⟨true, u, "1".toList, "02".toList, "\nend".toList⟩]
    let d : Draft := [("kind", "check".toList),
      ("message", "see (/t/x$1-3.ts:2:1) or /t file:///t/y$5-7.js:1:02\nend".toList),
      ("file", "file:///t/x$1-3.ts".toList), ("line", "2".toList), ("column", "1".toList)]
    r.Extracted directory ∧ Told (Path.inside directory) "see (".toList ms ∧
      d.message = .ok ("see (".toList ++ say (named Sample.place) ms) ∧
      ∃ e, r.resolve d = .ok e ∧
        e.message = .ok "see (/p/a.ts:3:4) or /t file:///p/b.md:6:2\nend".toList := by
  intro directory s u r ms d
  have hs : s.Stored directory :=
    { document := ⟨["p".toList, "a.ts".toList], rfl, by decide, by decide, Sample.plain_of_all (by decide)⟩
      stored := ⟨"x".toList, "ts".toList, List.all_eq_true.1 (by decide), by decide⟩
      lines := by decide
      short := by decide }
  have hu : u.Stored directory :=
    { document := ⟨["p".toList, "b.md".toList], rfl, by decide, by decide, Sample.plain_of_all (by decide)⟩
      stored := ⟨"y".toList, "js".toList, List.all_eq_true.1 (by decide), by decide⟩
      lines := by decide
      short := by decide }
  have hr : r.Extracted directory :=
    { holding := ⟨by decide, by decide, by decide⟩
      sampleDir := rfl
      nodup := by decide
      stored := List.forall_mem_cons.2 ⟨hs, List.forall_mem_singleton.2 hu⟩
      column_eq := by decide }
  have htold : Told (Path.inside directory) "see (".toList ms := by
    refine .next ⟨by decide, by decide⟩ (.inr ⟨"see".toList, ' ', by decide, .inr rfl⟩)
      ⟨by decide, by decide, by decide, noDigit_cons (by decide) _⟩ ?_
    refine .next ⟨by decide, by decide⟩ (.inr ⟨") or /t".toList, ' ', by decide, .inl rfl⟩)
      ⟨by decide, by decide, by decide, noDigit_cons (by decide) _⟩ ?_
    exact .last ⟨by decide, by decide⟩
  have hmessage : d.message = .ok ("see (".toList ++ say (named Sample.place) ms) := by decide
  have hkind : d.kind = .ok .check := by decide
  have hvalue : FileUrl.path (FileUrl.scheme ++ s.place) = .ok s.place := by
    have hplace : s.place = (Path.ofAbsolute ["t".toList, "x$1-3.ts".toList]).toText := rfl
    rw [hplace]
    exact FileUrl.path_scheme_toText (by decide)
  have hsaid : "see (".toList ++ say inDocument ms =
      "see (/p/a.ts:3:4) or /t file:///p/b.md:6:2\nend".toList := by decide
  have hresolved := resolve_mentions hr htold (by decide) hkind hmessage
    (.inr ⟨_, s, 2, 1, rfl, List.mem_cons_self, hvalue, by decide, by decide, by decide, by decide, by decide⟩)
  rw [hsaid] at hresolved
  exact ⟨hr, htold, hmessage, hresolved⟩

/-- Six messages in which a place in a sample does not become the place in its document: the directory is
the root; it begins in the other text; the spelling of the report's file begins that of another one; a dollar
sign stands in the directory; two samples of one document begin in one line and in two columns; a document
has a name that no file can have. -/
theorem resolve_mistaken :
    let sample (document : Text) (line column : Int) (directory : Absolute) (name : Text) : Sample :=
      ⟨.ofAbsolute [document], line, 1, column, [], some "ts".toList, "x\n".toList,
        some (.ofAbsolute (directory ++ [name]))⟩
    let resolver (directory : Absolute) (samples : List Sample) : Resolver :=
      { cwd := .ofAbsolute [], samples := samples, sampleDir := some (.ofAbsolute directory) }
    let draft (message : Text) (fields : Draft) : Draft :=
      ("kind", "check".toList) :: ("message", message) :: fields
    let becomes (r : Resolver) (fields : Draft) (lead : Text) (ms : List Mention) (message : Text) : Prop :=
      ((r.resolve (draft (lead ++ say (named Sample.place) ms) fields)).bind Draft.message).toOption =
          some message ∧
        message ≠ lead ++ say inDocument ms
    let on (s : Sample) : Draft := [("file", s.place), ("line", ['1']), ("column", ['1'])]
    let first (s : Sample) : Mention := ⟨false, s, ['1'], ['1'], []⟩
    let atRoot := sample ['a'] 1 1 [] "x$1-3.ts".toList
    let blank : Absolute := ["a".toList, "b ".toList, "a".toList]
    let behindBlank := sample ['a'] 1 1 blank "x$1-3.ts".toList
    let directory : Absolute := ["t".toList]
    let short := sample ['a'] 1 1 directory "x$1-3.ts".toList
    let long := sample ['b'] 1 1 directory "x$1-3.tsx".toList
    let dollar : Absolute := ["a$1-3:1:1".toList]
    let one := sample ['a'] 1 1 dollar "x$1-3.ts".toList
    let other := sample ['b'] 5 1 dollar "y$5-7.ts".toList
    let aside := sample ['a'] 1 3 directory "y$1-3.ts".toList
    let null := sample ['a', '\x00'] 1 1 directory "x$1-3.ts".toList
    becomes (resolver [] [atRoot]) [] [] [first atRoot] "/x:2:1".toList ∧
      becomes (resolver blank [behindBlank]) [] "/a/b ".toList [first behindBlank]
        "/a/b /a/b /a/x:2:1".toList ∧
      becomes (resolver directory [short, long]) (on short) [] [first long] "/ax:2:1".toList ∧
      becomes (resolver dollar [one, other]) (on one) [] [first one, ⟨false, other, ['2'], ['2'], []⟩]
        "/a:2:1/a:2:1/y:7:2".toList ∧
      becomes (resolver directory [short, aside]) [] [] [first short] "/a:2:3".toList ∧
      ((resolver directory [null]).resolve (draft (say (named Sample.place) [first null]) [])).toOption =
        none := by
  refine ⟨⟨?_, ?_⟩, ⟨?_, ?_⟩, ⟨?_, ?_⟩, ⟨?_, ?_⟩, ⟨?_, ?_⟩, ?_⟩ <;> decide +kernel

end Resolver

end Fenceline
