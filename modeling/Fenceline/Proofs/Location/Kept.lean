import Fenceline.Proofs.Keyed
import Fenceline.Proofs.Location.Citation
import Fenceline.Proofs.Location.Growing
import Fenceline.Proofs.Location.Message
import Fenceline.Proofs.Location.Requested

/-!
# What stays of a report

A report is brought back in its file, its line, its column and its message. Of these a line only can come new to a
report, and in a message nothing changes but paths and the places behind them, in which no line ends. A report that
says nothing of samples (`Apart`) keeps its message and its place, and its file but for the spelling.

**The law** (`resolve_kept`): all of this, for any resolver and any report that is brought back.

**What `Apart` has to leave out.** A path that ends in a mark and a line feed is taken for a reference
(`Reference.Unmarked`); a report on one gets a line, and its file loses the mark (`resolve_unkept`).
-/

namespace Fenceline

open Pattern Reference

namespace Resolver

variable {r : Resolver} {d e fields : Draft} {offset : Offset} {current : Option Text} {t t' : Text} {x : Char}

/-! ## What a message becomes -/

/-- **The file of the sample that a report is on**, as the report spells it. -/
def ownFile? (r : Resolver) (d : Draft) : Option Text :=
  (d.get? "file").bind fun value => (FileUrl.path value).toOption.filter fun file =>
    r.isInSampleDir file && (r.sampleAt? file).isSome

theorem ownFile?_of_path {value file : Text} (hvalue : d.get? "file" = some value)
    (hpath : FileUrl.path value = .ok file) :
    r.ownFile? d = if r.isInSampleDir file && (r.sampleAt? file).isSome then some file else none := by
  rw [ownFile?, hvalue, Option.bind_some, hpath]
  exact Option.filter_some ..

theorem message_set_of_ne (d : Draft) {name : String} (value : Text) (hname : "message" ≠ name) :
    Draft.message (d.set name value) = d.message := by
  rw [Draft.message, Draft.need, Keyed.get?_set_of_ne _ _ hname]
  rfl

/-- A mark at a file is none of the message's business. -/
theorem message_of_resolveMark {file : Text} (h : resolveMark d file offset = .ok fields) :
    fields.message = d.message := by
  unfold resolveMark at h
  split at h
  · cases h
    rfl
  · obtain ⟨_, -, h⟩ := bind_eq_ok.1 h
    obtain ⟨_, -, h⟩ := bind_eq_ok.1 h
    dsimp only at h
    split at h
    · obtain ⟨_, -, h⟩ := bind_eq_ok.1 h
      cases h
      rw [message_set_of_ne _ _ (by decide), message_set_of_ne _ _ (by decide)]
    · cases h
      rw [message_set_of_ne _ _ (by decide)]

/-- The file of a sample becomes a reference, or the place of the sample's opening fence. -/
theorem message_of_placeInSample {file : Text} {s : Sample} (h : placeInSample d file s = .ok fields) :
    ∃ message new, d.message = .ok message ∧ (new = s.reference ∨ new = s.fencePlace) ∧
      fields.message = .ok (message.replaceAll file new) := by
  obtain ⟨message, hmessage, h⟩ := bind_eq_ok.1 h
  split at h
  · obtain ⟨_, -, h⟩ := bind_eq_ok.1 h
    obtain ⟨_, -, h⟩ := bind_eq_ok.1 h
    cases h
    refine ⟨message, s.reference, hmessage, .inl rfl, ?_⟩
    rw [message_set_of_ne _ _ (by decide), message_set_of_ne _ _ (by decide), message_set_of_ne _ _ (by decide),
      Draft.message_set]
  · cases h
    refine ⟨message, s.fencePlace, hmessage, .inr rfl, ?_⟩
    rw [message_set_of_ne _ _ (by decide), Draft.message_set]
    rfl

/-- **What the fields do to a message**: the file of the sample that the report is on becomes a reference, or the place
of the sample's opening fence. -/
theorem exists_message_of_resolveFields {said : Text} (h : r.resolveFields d offset = .ok fields)
    (hsaid : fields.message = .ok said) : ∃ message, d.message = .ok message ∧
      (r.ownFile? d = none ∧ said = message ∨ ∃ file s new, r.ownFile? d = some file ∧ r.sampleAt? file = some s ∧
        (new = s.reference ∨ new = s.fencePlace) ∧ said = message.replaceAll file new) := by
  unfold resolveFields at h
  split at h
  · rename_i hvalue
    cases h
    exact ⟨said, hsaid, .inl ⟨by rw [ownFile?, hvalue]; rfl, rfl⟩⟩
  · rename_i value hvalue
    obtain ⟨file, hpath, h⟩ := bind_eq_ok.1 h
    have hown := ownFile?_of_path (r := r) hvalue hpath
    dsimp only at h
    split at h
    · rename_i hinside
      unfold resolveSample at h
      rw [hinside, Bool.true_and] at hown
      split at h
      · rename_i s hsample
        obtain ⟨message, new, hmessage, hnew, hplaced⟩ := message_of_placeInSample h
        rw [message_set_of_ne _ _ (by decide)] at hmessage
        rw [hsample] at hown
        exact ⟨message, hmessage, .inr ⟨file, s, new, hown, hsample, hnew, Except.ok.inj (hsaid.symm.trans hplaced)⟩⟩
      · rename_i hsample
        cases h
        rw [message_set_of_ne _ _ (by decide)] at hsaid
        rw [hsample] at hown
        exact ⟨said, hsaid, .inl ⟨hown, rfl⟩⟩
    · rename_i hinside
      rw [Bool.eq_false_iff.2 hinside, Bool.false_and] at hown
      rw [message_of_resolveMark h, message_set_of_ne _ _ (by decide)] at hsaid
      exact ⟨said, hsaid, .inl ⟨hown, rfl⟩⟩

/-- **The steps in which a message is brought back**: the file of the sample that its report is on, and the rest. -/
theorem exists_message_of_resolve (h : r.resolve d = .ok e) : ∃ before said after offset current,
    d.message = .ok before ∧ e.message = .ok after ∧ r.resolveMessage said offset current = .ok after ∧
      (r.ownFile? d = none ∧ said = before ∨ ∃ file s new, r.ownFile? d = some file ∧ r.sampleAt? file = some s ∧
        (new = s.reference ∨ new = s.fencePlace) ∧ said = before.replaceAll file new) := by
  obtain ⟨kind, fields, said, after, -, hfields, hsaid, hafter, hend⟩ := exists_of_resolve h
  obtain ⟨before, hbefore, hswap⟩ := exists_message_of_resolveFields hfields hsaid
  refine ⟨before, said, after, _, _, hbefore, Draft.message_of_get? ?_, hafter, hswap⟩
  rcases hend with ⟨-, rfl⟩ | ⟨_, _, -, -, rfl⟩
  · exact Keyed.get?_set_self ..
  · rw [Keyed.get?_set_of_ne _ _ (by decide), Keyed.get?_set_self]

/-- **A message that holds no path of the sample files' directory names no sample.** -/
theorem nameSamples_of_absent (h : ∀ root ∈ r.sampleRoot?, ¬ root <:+: t) : r.nameSamples t = t := by
  unfold nameSamples
  cases hroot : r.sampleRoot? with
  | none => rfl
  | some root =>
    have hmisses : Text.Misses root t [] := fun v _ hvt hbegin => h root hroot (by
      rw [List.append_nil] at hbegin
      exact hbegin.isInfix.trans hvt.isInfix)
    have hturns : (samplePath root).Turns (fun m => (.ok (Mention.putSample r m) : Except Empty Text)) (t ++ [])
        (t ++ []) := by
      refine Turns.through (fun v hv hvt b m hm => ?_) Turns.nil
      rw [Mention.matchAt_samplePath_of_misses hmisses hv hvt b] at hm
      cases hm
    rw [List.append_nil] at hturns
    exact substitute_of_turns hturns

/-! ## Blanks -/

/-- **A blank that no sample's file and no document holds.** -/
def Clear (r : Resolver) (x : Char) : Prop :=
  ∀ s ∈ r.samples, x ∉ s.file.toText ∧ ∀ path ∈ s.path, x ∉ path.toText

/-- No blank comes in with a reference, or with the place of an opening fence. -/
theorem not_mem_reference (hx : Text.isBlank x = true) {s : Sample} (hfile : x ∉ s.file.toText) :
    x ∉ s.reference ∧ x ∉ s.fencePlace := by
  simp [Sample.reference, Sample.mark, Sample.fencePlace, hfile, Text.not_mem_ofInt_of_isBlank hx,
    Text.ne_of_isBlank (x := '$') hx (by decide), Text.ne_of_isBlank (x := '-') hx (by decide),
    Text.ne_of_isBlank (x := ':') hx (by decide)]

theorem count_nameSamples (hx : Text.isBlank x = true) (hclear : r.Clear x) (t : Text) :
    (r.nameSamples t).count x = t.count x := by
  unfold nameSamples
  cases r.sampleRoot? with
  | none => rfl
  | some root =>
    have hput := substituteM_ok (ε := Empty) (samplePath root) (Mention.putSample r) t
    have hrewritten : Rewritten (fun w u => u.count x = w.count x) t
        ((samplePath root).substitute (Mention.putSample r) t) := by
      refine rewritten_of_substituteM (fun b t m u hm hu => ?_) hput
      rw [← Except.ok.inj hu, Mention.putSample]
      cases hs : r.sampleAt? m.text with
      | none => rfl
      | some s =>
        have hmem : s ∈ r.samples := List.mem_of_find?_eq_some hs
        have hfile : x ∉ m.text := not_mem_of_sampleAt? hx (fun s hs => (hclear s hs).2) hs
        rw [Option.elim_some, List.count_eq_zero_of_not_mem (not_mem_reference hx (hclear s hmem).1).1,
          List.count_eq_zero_of_not_mem hfile]
    exact hrewritten.count_eq fun _ _ h => h

theorem count_of_resolveMessage (hx : Text.isBlank x = true) (hclear : r.Clear x)
    (h : r.resolveMessage t offset current = .ok t') : t'.count x = t.count x := by
  rw [← count_nameSamples hx hclear t]
  refine (rewritten_of_resolveMessage h).count_eq ?_
  rintro _ _ ⟨c, line, column, rfl, rfl⟩
  obtain ⟨htext, hplaced⟩ := c.blank_not_mem hx
  rw [List.count_eq_zero_of_not_mem htext, List.count_eq_zero_of_not_mem (hplaced _ _)]

/-! ## The fields -/

/-- **The names of a report's fields stay**, and a line only can come new. -/
theorem Becomes.keys (h : r.Becomes d fields) (hmessage : "message" ∈ d.map (·.1)) :
    fields.map (·.1) = d.map (·.1) ∨ fields.map (·.1) = d.map (·.1) ++ ["line"] := by
  have hinteger : ∀ {name : String} {n : Int}, integer? d name = some n → name ∈ d.map (·.1) := by
    intro name n hn
    obtain ⟨value, hvalue, -⟩ := Option.bind_eq_some_iff.1 hn
    exact Keyed.key_mem_of_get? hvalue
  cases h with
  | nowhere => exact .inl rfl
  | plain hvalue =>
    rw [Keyed.keys_set, if_pos (Keyed.key_mem_of_get? hvalue)]
    exact .inl rfl
  | inSample hvalue _ _ _ hl hc =>
    simp only [Keyed.keys_set, Keyed.key_mem_of_get? hvalue, hmessage, hinteger hl, hinteger hc, if_true, true_or]
  | ofSample hvalue =>
    simp only [Keyed.keys_set, Keyed.key_mem_of_get? hvalue, hmessage, if_true, true_or]
  | markedLine hvalue =>
    simp only [Keyed.keys_set, Keyed.key_mem_of_get? hvalue, if_true]
    exact (ite_eq_or_eq _ _ _)
  | marked hvalue _ _ _ hc =>
    have hcolumn := hinteger hc
    simp only [Keyed.keys_set, Keyed.key_mem_of_get? hvalue, if_true]
    by_cases hline : "line" ∈ d.map (·.1)
    · simp only [hline, hcolumn, if_true, true_or]
    · simp only [hline, if_false, List.mem_append, hcolumn, true_or, if_true, or_true]

/-- **A report that says nothing of samples**: its message holds no dollar sign and no path of the sample files'
directory, and its file is none of this directory and does not end in a mark. -/
structure Apart (r : Resolver) (d : Draft) : Prop where
  message : ∀ message, d.message = .ok message → '$' ∉ message ∧ ∀ root ∈ r.sampleRoot?, ¬ root <:+: message
  file : ∀ value file, d.get? "file" = some value → FileUrl.path value = .ok file →
    r.isInSampleDir file = false ∧ Unmarked file

/-- **Another spelling of a report's file**: the path that it leads to, or the spelling under which the path's document
was requested. -/
def Respelled (r : Resolver) (value shown : Text) : Prop :=
  ∃ file place, FileUrl.path value = .ok file ∧ r.absolute file = .ok place ∧
    shown = (r.displayNames.get? place).getD file

/-- The fields of a report that says nothing of samples stay, but for the path that its file leads to. -/
theorem Apart.fields_eq (h : r.Apart d) (hfields : r.resolveFields d offset = .ok fields) :
    d.get? "file" = none ∧ fields = d ∨ ∃ value file, d.get? "file" = some value ∧ FileUrl.path value = .ok file ∧
      Unmarked file ∧ fields = d.set "file" file := by
  unfold resolveFields at hfields
  split at hfields
  · rename_i hvalue
    exact .inl ⟨hvalue, (Except.ok.inj hfields).symm⟩
  · rename_i value hvalue
    obtain ⟨file, hpath, hfields⟩ := bind_eq_ok.1 hfields
    obtain ⟨houtside, hunmarked⟩ := h.file value file hvalue hpath
    refine .inr ⟨value, file, hvalue, hpath, hunmarked, ?_⟩
    dsimp only at hfields
    rw [houtside, if_neg Bool.false_ne_true, resolveMark, matchStart_whole_of_unmarked hunmarked] at hfields
    exact (Except.ok.inj hfields).symm

/-- The message of a report that says nothing of samples stays. -/
theorem resolveMessage_of_apart (hdollar : '$' ∉ t) (hroot : ∀ root ∈ r.sampleRoot?, ¬ root <:+: t)
    (h : r.resolveMessage t offset current = .ok t') : t' = t := by
  obtain ⟨place, _, h⟩ := bind_eq_ok.1 h
  rw [nameSamples_of_absent hroot, Mention.substituteM_embedded_of_not_mem hdollar] at h
  exact (Except.ok.inj h).symm

/-- **A report that says nothing of samples keeps its message and its place**, and its file but for the spelling. -/
theorem Apart.get?_of_resolve (hapart : r.Apart d) (h : r.resolve d = .ok e) :
    (∀ name ∈ ["message", "line", "column"], e.get? name = d.get? name) ∧
      Option.Rel r.Respelled (d.get? "file") (e.get? "file") := by
  obtain ⟨kind, fields, said, message, -, hfields, hsaid, hmessage, hend⟩ := exists_of_resolve h
  have hsame : fields.get? "message" = d.get? "message" := by
    rcases hapart.fields_eq hfields with ⟨-, rfl⟩ | ⟨_, _, -, -, -, rfl⟩
    · rfl
    · exact Keyed.get?_set_of_ne _ _ (by decide)
  have hbefore : d.get? "message" = some said := hsame.symm.trans (Draft.message_eq_ok_iff.1 hsaid)
  obtain ⟨hdollar, hroot⟩ := hapart.message said (Draft.message_of_get? hbefore)
  obtain rfl := resolveMessage_of_apart hdollar hroot hmessage
  rw [Keyed.set_of_get? (Draft.message_eq_ok_iff.1 hsaid)] at hend
  rcases hapart.fields_eq hfields with ⟨hnone, rfl⟩ | ⟨value, file, hvalue, hpath, hunmarked, rfl⟩
  · rcases hend with ⟨-, rfl⟩ | ⟨file, _, hfile, -, -⟩
    · rw [hnone]
      exact ⟨fun _ _ => rfl, .none⟩
    · rw [hnone] at hfile
      cases hfile
  · rcases hend with ⟨hnone, -⟩ | ⟨_, shown, hfile, hshown, rfl⟩
    · rw [Keyed.get?_set_self] at hnone
      cases hnone
    · obtain rfl := Option.some.inj ((Keyed.get?_set_self ..).symm.trans hfile)
      rw [unmarked_eq_self hunmarked] at hshown
      obtain ⟨place, hplace, hshown⟩ := bind_eq_ok.1 hshown
      constructor
      · simp [Keyed.get?_set_of_ne]
      · rw [hvalue, Keyed.get?_set_self]
        exact .some ⟨file, place, hpath, hplace, (Except.ok.inj hshown).symm⟩

/-! ## The report -/

/-- A report that is brought back has a name more than before if it had no line. -/
theorem keys_of_resolve (h : r.resolve d = .ok e) :
    e.map (·.1) = d.map (·.1) ∨ e.map (·.1) = d.map (·.1) ++ ["line"] := by
  obtain ⟨kind, fields, said, message, -, hfields, hsaid, -, hend⟩ := exists_of_resolve h
  obtain ⟨before, hbefore, -⟩ := exists_message_of_resolveFields hfields hsaid
  have hkeys := (becomes_of_resolveFields hfields).keys (Keyed.key_mem_of_get? (Draft.message_eq_ok_iff.1 hbefore))
  have hset := Keyed.keys_set fields "message" message
  rw [if_pos (Keyed.key_mem_of_get? (Draft.message_eq_ok_iff.1 hsaid))] at hset
  rcases hend with ⟨-, rfl⟩ | ⟨file, shown, hfile, -, rfl⟩
  · rwa [hset]
  · rwa [Keyed.keys_set, hset, if_pos (Keyed.key_mem_of_get? hfile)]

/-- **A message has as many lines as before.** -/
theorem length_cutAt_of_resolve (hx : Text.isBlank x = true) (hclear : r.Clear x) (h : r.resolve d = .ok e) :
    ∃ before after, d.message = .ok before ∧ e.message = .ok after ∧
      (after.cutAt x).length = (before.cutAt x).length := by
  obtain ⟨before, said, after, offset, current, hbefore, hafter, hmessage, hswap⟩ := exists_message_of_resolve h
  refine ⟨before, after, hbefore, hafter, ?_⟩
  rw [Text.length_cutAt, Text.length_cutAt, count_of_resolveMessage hx hclear hmessage]
  rcases hswap with ⟨-, rfl⟩ | ⟨file, s, new, -, hsample, hnew, rfl⟩
  · rfl
  · have hfile : x ∉ file := not_mem_of_sampleAt? hx (fun s hs => (hclear s hs).2) hsample
    obtain ⟨hreference, hfence⟩ := not_mem_reference hx (hclear s (List.mem_of_find?_eq_some hsample)).1
    have hput : x ∉ new := by
      rcases hnew with rfl | rfl
      · exact hreference
      · exact hfence
    rw [Text.count_replaceAll hfile hput]

/-- **What stays of a report**: all fields but four, and the names of all of them, a line alone coming new; if the
report says nothing of samples, all that it says; and the number of the lines of its message, whatever character ends a
line. -/
theorem resolve_kept (h : r.resolve d = .ok e) :
    (∀ name, name ∉ placed → e.get? name = d.get? name) ∧
    (e.map (·.1) = d.map (·.1) ∨ e.map (·.1) = d.map (·.1) ++ ["line"]) ∧
    (r.Apart d → (∀ name ∈ ["message", "line", "column"], e.get? name = d.get? name) ∧
      Option.Rel r.Respelled (d.get? "file") (e.get? "file")) ∧
    ∀ x, Text.isBlank x = true → r.Clear x → ∃ before after, d.message = .ok before ∧ e.message = .ok after ∧
      (after.cutAt x).length = (before.cutAt x).length :=
  ⟨fun _ hname => r.resolve_get?_of_ne h hname, keys_of_resolve h, fun hapart => hapart.get?_of_resolve h,
    fun _ hx hclear => length_cutAt_of_resolve hx hclear h⟩

/-- A report that says nothing of samples, and one on a mark whose message names a sample. -/
theorem resolve_kept_twice :
    let s : Sample := ⟨.ofAbsolute ["p".toList, "a.ts".toList], 1, 1, 1, [], some "ts".toList, "x\n".toList,
      some (.ofAbsolute ["t".toList, "x$1-3.ts".toList])⟩
    let r : Resolver :=
      { cwd := .ofAbsolute ["w".toList]
        samples := [s]
        sampleDir := some (.ofAbsolute ["t".toList])
        displayNames := [(.ofAbsolute ["w".toList, "b.ts".toList], "./b.ts".toList)] }
    let apart : Draft := [("kind", "check".toList), ("code", "TS1".toList), ("message", "1:2\nin /tt/x.ts:3:4".toList),
      ("file", "file:///w/b%2Ets".toList), ("column", "x".toList)]
    let marked : Draft := [("kind", "check".toList), ("message", "in\n/t/x$1-3.ts:1:2\n".toList),
      ("file", "/w/b.ts$4-6.ts".toList)]
    r.Apart apart ∧ r.Clear '\n' ∧
      (∃ e, r.resolve apart = .ok e ∧ e.get? "code" = some "TS1".toList ∧
        (∀ name ∈ ["message", "line", "column"], e.get? name = apart.get? name) ∧
        e.get? "file" = some "./b.ts".toList) ∧
      ∃ e, r.resolve marked = .ok e ∧ e.map (·.1) = ["kind", "message", "file", "line"] ∧
        ∃ message, e.message = .ok message ∧ (message.cutAt '\n').length = 3 := by
  intro s r apart marked
  have hapart : r.Apart apart :=
    { message := fun message hmessage => by
        obtain rfl := Except.ok.inj hmessage
        refine ⟨by decide, ?_⟩
        rintro root ⟨⟩
        rw [← Text.occursIn_iff]
        decide +kernel
      file := fun value file hvalue hpath => by
        obtain rfl := Option.some.inj hvalue
        have hfile : FileUrl.path "file:///w/b%2Ets".toList = .ok "/w/b.ts".toList := by rfl
        obtain rfl := Except.ok.inj (hfile.symm.trans hpath)
        exact ⟨by decide +kernel, unmarked_of_dollar_not_mem (by decide)⟩ }
  have hclear : r.Clear '\n' := by
    intro u hu
    rw [List.mem_singleton.1 hu]
    refine ⟨by decide +kernel, ?_⟩
    rintro _ ⟨⟩
    decide +kernel
  refine ⟨hapart, hclear, ?_, ?_⟩
  · have hshown : (r.resolve apart).toOption.bind (·.get? "file") = some "./b.ts".toList := by decide +kernel
    obtain ⟨e, he⟩ : Succeeds (r.resolve apart) := by decide +kernel
    obtain ⟨hframe, -, hall, -⟩ := resolve_kept he
    rw [he] at hshown
    exact ⟨e, he, hframe "code" (by decide), (hall hapart).1, hshown⟩
  · have hline : (r.resolve marked).toOption.bind (·.get? "line") = some "4".toList := by decide +kernel
    obtain ⟨e, he⟩ : Succeeds (r.resolve marked) := by decide +kernel
    obtain ⟨-, hkeys, -, hlines⟩ := resolve_kept he
    rw [he] at hline
    have hnew : "line" ∈ e.map (·.1) := Keyed.key_mem_of_get? hline
    obtain ⟨before, after, hbefore, hafter, hlength⟩ := hlines '\n' (by decide) hclear
    obtain rfl := Except.ok.inj hbefore
    refine ⟨e, he, hkeys.resolve_left fun hsame => ?_, after, hafter, hlength⟩
    rw [hsame] at hnew
    exact absurd hnew (by decide)

/-- A report that says nothing of samples and whose path does not end in a mark, but in a mark and a line feed: it gets
a line, and its path loses the mark. -/
theorem resolve_unkept :
    let r : Resolver := { cwd := .ofAbsolute [] }
    let file : Text := "/project/x$1-2\n".toList
    let d : Draft := [("kind", "check".toList), ("message", ['m']), ("file", file)]
    FileUrl.path file = .ok file ∧ r.isInSampleDir file = false ∧ (∀ stem mark, IsMark mark → file ≠ stem ++ mark) ∧
      ∃ e, r.resolve d = .ok e ∧ d.get? "line" = none ∧ e.get? "line" = some "1".toList ∧
        e.get? "file" = some "/project/x\n".toList ∧ ¬ r.Respelled file "/project/x\n".toList := by
  intro r file d
  have hpath : FileUrl.path file = .ok file := by rfl
  obtain ⟨e, he⟩ : Succeeds (r.resolve d) := by decide +kernel
  have hfields : (r.resolve d).toOption.map (fun e => (e.get? "line", e.get? "file")) =
      some (some "1".toList, some "/project/x\n".toList) := by
    decide +kernel
  rw [he] at hfields
  obtain ⟨hline, hfile⟩ := Prod.mk.inj (Option.some.inj hfields)
  refine ⟨hpath, by decide, fun stem mark hmark => hmark.ne_append_newline stem "/project/x$1-2".toList, e, he, rfl,
    hline, hfile, ?_⟩
  rintro ⟨other, place, hother, -, hshown⟩
  obtain rfl := Except.ok.inj (hpath.symm.trans hother)
  -- no spelling is requested, so the path would be its own
  have hsame : "/project/x\n".toList = file := hshown
  exact absurd hsame (by decide)

end Resolver

end Fenceline
