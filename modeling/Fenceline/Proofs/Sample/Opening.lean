import Fenceline.Proofs.Pattern.Reading
import Fenceline.Proofs.Text.Places
import Fenceline.Proofs.Text.Trim
import Fenceline.Sample.Fence

/-!
# What opens a fence, and what closes it

A line opens a fence when it is an indent, three backticks, the name of a language or none, and spaces
(`Fence.Opens`). The backticks are the last ones of the line, so there is one way to see it so; the lead is
what is left of the indent when the spaces at its end are taken off. A line closes a fence when it is the
indent, three backticks and spaces (`Fence.Closes`).

**The law** (`read?_eq_some_iff`): the pattern for opening fences reads a line as a fence just if the line
opens this fence.
-/

namespace Fenceline

open Pattern

namespace Fence

variable {f g : Fence} {line : Text} {b : Option Char} {c d e : Cursor} {caps : List Capture}

/-- **A line that opens a fence.** -/
structure Opens (f : Fence) (line : Text) : Prop where
  parts : ∃ word spaces : Text, (∀ x ∈ word, Text.isWord x = true) ∧ (∀ x ∈ spaces, x = ' ') ∧
    f.language = (if word = [] then none else some word) ∧ line = f.indent ++ (marker ++ (word ++ spaces))
  lead : f.lead = f.indent.dropEndWhile isSpace

/-- **A line that closes a fence.** -/
def Closes (f : Fence) (line : Text) : Prop :=
  ∃ n, line = f.indent ++ marker ++ List.replicate n ' '

theorem eq_space_of_isSpace {x : Char} (h : isSpace x = true) : x = ' ' :=
  eq_of_beq h

theorem isSpace_of_eq_space {x : Char} (h : x = ' ') : isSpace x = true :=
  beq_iff_eq.2 h

theorem isClosedBy_iff : f.isClosedBy line = true ↔ f.Closes line := by
  constructor
  · intro h
    obtain ⟨run, hrun, hline⟩ := Text.exists_run isSpace line
    rw [isClosedBy, beq_iff_eq] at h
    rw [h] at hline
    exact ⟨run.length, by
      rw [← List.eq_replicate_length.2 fun x hx => eq_space_of_isSpace (hrun x hx), ← hline]⟩
  · rintro ⟨n, rfl⟩
    exact isClosedBy_indent f n

/-! ## The last backticks of a line -/

/-- A text without backticks behind three of them tells where these stand. -/
theorem eq_of_append_marker {p q x y : Text} (hx : '\x60' ∉ x) (hy : '\x60' ∉ y)
    (h : p ++ (marker ++ x) = q ++ (marker ++ y)) : p = q ∧ x = y := by
  have hreverse : x.reverse ++ '\x60' :: (['\x60', '\x60'] ++ p.reverse) =
      y.reverse ++ '\x60' :: (['\x60', '\x60'] ++ q.reverse) := by
    simpa [marker] using congrArg List.reverse h
  obtain ⟨hbehind, hbefore⟩ := Text.eq_of_append_cons (fun h => hx (List.mem_reverse.1 h))
    (fun h => hy (List.mem_reverse.1 h)) hreverse
  exact ⟨List.reverse_inj.1 (List.append_cancel_left hbefore), List.reverse_inj.1 hbehind⟩

theorem backtick_not_mem {word spaces : Text} (hword : ∀ x ∈ word, Text.isWord x = true)
    (hspaces : ∀ x ∈ spaces, x = ' ') : '\x60' ∉ word ++ spaces := by
  rw [List.mem_append, not_or]
  exact ⟨fun h => absurd (hword _ h) (by decide +kernel), fun h => absurd (hspaces _ h) (by decide)⟩

theorem isWord_space : Text.isWord ' ' = false := by decide +kernel

/-- The word in front of spaces is what is left without them. -/
theorem dropEndWhile_word {word spaces : Text} (hword : ∀ x ∈ word, Text.isWord x = true)
    (hspaces : ∀ x ∈ spaces, x = ' ') : (word ++ spaces).dropEndWhile isSpace = word := by
  rw [Text.dropEndWhile_append_of_all fun x hx => isSpace_of_eq_space (hspaces x hx)]
  refine Text.dropEndWhile_of_getLast? fun x hx => Bool.eq_false_iff.2 fun hspace => ?_
  have hlast := hword x (List.mem_of_getLast? hx)
  rw [eq_space_of_isSpace hspace, isWord_space] at hlast
  cases hlast

/-- **A line opens one fence at most.** -/
theorem Opens.unique (hf : f.Opens line) (hg : g.Opens line) : f = g := by
  obtain ⟨word, spaces, hword, hspaces, hlanguage, hline⟩ := hf.parts
  obtain ⟨word', spaces', hword', hspaces', hlanguage', hline'⟩ := hg.parts
  obtain ⟨hindent, hbehind⟩ := eq_of_append_marker (backtick_not_mem hword hspaces)
    (backtick_not_mem hword' hspaces') (hline.symm.trans hline')
  have hwords : word = word' := by
    rw [← dropEndWhile_word hword hspaces, hbehind, dropEndWhile_word hword' hspaces']
  have hlead : f.lead = g.lead := by rw [hf.lead, hg.lead, hindent]
  have hnames : f.language = g.language := by rw [hlanguage, hlanguage', hwords]
  cases f
  cases g
  exact Fence.mk.injEq .. ▸ ⟨hindent, hlead, hnames⟩

/-- The name of a language is a word. -/
theorem Opens.language_isWord (h : f.Opens line) :
    ∀ c ∈ f.language.getD [], Text.isWord c = true := by
  obtain ⟨word, -, hword, -, hlanguage, -⟩ := h.parts
  by_cases hempty : word = []
  · simp [hlanguage, hempty]
  · simpa [hlanguage, hempty] using hword

/-- Without the spaces at its end a line opens the same fence. -/
theorem Opens.bare (h : f.Opens line) :
    f.Opens (f.indent ++ (Fence.marker ++ f.language.getD [])) := by
  obtain ⟨word, -, hword, -, hlanguage, -⟩ := h.parts
  refine ⟨⟨word, [], hword, List.forall_mem_nil _, hlanguage, ?_⟩, h.lead⟩
  by_cases hempty : word = []
  · simp [hlanguage, hempty]
  · simp [hlanguage, hempty]

/-! ## Reading an opening fence -/

/-- What stands behind the indent of an opening fence. -/
def named : Pattern :=
  all [literal marker, opt (group "language" word), many .greedy isSpace, atEnd]

/-- The indent of an opening fence, and the lead in it. -/
def indented : Pattern :=
  group "indent" (.seq (group "lead" something) (many .greedy isSpace))

theorem opening_eq : opening = .seq atStart (.seq indented named) := rfl

/-- Whatever is read behind an indent is three backticks, a word and spaces. -/
theorem parts_of_mem_named (hd : d ∈ named.results c) (hline : '\n' ∉ c.ahead) :
    ∃ word spaces : Text, (∀ x ∈ word, Text.isWord x = true) ∧ (∀ x ∈ spaces, x = ' ') ∧
      c.ahead = marker ++ (word ++ spaces) := by
  simp only [named, all] at hd
  rw [results, List.mem_flatMap] at hd
  obtain ⟨e, he, hd⟩ := hd
  have hmarker := ahead_of_mem_literal he
  rw [results, List.mem_flatMap] at hd
  obtain ⟨g, hg, hd⟩ := hd
  rw [results, List.mem_flatMap] at hd
  obtain ⟨h, hh, hd⟩ := hd
  obtain ⟨spaces, hspaces, hahead⟩ := run_of_mem_many hh
  obtain ⟨word, hword, hnamed⟩ : ∃ word : Text, (∀ x ∈ word, Text.isWord x = true) ∧
      e.ahead = word ++ g.ahead := by
    rw [results, List.mem_append, List.mem_singleton] at hg
    rcases hg with hg | rfl
    · rw [results, List.mem_map] at hg
      obtain ⟨g, hg, rfl⟩ := hg
      rw [Pattern.word, some1, results, List.mem_flatMap] at hg
      obtain ⟨i, hi, hg⟩ := hg
      obtain ⟨x, hx, hfirst⟩ := ahead_of_mem_one hi
      obtain ⟨run, hrun, hrest⟩ := run_of_mem_many hg
      exact ⟨x :: run, List.forall_mem_cons.2 ⟨hx, hrun⟩, by rw [hfirst, hrest]; rfl⟩
    · exact ⟨[], List.forall_mem_nil _, rfl⟩
  rw [hmarker, hnamed, hahead] at hline ⊢
  have hend : h.ahead = [] := ahead_of_mem_atEnd hd fun hmem => hline (by simp [hmem])
  refine ⟨word, spaces, hword, fun x hx => eq_space_of_isSpace (hspaces x hx), ?_⟩
  rw [hend, List.append_nil]

/-- What names the language of a fence. -/
def languageCaptures (word spaces : Text) (caps : List Capture) : List Capture :=
  if word = [] then caps else ⟨"language", word ++ spaces, spaces⟩ :: caps

/-- A word is read as the language, and nothing where there is none. -/
theorem first_language {w spaces : Text} (hword : ∀ x ∈ w, Text.isWord x = true)
    (hspaces : ∀ x ∈ spaces, x = ' ') (b : Option Char) (caps : List Capture) :
    (opt (group "language" word)).First ⟨b, w ++ spaces, caps⟩
      ⟨behind b w, spaces, languageCaptures w spaces caps⟩ := by
  have hedge : ∀ x ∈ spaces.head?, Text.isWord x = false := by
    intro x hx
    rw [hspaces x (List.mem_of_mem_head? hx), isWord_space]
  by_cases hw : w = []
  · subst hw
    rw [languageCaptures, if_pos rfl]
    refine first_opt_of_results (List.eq_nil_iff_forall_not_mem.2 fun d hd => ?_)
    rw [results, List.mem_map] at hd
    obtain ⟨d, hd, -⟩ := hd
    rw [word, some1, results, List.mem_flatMap] at hd
    obtain ⟨e, he, -⟩ := hd
    obtain ⟨x, hx, hahead⟩ := ahead_of_mem_one he
    have hhead : spaces = x :: e.ahead := hahead
    rw [hedge x (by rw [hhead]; rfl)] at hx
    cases hx
  · rw [languageCaptures, if_neg hw]
    exact (first_some1 hw hword hedge).group.opt

/-- Three backticks, a word and spaces are read to their end. -/
theorem first_named {w spaces : Text} (hword : ∀ x ∈ w, Text.isWord x = true)
    (hspaces : ∀ x ∈ spaces, x = ' ') (b : Option Char) (caps : List Capture) :
    ∃ b', named.First ⟨b, marker ++ (w ++ spaces), caps⟩ ⟨b', [], languageCaptures w spaces caps⟩ := by
  have hmarker : (literal marker).First ⟨b, marker ++ (w ++ spaces), caps⟩
      ⟨behind b marker, w ++ spaces, caps⟩ := by
    rw [First, results_literal]
    rfl
  have hblanks : ∀ b caps, (many .greedy isSpace).First ⟨b, spaces, caps⟩ ⟨behind b spaces, [], caps⟩ := by
    intro b caps
    have h : (many .greedy isSpace).First ⟨b, spaces ++ [], caps⟩ ⟨behind b spaces, [], caps⟩ :=
      first_greedy (fun x hx => isSpace_of_eq_space (hspaces x hx)) (by simp)
    rwa [List.append_nil] at h
  exact ⟨_, hmarker.seq ((first_language hword hspaces _ caps).seq ((hblanks _ _).seq (first_atEnd rfl)))⟩

/-- What an indent and the lead in it are named. -/
def indentCaptures (lead spaces rest : Text) : List Capture :=
  [⟨"indent", lead ++ spaces ++ rest, rest⟩, ⟨"lead", lead ++ spaces ++ rest, spaces ++ rest⟩]

/-- **No backticks follow where a lead stops before its end**: what is left of the lead ends in no space, so
the spaces that are skipped there stop before it does. -/
theorem results_named_of_short {u spaces w tail : Text} {hu : u ≠ []} (hend : isSpace (u.getLast hu) = false)
    (hword : ∀ x ∈ w, Text.isWord x = true) (htail : ∀ x ∈ tail, x = ' ')
    (hline : '\n' ∉ u ++ spaces ++ (marker ++ (w ++ tail)))
    (hahead : c.ahead = u ++ (spaces ++ (marker ++ (w ++ tail))))
    (hd : d ∈ (many .greedy isSpace).results c) : named.results (e.capture "indent" d) = [] := by
  refine List.eq_nil_iff_forall_not_mem.2 fun g hg => ?_
  obtain ⟨run, hrun, hskipped⟩ := run_of_mem_many hd
  have hstands : u ++ spaces ++ (marker ++ (w ++ tail)) = run ++ d.ahead := by
    rw [List.append_assoc, ← hahead]
    exact hskipped
  rw [hstands] at hline
  obtain ⟨w', tail', hword', htail', hnamed⟩ := parts_of_mem_named hg fun h => hline (List.mem_append_right _ h)
  have hnamed : d.ahead = marker ++ (w' ++ tail') := hnamed
  rw [hnamed] at hstands
  obtain ⟨hrun', -⟩ := eq_of_append_marker (backtick_not_mem hword htail)
    (backtick_not_mem hword' htail') hstands
  -- all that was skipped is spaces, and the end of `u` would be one of them
  rw [hrun _ (hrun' ▸ List.mem_append_left _ (List.getLast_mem hu))] at hend
  cases hend

/-- **The indent of an opening fence is read with its shortest lead.** Of the ways to read an indent, those
with a shorter lead stop before the spaces do, and no backticks follow there. -/
theorem first_indented {lead spaces w tail : Text} (hlead : ∀ x ∈ lead, notNewline x = true)
    (hlast : ∀ x ∈ lead.getLast?, isSpace x = false) (hspaces : ∀ x ∈ spaces, x = ' ')
    (hword : ∀ x ∈ w, Text.isWord x = true) (htail : ∀ x ∈ tail, x = ' ')
    (hline : '\n' ∉ lead ++ spaces ++ (marker ++ (w ++ tail))) :
    ∃ b, (Pattern.seq indented named).First ⟨none, lead ++ spaces ++ (marker ++ (w ++ tail)), []⟩
      ⟨b, [], languageCaptures w tail (indentCaptures lead spaces (marker ++ (w ++ tail)))⟩ := by
  let rest := marker ++ (w ++ tail)
  let start : Cursor := ⟨none, lead ++ spaces ++ rest, []⟩
  let behindLead : Cursor := ⟨behind none lead, spaces ++ rest, []⟩
  -- the ways to read a lead: some that end within it, and then the one that is wanted
  obtain ⟨short, long, hlazy, hshort⟩ := results_lazy_run none [] hlead (spaces ++ rest)
  have hleads : something.results start = short ++ behindLead :: long := by
    rw [← hlazy, ← List.append_assoc]
    rfl
  have hbacktick : ∀ x ∈ rest.head?, isSpace x = false := by
    intro x hx
    obtain rfl := Option.some.inj hx
    rfl
  have hblanks : (many .greedy isSpace).First
      ⟨behind none lead, spaces ++ rest, [⟨"lead", lead ++ spaces ++ rest, spaces ++ rest⟩]⟩
      ⟨behind (behind none lead) spaces, rest, [⟨"lead", lead ++ spaces ++ rest, spaces ++ rest⟩]⟩ :=
    first_greedy (fun x hx => isSpace_of_eq_space (hspaces x hx)) hbacktick
  obtain ⟨fewer, hfewer⟩ := List.head?_eq_some_iff.1 hblanks
  have hindents : indented.results start =
      ((short.map (start.capture "lead")).flatMap (many .greedy isSpace).results).map
          (start.capture "indent") ++
        ⟨behind (behind none lead) spaces, rest, indentCaptures lead spaces rest⟩ ::
          (fewer ++ (long.map (start.capture "lead")).flatMap (many .greedy isSpace).results).map
            (start.capture "indent") := by
    have hcapture : start.capture "lead" behindLead = ⟨behind none lead, spaces ++ rest,
        [⟨"lead", lead ++ spaces ++ rest, spaces ++ rest⟩]⟩ := rfl
    rw [indented, results, results, results, hleads, List.map_append, List.map_cons, List.flatMap_append,
      List.flatMap_cons, hcapture, hfewer, List.map_append, List.cons_append, List.map_cons]
    rfl
  have hdead : ∀ x ∈ ((short.map (start.capture "lead")).flatMap (many .greedy isSpace).results).map
      (start.capture "indent"), named.results x = [] := by
    simp only [List.mem_map, List.mem_flatMap]
    rintro _ ⟨y, ⟨_, ⟨x, hx, rfl⟩, hy⟩, rfl⟩
    obtain ⟨u, hu, ⟨v, rfl⟩, hahead⟩ := hshort x hx
    have hahead : (start.capture "lead" x).ahead = u ++ (spaces ++ rest) := hahead
    have hend : isSpace (u.getLast hu) = false := hlast (u.getLast hu) (by
      rw [List.getLast?_append_of_ne_nil v hu]
      exact List.getLast?_eq_getLast_of_ne_nil hu)
    have hrest : '\n' ∉ u ++ spaces ++ (marker ++ (w ++ tail)) := fun h => hline (by
      rw [List.append_assoc v, List.append_assoc v]
      exact List.mem_append_right _ h)
    exact results_named_of_short hend hword htail hrest hahead hy
  obtain ⟨b, hnamed⟩ := first_named hword htail (behind (behind none lead) spaces)
    (indentCaptures lead spaces rest)
  exact ⟨b, first_seq_of_dead hindents hdead hnamed⟩

/-- The parts of an opening fence that were read. -/
theorem captures_opening (lead spaces w tail : Text) (b : Option Char) :
    let rest := marker ++ (w ++ tail)
    let m : Match := ⟨lead ++ spaces ++ rest,
      ⟨b, [], languageCaptures w tail (indentCaptures lead spaces rest)⟩⟩
    m.get "indent" = lead ++ spaces ∧ m.get "lead" = lead ∧
      m.get? "language" = if w = [] then none else some w := by
  intro rest m
  have hindent : m.get? "indent" = some (lead ++ spaces) ∧ m.get? "lead" = some lead := by
    have hnames : (⟨"indent", lead ++ spaces ++ rest, rest⟩ : Capture).text = lead ++ spaces ∧
        (⟨"lead", lead ++ spaces ++ rest, spaces ++ rest⟩ : Capture).text = lead :=
      ⟨text_capture _ _ _, by rw [List.append_assoc]; exact text_capture _ _ _⟩
    by_cases hw : w = []
    · simpa [m, Match.get?, languageCaptures, indentCaptures, hw] using hnames
    · simpa [m, Match.get?, languageCaptures, indentCaptures, hw] using hnames
  refine ⟨by rw [Match.get, hindent.1]; rfl, by rw [Match.get, hindent.2]; rfl, ?_⟩
  by_cases hw : w = []
  · simp [m, Match.get?, languageCaptures, indentCaptures, hw]
  · simp [m, Match.get?, languageCaptures, hw, text_capture]

/-- What opens a fence is read as this fence. -/
theorem Opens.read?_eq (h : f.Opens line) (hline : '\n' ∉ line) : read? line = some f := by
  obtain ⟨w, tail, hword, htail, hlanguage, rfl⟩ := h.parts
  obtain ⟨spaces, hspaces, hindent⟩ := Text.exists_run isSpace f.indent
  rw [← h.lead] at hindent
  rw [hindent] at hline ⊢
  have hlead : '\n' ∉ f.lead := fun hmem => hline (List.mem_append_left _ (List.mem_append_left _ hmem))
  have hends : ∀ x ∈ f.lead.getLast?, isSpace x = false := fun x hx =>
    Text.getLast?_dropEndWhile (by rw [← h.lead]; exact hx)
  obtain ⟨b, hfirst⟩ := first_indented (notNewline_of_not_mem hlead) hends (fun x hx => eq_space_of_isSpace (hspaces x hx))
    hword htail hline
  have hstart : atStart.First ⟨none, f.lead ++ spaces ++ (marker ++ (w ++ tail)), []⟩
      ⟨none, f.lead ++ spaces ++ (marker ++ (w ++ tail)), []⟩ := rfl
  have hmatch := matchAt_of_first (hstart.seq hfirst)
  rw [← opening_eq] at hmatch
  obtain ⟨hgetIndent, hgetLead, hgetLanguage⟩ := captures_opening f.lead spaces w tail b
  rw [read?, matchStart, hmatch, Option.map_some, hgetIndent, hgetLead, hgetLanguage, ← hlanguage,
    ← hindent]

/-- **The pattern reads what opens a fence**, and nothing else. -/
theorem read?_eq_some_iff (hline : '\n' ∉ line) : read? line = some f ↔ f.Opens line := by
  refine ⟨fun h => ?_, fun h => h.read?_eq hline⟩
  obtain ⟨m, hm, -⟩ := Option.map_eq_some_iff.1 h
  have hmem := mem_results_of_matchAt hm
  rw [opening_eq, results, List.mem_flatMap] at hmem
  obtain ⟨start, hstart, hmem⟩ := hmem
  have hstart : start = ⟨none, line, []⟩ := List.mem_singleton.1 hstart
  rw [hstart, results, List.mem_flatMap] at hmem
  obtain ⟨e, he, hmem⟩ := hmem
  obtain ⟨p, hp⟩ : e.ahead <:+ line := ahead_of_mem_results indented he
  obtain ⟨w, tail, hword, htail, hahead⟩ := parts_of_mem_named hmem
    (fun hnewline => hline (hp ▸ List.mem_append_right p hnewline))
  rw [hahead] at hp
  have hopens : Opens ⟨p, Text.dropEndWhile isSpace p, if w = [] then none else some w⟩ line :=
    ⟨⟨w, tail, hword, htail, rfl, hp.symm⟩, rfl⟩
  rw [hopens.read?_eq hline] at h
  rwa [← Option.some.inj h]

end Fence

end Fenceline
