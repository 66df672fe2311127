import Fenceline.Proofs.Location.Free
import Fenceline.Proofs.Location.Kept
import Mathlib.Data.Bool.AllAny

/-!
# Sample files that a message no longer names

The files of samples are gone when a report is read, so a message had better not name them.

**The law** (`resolve_hidden`): a message that is brought back does not hold the path of a known sample, if the path was
unambiguous in it (`Unambiguous`): it stood free, or was the file of the report, and any other dollar sign in a dotted
name stood alone in its word. The name of a sample is dotted behind its dollar sign; so once each such name is
accounted for (`Accounted`), no sample can be named any more.

**What the law has to leave out.** A name goes on behind a quote, a bracket and a comma, so a path in quotes is none of
a known sample; the second part of the law says so for every character of a name, and `resolve_shown` for a quote.
-/

namespace Fenceline

open Pattern Reference

namespace Resolver

variable {r : Resolver} {directory : Absolute} {s : Sample} {a b t new : Text} {own : Option Text}

/-! ## Dollar signs that are accounted for -/

/-- **A dollar sign of a sample's path** that stands free in a text, or is to be replaced. -/
def Held (r : Resolver) (directory : Absolute) (own : Option Text) (before behind : Text) : Prop :=
  ∃ s ∈ r.samples, ∃ front p q back, s.place = p ++ '$' :: q ∧ before = front ++ p ∧ behind = q ++ back ∧
    (own = some s.place ∨ Free directory front s.place back)

theorem held_iff : r.Held directory own a b ↔ ∃ s ∈ r.samples, ∃ i ∈ Text.places ['$'] s.place,
    s.place.take i <:+ a ∧ s.place.drop (i + 1) <+: b ∧ (own = some s.place ∨
      Free directory (a.take (a.length - i)) s.place (b.drop (s.place.drop (i + 1)).length)) := by
  refine exists_congr fun s => and_congr_right fun _ => ?_
  constructor
  · rintro ⟨front, p, q, back, hplace, rfl, rfl, hfree⟩
    have hp : s.place.take p.length = p := by rw [hplace, List.take_left]
    have hq : s.place.drop (p.length + 1) = q := by rw [hplace]; simp
    refine ⟨p.length, Text.mem_places_iff.2 ⟨p, q, by rw [hplace]; simp, rfl⟩, ?_⟩
    rw [hp, hq, List.length_append, Nat.add_sub_cancel, List.take_left, List.drop_left]
    exact ⟨List.suffix_append front p, List.prefix_append q back, hfree⟩
  · rintro ⟨i, hi, ⟨front, hfront⟩, ⟨back, hback⟩, hfree⟩
    obtain ⟨p, q, hplace, rfl⟩ := Text.mem_places_iff.1 hi
    have hp : s.place.take p.length = p := by rw [hplace, List.append_assoc, List.take_left]
    have hq : s.place.drop (p.length + 1) = q := by rw [hplace]; simp
    rw [hp] at hfront
    rw [hq] at hback hfree
    subst hfront hback
    rw [List.length_append, Nat.add_sub_cancel, List.take_left, List.drop_left] at hfree
    exact ⟨front, p, q, back, by rw [hplace]; simp, rfl, rfl, hfree⟩

instance (r : Resolver) (directory : Absolute) (own : Option Text) (before behind : Text) :
    Decidable (r.Held directory own before behind) :=
  decidable_of_iff _ held_iff.symm

/-- **All dotted names of a text are those of samples**, if they have a dollar sign. -/
def Accounted (r : Resolver) (directory : Absolute) (own : Option Text) (t : Text) : Prop :=
  ∀ a b, t = a ++ '$' :: b → ¬ Dotless b → r.Held directory own a b

/-- A name of a sample ends in front of a character that is none of a name. -/
theorem Held.left {x : Char} (h : r.Held directory own t (a ++ x :: b)) (hr : r.Housed directory)
    (hx : inSampleName x = false) : r.Held directory own t a := by
  obtain ⟨s, hs, front, p, q, back, hplace, hbefore, hbehind, hfree⟩ := h
  obtain ⟨p', -, hall⟩ := hr.split_place hs hplace
  obtain ⟨rest, rfl⟩ : q <+: a := by
    refine Text.prefix_of_not_mem (x := x) (b := b) (fun hmem => ?_) ⟨back, hbehind.symm⟩
    rw [hall x (by simp [hmem])] at hx
    cases hx
  rw [List.append_assoc, List.append_cancel_left_eq] at hbehind
  subst hbehind
  exact ⟨s, hs, front, p, q, rest, hplace, hbefore, rfl, hfree.imp_right Free.of_behind⟩

/-- A path of a sample begins behind a blank. -/
theorem Held.right {x : Char} (h : r.Held directory own (a ++ x :: b) t) (hr : r.Housed directory)
    (hx : Text.isBlank x = true) : r.Held directory own b t := by
  obtain ⟨s, hs, front, p, q, back, hplace, hbefore, hbehind, hfree⟩ := h
  obtain ⟨rest, rfl⟩ : p <:+ b := by
    have hboth : p <:+ (a ++ [x]) ++ b := ⟨front, by rw [← hbefore]; simp⟩
    rcases Text.suffix_append_cases hboth with hpb | ⟨y, hy, hya, rfl⟩
    · exact hpb
    · obtain ⟨y, rfl, -⟩ := (List.suffix_concat_iff.1 hya).resolve_left hy
      exact absurd (by rw [hplace]; simp) (hr.blank_not_mem_place hs hx)
  rw [← List.cons_append, ← List.append_assoc, List.append_cancel_right_eq] at hbefore
  subst hbefore
  exact ⟨s, hs, rest, p, q, back, hplace, rfl, hbehind, hfree.imp_right fun hfree =>
    Free.of_append (a := a ++ [x]) (by simpa using hfree)⟩

namespace Accounted

/-- In front of a sample's path. -/
theorem left (h : r.Accounted directory own (a ++ (s.place ++ b))) (hr : r.Housed directory) (hs : s ∈ r.samples) :
    r.Accounted directory own a := by
  rintro u v rfl hdot
  obtain ⟨tail, hslash⟩ := hr.exists_slash hs
  refine Held.left (h u (v ++ '/' :: (tail ++ b)) (by simp [hslash]) ?_) hr (by decide)
  rwa [Dotless, leadingName_append_cons (by decide)]

/-- Behind a sample's path, if its name does not go on to a dot. -/
theorem right (h : r.Accounted directory own (a ++ (s.place ++ b))) (hr : r.Housed directory) (hs : s ∈ r.samples)
    (hb : Dotless b) : r.Accounted directory own b := by
  rintro u v rfl hdot
  obtain ⟨u', hu, front, p, q, back, hplace, hbefore, hbehind, hfree⟩ :=
    h (a ++ (s.place ++ u)) v (by simp) hdot
  obtain ⟨p', hp, hall⟩ := hr.split_place hu hplace
  obtain ⟨rest, rfl⟩ : p <:+ u := by
    have hboth : p <:+ (a ++ s.place) ++ u := ⟨front, by rw [← hbefore, List.append_assoc]⟩
    rcases Text.suffix_append_cases hboth with hpu | ⟨y, hy, hya, rfl⟩
    · exact hpu
    · -- else the name of the second sample would go on from the first one
      obtain ⟨z, rfl⟩ := (hr.closed_place hs).inside_of_append hy hya (hp ▸ List.prefix_append _ p')
      rw [List.append_assoc, List.append_cancel_left_eq] at hp
      subst hp
      have hname : ∀ x ∈ u ++ ['$'], inSampleName x = true := fun x hx => hall x (by grind)
      refine absurd (fun hmem => hb ?_) hdot
      rw [← List.singleton_append, ← List.append_assoc, leadingName_append hname]
      exact List.mem_append_right _ hmem
  rw [← List.append_assoc, ← List.append_assoc, List.append_cancel_right_eq] at hbefore
  refine ⟨u', hu, rest, p, q, back, hplace, rfl, hbehind, hfree.imp_right fun hfree => ?_⟩
  rw [← hbefore] at hfree
  exact hfree.of_append

/-- **On both sides of a text in the place of a sample's path**, and in it. -/
theorem append (ha : r.Accounted directory none a) (hb : r.Accounted directory none b) (hr : r.Housed directory)
    (hnew : IsPlace directory new) (hname : Dotless b) : r.Accounted directory none (a ++ (new ++ b)) := by
  intro u v heq hdot
  rcases Text.append_eq_append_cons heq with ⟨w, rfl, rfl⟩ | ⟨w, rfl, hw⟩
  · obtain ⟨rest, rfl⟩ := hnew.begins
    rw [List.cons_append, Dotless, leadingName_append_cons (by decide)] at hdot
    obtain ⟨s, hs, front, p, q, back, hplace, hbefore, rfl, hfree⟩ := ha u w rfl hdot
    refine ⟨s, hs, front, p, q, _, hplace, hbefore, List.append_assoc .., .inr ⟨fun x hx => ?_, ?_⟩⟩
    · cases back with
      | nil =>
        obtain rfl := Option.some.inj hx
        decide
      | cons y back => exact (hfree.resolve_left (Option.some_ne_none _).symm).ends x hx
    · exact (hfree.resolve_left (Option.some_ne_none _).symm).apart
  · rcases Text.append_eq_append_cons hw with ⟨z, hz, rfl⟩ | ⟨z, rfl, hz⟩
    · exact absurd (hnew.dotless hz hname) hdot
    · obtain ⟨s, hs, front, p, q, back, hplace, rfl, hbehind, hfree⟩ := hb z v hz hdot
      exact ⟨s, hs, _, p, q, back, hplace, by simp only [List.append_assoc], hbehind,
        .inr ((hfree.resolve_left (Option.some_ne_none _).symm).append (hnew.closed hr) a)⟩

/-- A file that a text does not hold does not matter. -/
theorem of_absent {file : Text} (h : r.Accounted directory (some file) t) (hfile : ¬ file <:+: t) :
    r.Accounted directory none t := by
  intro u v heq hdot
  obtain ⟨s, hs, front, p, q, back, hplace, rfl, rfl, hown | hfree⟩ := h u v heq hdot
  · refine absurd ⟨front, back, ?_⟩ hfile
    rw [Option.some.inj hown, hplace, heq]
    simp
  · exact ⟨s, hs, front, p, q, back, hplace, rfl, rfl, .inr hfree⟩

/-- **When the file of the sample that a report is on is replaced**, all is still accounted for. -/
theorem replaceAll (h : r.Accounted directory (some s.place) t) (hr : r.Housed directory) (hs : s ∈ r.samples)
    (hnew : IsPlace directory new) (hends : ∀ a b, t = a ++ (s.place ++ b) → Dotless b) :
    r.Accounted directory none (t.replaceAll s.place new) := by
  have hne := hr.place_ne_nil hs
  induction hn : t.length using Nat.strongRecOn generalizing t with
  | ind n ih =>
    by_cases hinfix : s.place <:+: t
    · obtain ⟨a, b, rfl, hmisses⟩ := Text.exists_first hne hinfix
      have hname : Dotless b := hends a b rfl
      have hfront : ¬ s.place <:+: a := fun hin => by
        obtain ⟨v, hv, hva⟩ := List.infix_iff_prefix_suffix.1 hin
        refine hmisses v (fun hnil => hne (List.prefix_nil.1 (hnil ▸ hv))) hva (hv.trans (List.prefix_append v _))
      have hshort : b.length < n := by
        have hpos := List.length_pos_iff.2 hne
        rw [← hn, List.length_append, List.length_append]
        omega
      have hbehind := ih b.length hshort (h.right hr hs hname)
        (fun a' b' heq => hends (a ++ (s.place ++ a')) b' (by rw [heq]; simp)) rfl
      rw [Text.replaceAll_append_of_misses hmisses, Text.replaceAll_append hne]
      refine append ((h.left hr hs).of_absent hfront) hbehind hr hnew ?_
      rwa [Dotless, leadingName_replaceAll hr hs hnew]
    · rw [Text.replaceAll_of_not_infix hinfix]
      exact h.of_absent hinfix

/-- **A text in which all is accounted for names no sample any more**, once its samples are named. -/
theorem undotted (h : r.Accounted directory none t) (hr : r.Housed directory) : Undotted (r.nameSamples t) := by
  induction hn : t.length using Nat.strongRecOn generalizing t with
  | ind n ih =>
    by_cases ht : Undotted t
    · rwa [hr.nameSamples_of_undotted ht]
    · simp only [Undotted, not_forall] at ht
      obtain ⟨u, v, rfl, hdot⟩ := ht
      obtain ⟨s, hs, front, p, q, back, hplace, rfl, rfl, hfree⟩ := h u v rfl hdot
      have hcut : front ++ p ++ '$' :: (q ++ back) = front ++ (s.place ++ back) := by
        rw [hplace]
        simp
      have hfree := hfree.resolve_left (Option.some_ne_none _).symm
      have hname : Dotless back := dotless_of_head? hfree.ends
      obtain ⟨rest, hslash⟩ := hr.exists_slash hs
      have hpos := congrArg List.length hslash
      rw [hcut] at h hn ⊢
      rw [List.length_append, List.length_append] at hn
      rw [List.length_cons] at hpos
      obtain ⟨u, hu, hnamed⟩ := nameSamples_free hr hs hfree
      rw [hnamed]
      refine (hr.isPlace hu).1.undotted (ih front.length (by omega) (h.left hr hs) rfl) ?_
        (ih back.length (by omega) (h.right hr hs hname) rfl)
      rwa [Dotless, leadingName_nameSamples hr]

end Accounted

/-! ## Messages in which a path is unambiguous -/

/-- **A dollar sign that shares a word with no other one**, between a blank and a blank. -/
def Lone (before behind : Text) : Prop :=
  (∀ a b, before = a ++ '$' :: b → ∃ x ∈ b, Text.isBlank x = true) ∧
    ∀ a b, behind = a ++ '$' :: b → ∃ x ∈ a, Text.isBlank x = true

theorem lone_iff : Lone a b ↔ (∀ i ∈ Text.places ['$'] a, (a.drop (i + 1)).any Text.isBlank = true) ∧
    ∀ i ∈ Text.places ['$'] b, (b.take i).any Text.isBlank = true := by
  simp only [List.any_eq_true]
  exact and_congr (Text.forall_append_iff (p := ['$'])) (Text.forall_append_iff (p := ['$']))

instance (before behind : Text) : Decidable (Lone before behind) :=
  decidable_of_iff _ lone_iff.symm

/-- **A path of a sample is unambiguous in a message**: it stands free there, or is the file of the report, which is
spelled as that of a sample and is not gone on from to a dot; and the dollar signs of dotted names are those of such
paths, or stand alone in their words. -/
structure Unambiguous (r : Resolver) (directory : Absolute) (own : Option Text) (path m : Text) : Prop where
  free : ∀ a b, m = a ++ (path ++ b) → own = some path ∨ Free directory a path b
  spelled : ∀ file ∈ own, ∀ a b, m = a ++ (file ++ b) → (∃ s ∈ r.samples, s.place = file) ∧ Dotless b
  dotted : ∀ a b, m = a ++ '$' :: b → ¬ Dotless b → r.Held directory own a b ∨ Lone a b

theorem unambiguous_iff {path m : Text} : r.Unambiguous directory own path m ↔
    (∀ a b, m = a ++ (path ++ b) → own = some path ∨ Free directory a path b) ∧
    (∀ file ∈ own, ∀ a b, m = a ++ (file ++ b) → (∃ s ∈ r.samples, s.place = file) ∧ Dotless b) ∧
    ∀ a b, m = a ++ (['$'] ++ b) → ¬ Dotless b → r.Held directory own a b ∨ Lone a b :=
  ⟨fun h => ⟨h.free, h.spelled, h.dotted⟩, fun h => ⟨h.1, h.2.1, h.2.2⟩⟩

instance (r : Resolver) (directory : Absolute) (own : Option Text) (path m : Text) :
    Decidable (r.Unambiguous directory own path m) :=
  decidable_of_iff (_ ∧ _ ∧ _) <| (unambiguous_iff.trans <| and_congr Text.forall_append_iff <| and_congr
    (forall₂_congr fun _ _ => Text.forall_append_iff) Text.forall_append_iff).symm

/-- **What a message becomes** when the file of the sample that the report is on is replaced, if there is one. -/
inductive Swapped (directory : Absolute) : Option Text → Text → Text → Prop
  | nowhere {m : Text} : Swapped directory none m m
  | here {m file new : Text} (hne : file ≠ []) (hblank : ∀ x ∈ file, Text.isBlank x = false)
      (hnew : IsPlace directory new) : Swapped directory (some file) m (m.replaceAll file new)

variable {m said path : Text} {x : Char}

/-- What is unambiguous stays so in the parts of a message that a blank cuts. -/
theorem Unambiguous.of_append_cons (h : r.Unambiguous directory own path (a ++ x :: b)) (hr : r.Housed directory)
    (hx : Text.isBlank x = true) : r.Unambiguous directory own path a ∧ r.Unambiguous directory own path b := by
  have hname : inSampleName x = false := by rw [inSampleName, hx]; rfl
  constructor
  · constructor
    · rintro u v rfl
      exact (h.free u (v ++ x :: b) (by simp)).imp_right Free.of_behind
    · rintro file hfile u v rfl
      obtain ⟨hsample, hends⟩ := h.spelled file hfile u (v ++ x :: b) (by simp)
      exact ⟨hsample, hends.of_append⟩
    · rintro u v rfl hdot
      refine (h.dotted u (v ++ x :: b) (by simp) fun hends => hdot hends.of_append).imp
        (fun held => held.left hr hname) fun hlone => ⟨hlone.1, ?_⟩
      rintro u' v' rfl
      exact hlone.2 u' (v' ++ x :: b) (by simp)
  · constructor
    · rintro u v rfl
      exact (h.free (a ++ x :: u) v (by simp)).imp_right fun hfree =>
        Free.of_append (a := a ++ [x]) (by simpa using hfree)
    · rintro file hfile u v rfl
      exact h.spelled file hfile (a ++ x :: u) v (by simp)
    · rintro u v rfl hdot
      refine (h.dotted (a ++ x :: u) v (by simp) hdot).imp (fun held => held.right hr hx) fun hlone => ⟨?_, hlone.2⟩
      rintro u' v' rfl
      exact hlone.1 (a ++ x :: u') v' (by simp)

theorem Swapped.of_append_cons (h : Swapped directory own (a ++ x :: b) said) (hx : Text.isBlank x = true) :
    ∃ u v, said = u ++ x :: v ∧ Swapped directory own a u ∧ Swapped directory own b v := by
  cases h with
  | nowhere => exact ⟨a, b, rfl, .nowhere, .nowhere⟩
  | here hne hblank hnew =>
    refine ⟨_, _, Text.replaceAll_append_cons hne (fun hmem => ?_) a b _, .here hne hblank hnew,
      .here hne hblank hnew⟩
    rw [hblank x hmem] at hx
    cases hx

/-- Where all is accounted for, all is so when the report's file is replaced. -/
theorem Swapped.accounted (h : Swapped directory own m said) (hr : r.Housed directory)
    (hpath : r.Unambiguous directory own path m) (hall : r.Accounted directory own m) :
    r.Accounted directory none said := by
  cases h with
  | nowhere => exact hall
  | @here _ file new hne hblank hnew =>
    by_cases hfile : file <:+: m
    · obtain ⟨a, b, heq⟩ := hfile
      obtain ⟨⟨s, hs, rfl⟩, -⟩ := hpath.spelled file rfl a b (by rw [← heq, List.append_assoc])
      exact hall.replaceAll hr hs hnew fun a b heq => (hpath.spelled _ rfl a b heq).2
    · rw [Text.replaceAll_of_not_infix hfile]
      exact hall.of_absent hfile

/-- A path of a sample in a text with one dollar sign holds this one. -/
theorem Housed.sole (h : r.Housed directory) (hs : s ∈ r.samples) {u v : Text}
    (heq : u ++ (s.place ++ v) = a ++ '$' :: b) (ha : '$' ∉ a) (hb : '$' ∉ b) :
    ∃ p q, s.place = p ++ '$' :: q ∧ a = u ++ p ∧ b = q ++ v := by
  obtain ⟨p, q, hplace, -, -⟩ := h.exists_dollar hs
  have hcut : (u ++ p) ++ '$' :: (q ++ v) = a ++ '$' :: b := by
    rw [← heq, hplace]
    simp
  have hbehind := Text.eq_of_append_cons_of_not_mem ha hb hcut
  rw [hbehind, List.append_cancel_right_eq] at hcut
  exact ⟨p, q, hplace, hcut.symm, hbehind.symm⟩

/-- A dotted name of a word that is not accounted for holds the one dollar sign of the word. -/
theorem Unambiguous.exists_sole (h : r.Unambiguous directory own path m) (hword : ∀ x ∈ m, Text.isBlank x = false)
    (hall : ¬ r.Accounted directory own m) :
    ∃ a b, m = a ++ '$' :: b ∧ '$' ∉ a ∧ '$' ∉ b ∧ ¬ r.Held directory own a b := by
  simp only [Accounted, not_forall] at hall
  obtain ⟨a, b, rfl, hdot, hheld⟩ := hall
  obtain ⟨ha, hb⟩ := (h.dotted a b rfl hdot).resolve_left hheld
  have hnone : ∀ {w : Text}, w ⊆ a ++ '$' :: b → ¬ ∃ x ∈ w, Text.isBlank x = true := by
    rintro w hw ⟨x, hx, hblank⟩
    rw [hword x (hw hx)] at hblank
    cases hblank
  refine ⟨a, b, rfl, fun hmem => ?_, fun hmem => ?_, hheld⟩
  · obtain ⟨u, v, rfl⟩ := List.append_of_mem hmem
    exact hnone (fun x hx => by simp [hx]) (ha u v rfl)
  · obtain ⟨u, v, rfl⟩ := List.append_of_mem hmem
    exact hnone (fun x hx => by simp [hx]) (hb u v rfl)

/-- **A word in which a path is unambiguous loses it.** -/
theorem not_infix_of_word (hr : r.Housed directory) (hs : s ∈ r.samples)
    (h : r.Unambiguous directory own s.place m) (hword : ∀ x ∈ m, Text.isBlank x = false)
    (hswap : Swapped directory own m said) (hrewritten : Rewritten Unmarks (r.nameSamples said) t) :
    ¬ s.place <:+: t := by
  by_cases hall : r.Accounted directory own m
  · have hundotted := (hswap.accounted hr h hall).undotted hr
    exact hr.not_infix_of_undotted hs (hundotted.of_rewritten hrewritten).1
  -- else the word holds no path of a sample, or one that becomes a reference is its only one
  obtain ⟨a, b, heq, ha, hb, hheld⟩ := h.exists_sole hword hall
  have hpath : ∀ u ∈ r.samples, own = some u.place ∨ u = s → ¬ u.place <:+: m := by
    rintro u hu hwhich ⟨front, back, hm⟩
    rw [List.append_assoc] at hm
    obtain ⟨p, q, hplace, rfl, rfl⟩ := hr.sole hu (hm.trans heq) ha hb
    refine hheld ⟨u, hu, front, p, q, back, hplace, rfl, rfl, ?_⟩
    rcases hwhich with hown | rfl
    · exact .inl hown
    · exact h.free front back hm.symm
  obtain rfl : said = m := by
    cases hswap with
    | nowhere => rfl
    | here hne hblank hnew =>
      refine Text.replaceAll_of_not_infix (fun hfile => ?_) _
      obtain ⟨front, back, hm⟩ := hfile
      obtain ⟨⟨u, hu, rfl⟩, -⟩ := h.spelled _ rfl front back (by rw [← hm, List.append_assoc])
      exact hpath u hu (.inl rfl) ⟨front, back, hm⟩
  rcases nameSamples_cases hr said with hsame | ⟨front, u, named, back, hu, hnamed, hm, hends, hchanged⟩
  · rw [hsame] at hrewritten
    rcases eq_or_count_lt hrewritten with rfl | hcount
    · exact hpath s hs (.inr rfl)
    · refine hr.not_infix_of_undotted hs (undotted_of_not_mem (List.count_eq_zero.1 ?_))
      rw [heq, List.count_append, List.count_cons_self, List.count_eq_zero_of_not_mem ha,
        List.count_eq_zero_of_not_mem hb] at hcount
      omega
  · obtain ⟨p, q, -, rfl, rfl⟩ := hr.sole hu (hm.symm.trans heq) ha hb
    rw [List.mem_append, not_or] at ha hb
    have hback := undotted_of_not_mem hb.2
    rw [hchanged, hr.nameSamples_of_undotted hback] at hrewritten
    have hundotted := (hr.isPlace hnamed).1.undotted (undotted_of_not_mem ha.1) (dotless_of_head? hends) hback
    exact hr.not_infix_of_undotted hs (hundotted.of_rewritten hrewritten).1

/-- **A message in which a path is unambiguous loses it**, word by word. -/
theorem not_infix_of_resolveMessage (hr : r.Housed directory) (hs : s ∈ r.samples)
    (h : r.Unambiguous directory own s.place m) (hswap : Swapped directory own m said) {offset : Offset}
    {current : Option Text} (ht : r.resolveMessage said offset current = .ok t) : ¬ s.place <:+: t := by
  induction hn : m.length using Nat.strongRecOn generalizing m said t with
  | ind n ih =>
    by_cases hword : ∀ x ∈ m, Text.isBlank x = false
    · exact not_infix_of_word hr hs h hword hswap (rewritten_of_resolveMessage ht)
    · obtain ⟨x, hmem, hx⟩ : ∃ x ∈ m, Text.isBlank x = true := by simpa using hword
      obtain ⟨a, b, rfl⟩ := List.append_of_mem hmem
      obtain ⟨u, v, rfl, hu, hv⟩ := hswap.of_append_cons hx
      obtain ⟨ha, hb⟩ := h.of_append_cons hr hx
      have hroot : ∀ root ∈ r.sampleRoot?, x ∉ root := by
        rw [hr.sampleRoot?_eq]
        rintro root ⟨⟩ hroot
        rw [(hr.plain x hroot).1] at hx
        cases hx
      rw [resolveMessage_append (nameSamples_append (by rw [inSampleName, hx]; rfl) hroot)
        (inline_embedded_of_isBlank hx)] at ht
      obtain ⟨u', hu', ht⟩ := bind_eq_ok.1 ht
      obtain ⟨v', hv', ht⟩ := bind_eq_ok.1 ht
      cases ht
      rw [List.length_append, List.length_cons] at hn
      intro hinfix
      rcases Text.infix_append_cons (hr.blank_not_mem_place hs hx) hinfix with hin | hin
      · exact ih a.length (by omega) ha hu hu' rfl hin
      · exact ih b.length (by omega) hb hv hv' rfl hin

theorem Housed.swapped (hr : r.Housed directory) {d : Draft} (h : r.ownFile? d = none ∧ said = m ∨
    ∃ file s new, r.ownFile? d = some file ∧ r.sampleAt? file = some s ∧ (new = s.reference ∨ new = s.fencePlace) ∧
      said = m.replaceAll file new) : Swapped directory (r.ownFile? d) m said := by
  rcases h with ⟨hown, rfl⟩ | ⟨file, s, new, hown, hsample, hnew, rfl⟩
  · rw [hown]
    exact .nowhere
  · have hs : s ∈ r.samples := List.mem_of_find?_eq_some hsample
    have hinside : r.isInSampleDir file = true := by
      obtain ⟨_, -, hfile⟩ := Option.bind_eq_some_iff.1 hown
      exact (Bool.and_eq_true_iff.1 (Option.filter_eq_some_iff.1 hfile).2).1
    have hclear : ∀ {x : Char}, Text.isBlank x = true → ∀ s ∈ r.samples, ∀ path ∈ s.path, x ∉ path.toText := by
      intro x hx s hs path hpath
      have hplace := hr.blank_not_mem_place hs hx
      rwa [Sample.place, Option.mem_def.1 hpath] at hplace
    rw [hown]
    refine .here (ne_nil_of_isInSampleDir hinside) (fun x hx => ?_) ?_
    · by_contra hblank
      rw [Bool.not_eq_false] at hblank
      exact not_mem_of_sampleAt? hblank (hclear hblank) hsample hx
    · rcases hnew with rfl | rfl
      · exact (hr.isPlace hs).1
      · exact (hr.isPlace hs).2

/-- A path that a name goes on behind is none of a sample. -/
theorem resolveMessage_place_append (hr : r.Housed directory) (hs : s ∈ r.samples) (hx : inSampleName x = true)
    (hunknown : r.sampleAt? (s.place ++ [x]) = none) (offset : Offset) :
    r.resolveMessage (s.place ++ [x]) offset none = .ok (s.place ++ [x]) := by
  obtain ⟨name, hname, -, hplace⟩ := hr.exists_name hs
  have hall : ∀ y ∈ name ++ [x], inSampleName y = true := by
    intro y hy
    rcases List.mem_append.1 hy with hy | hy
    · exact hname.all y hy
    · rwa [List.mem_singleton.1 hy]
  have hbegins : Begins directory (s.place ++ [x]) (name ++ [x]) [] :=
    ⟨by rw [hplace]; simp, by simp, hall, nofun⟩
  have hcolon : ':' ∉ s.place ++ [x] := by
    rw [hbegins.text, List.append_nil, List.mem_append, not_or]
    exact ⟨fun hmem => (hr.plain ':' hmem).2 rfl, fun hmem => absurd (hall ':' hmem) (by decide)⟩
  have hstays : r.nameSamples (s.place ++ [x]) = s.place ++ [x] := by
    rw [nameSamples_path hr.sampleRoot?_eq hbegins, nameSamples_nil hr.sampleRoot?_eq, List.append_nil,
      ← List.append_assoc, ← hplace, nameFor, hunknown]
    rfl
  show Reference.embedded.substituteM _ _ = _
  rw [hstays]
  exact substituteM_embedded_of_colon_not_mem hcolon

/-- Nor is it in a report without a file. -/
theorem resolve_place_append (hr : r.Housed directory) (hs : s ∈ r.samples) (hx : inSampleName x = true)
    (hunknown : r.sampleAt? (s.place ++ [x]) = none) {d : Draft} (hkind : Succeeds d.kind)
    (hfile : d.get? "file" = none) (hm : d.message = .ok (s.place ++ [x])) : r.resolve d = .ok d := by
  obtain ⟨kind, hkind⟩ := hkind
  have hfields : r.resolveFields d (r.offset kind) = .ok d := by
    rw [resolveFields, hfile]
  have hmessage := resolveMessage_place_append hr hs hx hunknown (r.offset kind)
  rw [resolve, hkind]
  show (r.resolveFields d (r.offset kind) >>= _) = _
  rw [hfields]
  show (d.message >>= _) = _
  rw [hm]
  show (r.resolveMessage (s.place ++ [x]) (r.offset kind) ((d.get? "file").map Reference.unmarked) >>= _) = _
  rw [hfile, Option.map_none, hmessage]
  show Except.ok (d.set "message" (s.place ++ [x])) = _
  rw [Keyed.set_of_get? (Draft.message_eq_ok_iff.1 hm)]

/-- **Where a path is unambiguous, it is hidden**: a message that is brought back does not hold the path of a known
sample any more. But a path that a name goes on behind, if only by a quote, is none of a sample, and stays. -/
theorem resolve_hidden (hr : r.Housed directory) (hs : s ∈ r.samples) :
    (∀ d e m, d.message = .ok m → r.Unambiguous directory (r.ownFile? d) s.place m → r.resolve d = .ok e →
      ∃ said, e.message = .ok said ∧ ¬ s.place <:+: said) ∧
    ∀ d x, inSampleName x = true → r.sampleAt? (s.place ++ [x]) = none → Succeeds d.kind → d.get? "file" = none →
      d.message = .ok (s.place ++ [x]) → r.resolve d = .ok d := by
  constructor
  · intro d e m hm h hd
    obtain ⟨before, said, after, offset, current, hbefore, hafter, hmessage, hswap⟩ := exists_message_of_resolve hd
    obtain rfl := Except.ok.inj (hm.symm.trans hbefore)
    exact ⟨after, hafter, not_infix_of_resolveMessage hr hs h (hr.swapped hswap) hmessage⟩
  · exact fun d x hx hunknown => resolve_place_append hr hs hx hunknown

/-- A report on a sample that names it in a place, in a file URL and in brackets, beside another sample, a mark and a
dollar sign; and a path in quotes. -/
theorem resolve_hidden_beside :
    let directory : Absolute := ["t".toList]
    let s : Sample := ⟨.ofAbsolute ["p".toList, "a.md".toList], 5, 2, 1, [], some "ts".toList, "x\ny\n".toList,
      some (.ofAbsolute ["t".toList, "x$5-8.ts".toList])⟩
    let u : Sample := ⟨.ofAbsolute ["p".toList, "b.ts".toList], 1, 1, 4, [], some "ts".toList, "x\n".toList,
      some (.ofAbsolute ["t".toList, "y$1-3.ts".toList])⟩
    let r : Resolver :=
      { cwd := .ofAbsolute ["w".toList], samples := [s, u], sampleDir := some (.ofAbsolute directory) }
    let m : Text :=
      "in /t/x$5-8.ts:1:2 (file:///t/y$1-3.ts:3:4\nfile:///t/x$5-8.ts q$.a /p/b.ts$1-3.ts:1:1 (/t/x$5-8.ts)".toList
    let d : Draft := [("kind", "check".toList), ("message", m), ("file", "/t/x$5-8.ts".toList), ("line", ['1']),
      ("column", ['2'])]
    let quoted : Draft := [("kind", "error".toList), ("message", "/t/x$5-8.ts\"".toList)]
    r.Housed directory ∧ s ∈ r.samples ∧ r.Unambiguous directory (r.ownFile? d) s.place m ∧
      (∃ e said, r.resolve d = .ok e ∧ e.message = .ok said ∧ ¬ s.place <:+: said) ∧ r.resolve quoted = .ok quoted := by
  intro directory s u r m d quoted
  have hr : r.Housed directory :=
    { holding := ⟨by decide, by decide, by decide⟩
      sampleDir := rfl
      plain := List.all_iff_forall_prop.1 (by decide)
      stored := by
        intro v hv
        rcases List.mem_cons.1 hv with rfl | hv
        · refine ⟨"x$5-8.ts".toList, ⟨List.all_eq_true.1 (by decide), ?_⟩, rfl⟩
          exact ⟨['x'], "5-8.ts".toList, rfl, by decide, by decide⟩
        · rw [List.mem_singleton.1 hv]
          refine ⟨"y$1-3.ts".toList, ⟨List.all_eq_true.1 (by decide), ?_⟩, rfl⟩
          exact ⟨['y'], "1-3.ts".toList, rfl, by decide, by decide⟩
      document := by
        intro v hv
        rcases List.mem_cons.1 hv with rfl | hv
        · exact ⟨⟨_, rfl⟩, by decide⟩
        · rw [List.mem_singleton.1 hv]
          exact ⟨⟨_, rfl⟩, by decide⟩ }
  have hs : s ∈ r.samples := List.mem_cons_self
  have hm : r.Unambiguous directory (r.ownFile? d) s.place m := by decide +kernel
  obtain ⟨hhides, hstays⟩ := resolve_hidden hr hs
  obtain ⟨e, he⟩ : Succeeds (r.resolve d) := by decide +kernel
  obtain ⟨said, hsaid, hhidden⟩ := hhides d e m rfl hm he
  exact ⟨hr, hs, hm, ⟨e, said, he, hsaid, hhidden⟩,
    hstays quoted '"' (by decide) (by decide +kernel) (by decide +kernel) rfl rfl⟩

/-- A path in quotes in a message, which is none of a name of letters and digits that goes on. -/
theorem resolve_shown :
    let s : Sample := ⟨.ofAbsolute ["project".toList, "mod.md".toList], 5, 2, 1, [], some "ts".toList,
      "a\nb\n".toList, some (.ofAbsolute ["t".toList, "x$5-8.ts".toList])⟩
    let r : Resolver := { cwd := .ofAbsolute [], samples := [s], sampleDir := some (.ofAbsolute ["t".toList]) }
    let m : Text := "see \"/t/x$5-8.ts\"".toList
    let d : Draft := [("kind", "error".toList), ("message", m)]
    (∀ a b, m = a ++ (s.place ++ b) → ∀ x ∈ b.head?, x.isAlphanum = false) ∧
      ∃ e said, r.resolve d = .ok e ∧ e.message = .ok said ∧ s.place <:+: said := by
  intro s r m d
  have hsaid : (r.resolve d).toOption.bind (·.get? "message") = some m := by decide +kernel
  obtain ⟨e, he⟩ : Succeeds (r.resolve d) := by decide +kernel
  rw [he] at hsaid
  have hbehind : ∀ a b, m = a ++ (s.place ++ b) → b.head?.all (!·.isAlphanum) = true :=
    Text.forall_append_iff.2 (by decide +kernel)
  refine ⟨fun a b hm => ?_, e, m, he, Draft.message_of_get? hsaid, by decide +kernel⟩
  simpa [Option.all_eq_true] using hbehind a b hm

end Resolver

end Fenceline
