import Fenceline.Proofs.Location.Name
import Mathlib.Data.List.Infix

/-!
# Paths of samples that stand free

A path of a sample is read in a message from where the spelling of the sample files' directory begins up to the end of
a name. It is read as such if it stands free (`Free`): the name ends with it, and the spelling does not begin in front
of it and end in it. A text in the place of a path (`IsPlace`) is that of a document and of numbers.

**The laws.** `nameSamples_free`: a path that stands free becomes a reference, and what stands around it becomes what
it becomes alone. `nameSamples_cases`: a text names no sample, or there is a first one that it names.
-/

namespace Fenceline

open Pattern Reference

namespace Resolver

/-- **A resolver whose samples are in files of a directory**, which is not the root, and of documents without a dollar
sign in their paths. -/
structure Housed (r : Resolver) (directory : Absolute) : Prop where
  holding : Path.Holding directory
  sampleDir : r.sampleDir = some (.ofAbsolute directory)
  plain : ∀ x ∈ Path.inside directory, Text.isBlank x = false ∧ x ≠ ':'
  stored : ∀ s ∈ r.samples, ∃ name, IsSampleName name ∧ s.path = some (.ofAbsolute (directory ++ [name]))
  document : ∀ s ∈ r.samples, (∃ names, s.file = .ofAbsolute names) ∧ '$' ∉ s.file.toText

variable {r : Resolver} {directory : Absolute} {s : Sample} {a b t t' name rest new : Text} {own : Option Text}

namespace Housed

theorem sampleRoot?_eq (h : r.Housed directory) : r.sampleRoot? = some (Path.inside directory) := by
  rw [sampleRoot?, h.sampleDir]
  rfl

theorem exists_name (h : r.Housed directory) (hs : s ∈ r.samples) : ∃ name, IsSampleName name ∧
    s.path = some (.ofAbsolute (directory ++ [name])) ∧ s.place = Path.inside directory ++ name := by
  obtain ⟨name, hname, hpath⟩ := h.stored s hs
  exact ⟨name, hname, hpath, Sample.place_eq h.holding.ne_nil hpath⟩

theorem exists_slash (h : r.Housed directory) (hs : s ∈ r.samples) : ∃ rest, s.place = '/' :: rest := by
  obtain ⟨name, -, -, hplace⟩ := h.exists_name hs
  obtain ⟨c, w, -, hinside⟩ := h.holding.inside_eq
  exact ⟨c :: w ++ name, by rw [hplace, hinside]; rfl⟩

theorem place_ne_nil (h : r.Housed directory) (hs : s ∈ r.samples) : s.place ≠ [] := by
  obtain ⟨rest, hslash⟩ := h.exists_slash hs
  rw [hslash]
  exact List.cons_ne_nil '/' rest

theorem nameSamples_of_undotted (h : r.Housed directory) (ht : Undotted t) : r.nameSamples t = t := by
  refine Resolver.nameSamples_of_undotted h.sampleRoot?_eq h.holding.spellable (fun s hs => ?_) ht
  obtain ⟨name, hname, hpath⟩ := h.stored s hs
  obtain ⟨stem, ending, rfl, -, hdot⟩ := hname.marked
  exact ⟨stem, ending, hpath, hdot⟩

/-- The dollar signs of a sample's path stand in its name. -/
theorem split_place (h : r.Housed directory) (hs : s ∈ r.samples) {p q : Text} (heq : s.place = p ++ '$' :: q) :
    ∃ front, p = Path.inside directory ++ front ∧ ∀ x ∈ front ++ '$' :: q, inSampleName x = true := by
  obtain ⟨name, hname, -, hplace⟩ := h.exists_name hs
  rw [hplace] at heq
  rcases Text.append_eq_append_cons heq with ⟨w, hinside, -⟩ | ⟨front, hp, rfl⟩
  · exact absurd (hinside ▸ List.mem_append_right p List.mem_cons_self) h.holding.noDollar_inside
  · exact ⟨front, hp, hname.all⟩

/-- A sample's path has a dollar sign with a dot behind it in the same name. -/
theorem exists_dollar (h : r.Housed directory) (hs : s ∈ r.samples) : ∃ p q, s.place = p ++ '$' :: q ∧
    (∀ x ∈ q, inSampleName x = true) ∧ ∀ b, ¬ Dotless (q ++ b) := by
  obtain ⟨name, hname, -, hplace⟩ := h.exists_name hs
  obtain ⟨stem, ending, rfl, -, hdot⟩ := hname.marked
  have hall : ∀ x ∈ ending, inSampleName x = true := fun x hx => hname.all x (by simp [hx])
  exact ⟨Path.inside directory ++ stem, ending, by rw [hplace, List.append_assoc], hall,
    fun b => not_dotless_of_mem hall hdot b⟩

/-- So it does not stand in a text without such a name. -/
theorem not_infix_of_undotted (h : r.Housed directory) (hs : s ∈ r.samples) (ht : Undotted t) : ¬ s.place <:+: t := by
  obtain ⟨p, q, hplace, -, hdot⟩ := h.exists_dollar hs
  rintro ⟨a, b, rfl⟩
  refine hdot b (ht (a ++ p) (q ++ b) ?_)
  rw [hplace]
  simp

theorem exists_sampleAt? (h : r.Housed directory) (hs : s ∈ r.samples) :
    ∃ u ∈ r.samples, r.sampleAt? s.place = some u := by
  obtain ⟨name, hname, hpath, hplace⟩ := h.exists_name hs
  cases hfind : r.sampleAt? s.place with
  | some u => exact ⟨u, List.mem_of_find?_eq_some hfind, rfl⟩
  | none =>
    refine absurd ?_ (List.find?_eq_none.1 hfind s hs)
    rw [hplace, ← Path.toText_inside h.holding.ne_nil, Path.ofText_toText (hname.spellable h.holding.spellable), hpath]
    exact beq_self_eq_true _

theorem place_of_sampleAt? (h : r.Housed directory) (hall : ∀ x ∈ name, inSampleName x = true)
    (hsample : r.sampleAt? (Path.inside directory ++ name) = some s) :
    s ∈ r.samples ∧ s.place = Path.inside directory ++ name := by
  have hs : s ∈ r.samples := List.mem_of_find?_eq_some hsample
  obtain ⟨other, -, hpath, hplace⟩ := h.exists_name hs
  have hsame := List.find?_some hsample
  rw [hpath, beq_iff_eq, Option.some_inj] at hsame
  have hslash : '/' ∉ name := fun hmem => absurd (hall '/' hmem) (by decide)
  rw [hplace, Path.name_eq h.holding.spellable hslash hsame.symm]
  exact ⟨hs, rfl⟩

theorem blank_not_mem_place (h : r.Housed directory) (hs : s ∈ r.samples) {x : Char} (hx : Text.isBlank x = true) :
    x ∉ s.place := by
  obtain ⟨name, hname, -, hplace⟩ := h.exists_name hs
  rw [hplace, List.mem_append, not_or]
  constructor
  · intro hmem
    rw [(h.plain x hmem).1] at hx
    cases hx
  · intro hmem
    have hall := hname.all x hmem
    rw [inSampleName, hx] at hall
    cases hall

end Housed

/-! ## Texts that the directory does not begin in -/

/-- **A text in whose end the spelling of the directory does not begin**, whatever stands in front of it. -/
def Closed (directory : Absolute) (t : Text) : Prop :=
  ∀ a y, y ≠ [] → y <:+ a ++ t → ¬ y <+: Path.inside directory

theorem closed_append_cons (h : Path.Holding directory) {x : Char} (hx : x ∉ Path.inside directory)
    (hall : ∀ y ∈ b, inSampleName y = true) : Closed directory (a ++ x :: b) := by
  obtain ⟨c, w, -, hinside⟩ := h.inside_eq
  rintro front y hy hsuffix hbegins
  have hboth : y <:+ (front ++ a ++ [x]) ++ b := by simpa using hsuffix
  rcases Text.suffix_append_cases hboth with hyb | ⟨z, hz, hend, rfl⟩
  · obtain ⟨d, y, rfl⟩ := List.exists_cons_of_ne_nil hy
    rw [hinside, List.cons_prefix_cons] at hbegins
    exact absurd (hall '/' (hbegins.1 ▸ hyb.subset List.mem_cons_self)) (by decide)
  · obtain ⟨z, rfl, -⟩ := (List.suffix_concat_iff.1 hend).resolve_left hz
    exact hx (hbegins.subset (by simp))

/-- So the directory that begins in front of such a text ends in front of it, or goes as far as the text. -/
theorem Closed.inside_of_append (h : Closed directory t) {y z : Text} (hy : y ≠ []) (hsuffix : y <:+ a ++ t)
    (hbegins : Path.inside directory <+: y ++ z) : Path.inside directory <+: y :=
  (List.prefix_or_prefix_of_prefix hbegins (List.prefix_append y z)).resolve_right (h a y hy hsuffix)

theorem Housed.closed_place (h : r.Housed directory) (hs : s ∈ r.samples) : Closed directory s.place := by
  obtain ⟨p, q, hplace, hall, -⟩ := h.exists_dollar hs
  rw [hplace]
  exact closed_append_cons h.holding h.holding.noDollar_inside hall

/-! ## Texts in the place of a sample's path -/

/-- **A text in the place of a sample's path**: the path of a document, and numbers behind it, apart from it by a
character that the directory of the sample files is spelled without. -/
structure IsPlace (directory : Absolute) (new : Text) : Prop where
  begins : ∃ rest, new = '/' :: rest
  parts : ∃ file x numbers, new = file ++ x :: numbers ∧ '$' ∉ file ∧ x ∉ Path.inside directory ∧
    ∀ y ∈ numbers, inSampleName y = true ∧ y ≠ '.' ∧ y ≠ '$'

/-- References and the places of opening fences are such texts. -/
theorem Housed.isPlace (h : r.Housed directory) (hs : s ∈ r.samples) :
    IsPlace directory s.reference ∧ IsPlace directory s.fencePlace := by
  obtain ⟨⟨names, hfile⟩, hdollar⟩ := h.document s hs
  have hnumber : ∀ n, ∀ y ∈ Text.ofInt n, inSampleName y = true ∧ y ≠ '.' ∧ y ≠ '$' := fun n y hy =>
    ⟨inSampleName_of_mem_ofInt hy, ne_of_mem_ofInt hy⟩
  refine ⟨⟨?_, s.file.toText, '$', Text.ofInt s.startLine ++ '-' :: Text.ofInt s.endLine, rfl, hdollar,
    h.holding.noDollar_inside, ?_⟩, ⟨?_, s.file.toText ++ ':' :: Text.ofInt s.startLine, ':', Text.ofInt s.column, rfl,
      ?_, fun hmem => (h.plain ':' hmem).2 rfl, hnumber _⟩⟩
  · rw [Sample.reference, hfile]
    exact ⟨_, rfl⟩
  · intro y hy
    rcases List.mem_append.1 hy with hy | hy
    · exact hnumber _ y hy
    · rcases List.mem_cons.1 hy with rfl | hy
      · decide
      · exact hnumber _ y hy
  · rw [Sample.fencePlace, hfile]
    exact ⟨_, rfl⟩
  · rw [List.mem_append, List.mem_cons, not_or, not_or]
    exact ⟨hdollar, by decide, fun hmem => (hnumber _ '$' hmem).2.2 rfl⟩

namespace IsPlace

theorem closed (h : IsPlace directory new) (hr : r.Housed directory) : Closed directory new := by
  obtain ⟨file, x, numbers, rfl, -, hx, hall⟩ := h.parts
  exact closed_append_cons hr.holding hx fun y hy => (hall y hy).1

/-- No dot follows such a text's own dollar sign. -/
theorem dotless (h : IsPlace directory new) (hnew : new = a ++ '$' :: b) (ht : Dotless t) : Dotless (b ++ t) := by
  obtain ⟨file, x, numbers, rfl, hfile, -, hall⟩ := h.parts
  have hnumbers : '$' ∉ numbers := fun hmem => (hall '$' hmem).2.2 rfl
  obtain rfl : numbers = b := by
    rcases Text.append_eq_append_cons hnew with ⟨w, rfl, -⟩ | ⟨w, rfl, hw⟩
    · simp at hfile
    · rcases List.cons_eq_append_iff.1 hw with ⟨rfl, hb⟩ | ⟨w, rfl, hw⟩
      · exact (List.cons.inj hb).2.symm
      · exact absurd (by rw [(List.cons.inj hw).2]; simp) hnumbers
  rw [Dotless, leadingName_append fun y hy => (hall y hy).1, List.mem_append, not_or]
  exact ⟨fun hmem => (hall '.' hmem).2.1 rfl, ht⟩

theorem undotted (h : IsPlace directory new) (ha : Undotted a) (hname : Dotless b) (hb : Undotted b) :
    Undotted (a ++ (new ++ b)) := by
  obtain ⟨rest, hnew⟩ := h.begins
  have hboth : Undotted (new ++ b) := by
    intro u v heq
    rcases Text.append_eq_append_cons heq with ⟨w, hw, rfl⟩ | ⟨w, -, hw⟩
    · exact h.dotless hw hname
    · exact hb w v hw
  rw [hnew, List.cons_append] at hboth ⊢
  rw [undotted_append_cons (by decide)]
  exact ⟨ha, hboth.append_right (a := ['/'])⟩

end IsPlace

/-! ## Paths that stand free -/

/-- **A path of a sample file that stands free** in a text: a name ends with it, and the spelling of the directory does
not begin in front of it and end in it. -/
structure Free (directory : Absolute) (before path behind : Text) : Prop where
  ends : ∀ x ∈ behind.head?, inSampleName x = false
  apart : ∀ v, v ≠ [] → v <:+ before → Path.inside directory <+: v ++ path → Path.inside directory <+: v

theorem free_iff {path : Text} : Free directory a path b ↔ b.head?.all (!inSampleName ·) = true ∧
    ∀ v ∈ a.tails, v ≠ [] → Path.inside directory <+: v ++ path → Path.inside directory <+: v := by
  simp only [List.mem_tails, Option.all_eq_true, Bool.not_eq_true']
  exact ⟨fun h => ⟨h.ends, fun v hva hv => h.apart v hv hva⟩, fun h => ⟨h.1, fun v hv hva => h.2 v hva hv⟩⟩

instance (directory : Absolute) (before path behind : Text) : Decidable (Free directory before path behind) :=
  decidable_of_iff _ free_iff.symm

theorem Free.of_append {path : Text} (h : Free directory (a ++ b) path t) : Free directory b path t :=
  ⟨h.ends, fun v hv hvb => h.apart v hv (hvb.trans (List.suffix_append a b))⟩

theorem Free.of_behind {path : Text} (h : Free directory t path (a ++ b)) : Free directory t path a := by
  refine ⟨fun x hx => h.ends x ?_, h.apart⟩
  cases a with
  | nil => cases hx
  | cons y a => exact hx

theorem Free.append {path : Text} (h : Free directory b path t) (ha : Closed directory a) (front : Text) :
    Free directory (front ++ (a ++ b)) path t := by
  refine ⟨h.ends, fun v hv hsuffix hbegins => ?_⟩
  rw [← List.append_assoc] at hsuffix
  rcases Text.suffix_append_cases hsuffix with hvb | ⟨y, hy, hya, rfl⟩
  · exact h.apart v hv hvb hbegins
  · rw [List.append_assoc] at hbegins
    exact (ha.inside_of_append hy hya hbegins).trans (List.prefix_append y b)

/-- In front of a path that stands free, no path of the directory begins where none does without it. -/
theorem Free.unbegun {path : Text} (h : Free directory a path b) (ha : a ≠ []) (hunbegun : Unbegun directory a)
    (hpath : ∃ tail, path = '/' :: tail) (hlength : (Path.inside directory).length ≤ path.length) :
    Unbegun directory (a ++ (path ++ b)) := by
  intro other rest hne hall heq
  have hbegins : Path.inside directory <+: a ++ path := by
    refine List.prefix_of_prefix_length_le ⟨other ++ rest, heq.symm⟩ ⟨b, List.append_assoc ..⟩ ?_
    rw [List.length_append]
    omega
  obtain ⟨z, hz⟩ := h.apart a ha (List.suffix_refl _) hbegins
  have hbehind : z ++ (path ++ b) = other ++ rest := by
    rw [← hz, List.append_assoc] at heq
    exact List.append_cancel_left heq
  -- the name goes no further than to the path's slash
  obtain ⟨y, rfl⟩ : other <+: z := by
    obtain ⟨tail, rfl⟩ := hpath
    refine Text.prefix_of_not_mem (x := '/') (b := tail ++ b) (fun hmem => ?_) ⟨rest, hbehind.symm⟩
    exact absurd (hall '/' hmem) (by decide)
  exact hunbegun other y hne hall hz.symm

/-- **A path that stands free becomes a reference**, and what stands around it becomes what it becomes alone. -/
theorem nameSamples_free (h : r.Housed directory) (hs : s ∈ r.samples) (hfree : Free directory a s.place b) :
    ∃ u ∈ r.samples, r.nameSamples (a ++ (s.place ++ b)) = r.nameSamples a ++ (u.reference ++ r.nameSamples b) := by
  have hroot := h.sampleRoot?_eq
  obtain ⟨name, hname, -, hplace⟩ := h.exists_name hs
  obtain ⟨tail, hslash⟩ := h.exists_slash hs
  obtain ⟨u, hu, hsample⟩ := h.exists_sampleAt? hs
  refine ⟨u, hu, ?_⟩
  induction a using paths_induction directory with
  | nil =>
    have hbegins : Begins directory (s.place ++ b) name b :=
      ⟨by rw [hplace, List.append_assoc], hname.ne_nil, hname.all, hfree.ends⟩
    rw [List.nil_append, nameSamples_path hroot hbegins, nameSamples_nil hroot, List.nil_append, nameFor, ← hplace,
      hsample]
    rfl
  | path a other rest hbegins ih =>
    have hends : ∀ x ∈ (rest ++ (s.place ++ b)).head?, inSampleName x = false := by
      intro x hx
      cases rest with
      | nil =>
        rw [hslash] at hx
        rw [← Option.some.inj hx]
        decide
      | cons y rest => exact hbegins.ends x hx
    have hboth : Begins directory (a ++ (s.place ++ b)) other (rest ++ (s.place ++ b)) :=
      ⟨by rw [hbegins.text]; simp, hbegins.ne_nil, hbegins.all, hends⟩
    have hrest : Free directory rest s.place b := by
      rw [hbegins.text, ← List.append_assoc] at hfree
      exact hfree.of_append
    rw [nameSamples_path hroot hboth, nameSamples_path hroot hbegins, ih hrest, List.append_assoc]
  | plain x a hunbegun ih =>
    have hlength : (Path.inside directory).length ≤ s.place.length := by
      rw [hplace, List.length_append]
      exact Nat.le_add_right ..
    have hboth := hfree.unbegun (List.cons_ne_nil x a) hunbegun ⟨tail, hslash⟩ hlength
    rw [List.cons_append] at hboth ⊢
    rw [nameSamples_cons hroot hboth, nameSamples_cons hroot hunbegun, ih (Free.of_append (a := [x]) hfree),
      List.cons_append]

/-- **A text names no sample, or there is a first one that it names.** -/
theorem nameSamples_cases (h : r.Housed directory) (t : Text) : r.nameSamples t = t ∨ ∃ a s u b, s ∈ r.samples ∧
    u ∈ r.samples ∧ t = a ++ (s.place ++ b) ∧ (∀ x ∈ b.head?, inSampleName x = false) ∧
      r.nameSamples t = a ++ (u.reference ++ r.nameSamples b) := by
  have hroot := h.sampleRoot?_eq
  induction t using paths_induction directory with
  | nil => exact .inl (nameSamples_nil hroot)
  | path t name rest hbegins ih =>
    have hnamed := nameSamples_path hroot hbegins
    cases hsample : r.sampleAt? (Path.inside directory ++ name) with
    | some u =>
      obtain ⟨hu, hplace⟩ := h.place_of_sampleAt? hbegins.all hsample
      rw [nameFor, hsample] at hnamed
      exact .inr ⟨[], u, u, rest, hu, hu, by rw [hplace, hbegins.text]; simp, hbegins.ends, hnamed⟩
    | none =>
      rw [nameFor, hsample, Option.elim_none] at hnamed
      rcases ih with hsame | ⟨a, s, u, b, hs, hu, heq, hends, hrest⟩
      · exact .inl (by rw [hnamed, hsame, hbegins.text, List.append_assoc])
      · refine .inr ⟨Path.inside directory ++ name ++ a, s, u, b, hs, hu, ?_, hends, ?_⟩
        · rw [hbegins.text, heq]
          simp
        · rw [hnamed, hrest]
          simp
  | plain x t hunbegun ih =>
    have hnamed := nameSamples_cons hroot hunbegun
    rcases ih with hsame | ⟨a, s, u, b, hs, hu, heq, hends, hrest⟩
    · exact .inl (by rw [hnamed, hsame])
    · exact .inr ⟨x :: a, s, u, b, hs, hu, by rw [heq]; rfl, hends, by rw [hnamed, hrest]; rfl⟩

/-- Naming samples changes nothing of the name that a text begins with. -/
theorem leadingName_nameSamples (h : r.Housed directory) (t : Text) :
    leadingName (r.nameSamples t) = leadingName t := by
  have hroot := h.sampleRoot?_eq
  induction t using paths_induction directory with
  | nil => rw [nameSamples_nil hroot]
  | path t name rest hbegins _ =>
    -- a path and a reference begin with a slash
    have hslash : ∀ u, leadingName ('/' :: u) = [] := fun u => List.takeWhile_cons_of_neg (by decide)
    obtain ⟨c, w, -, hinside⟩ := h.holding.inside_eq
    rw [nameSamples_path hroot hbegins, hbegins.text, nameFor]
    cases hsample : r.sampleAt? (Path.inside directory ++ name) with
    | none =>
      simp only [Option.elim_none, hinside, List.cons_append, hslash]
    | some u =>
      obtain ⟨rest, hfile⟩ := (h.isPlace (h.place_of_sampleAt? hbegins.all hsample).1).1.begins
      simp only [Option.elim_some, hfile, hinside, List.cons_append, hslash]
  | plain x t hunbegun ih =>
    rw [nameSamples_cons hroot hunbegun, leadingName, leadingName, List.takeWhile_cons, List.takeWhile_cons]
    cases inSampleName x with
    | false => rfl
    | true => exact congrArg (x :: ·) ih

/-- Nor does replacing a sample's path. -/
theorem leadingName_replaceAll (h : r.Housed directory) (hs : s ∈ r.samples) (hnew : IsPlace directory new)
    (t : Text) : leadingName (t.replaceAll s.place new) = leadingName t := by
  obtain ⟨rest, hslash⟩ := h.exists_slash hs
  obtain ⟨rest', hbegins⟩ := hnew.begins
  by_cases hinfix : s.place <:+: t
  · obtain ⟨a, b, rfl, hmisses⟩ := Text.exists_first (h.place_ne_nil hs) hinfix
    rw [Text.replaceAll_append_of_misses hmisses, Text.replaceAll_append (h.place_ne_nil hs), hbegins, hslash,
      List.cons_append, List.cons_append, leadingName_append_cons (by decide), leadingName_append_cons (by decide)]
  · rw [Text.replaceAll_of_not_infix hinfix]

end Resolver

end Fenceline
