import Fenceline.Proofs.Location.Citation
import Fenceline.Proofs.Location.Message

/-!
# Names in a message

A name goes on up to a blank, a colon or a slash (`leadingName`). The name of a sample file has a dollar sign with a
dot behind it; where no name in a text is like that (`Undotted`), no sample is named in it.

The sample files in a text are named from left to right, each up to the end of its name (`nameSamples_path`), and all
else stays (`nameSamples_cons`).

**The laws.** `Undotted.of_rewritten`: bringing references back to places makes no dotted name.
`nameSamples_of_undotted`: without one, no sample is named.
-/

namespace Fenceline

open Pattern Reference

namespace Resolver

variable {a b t t' : Text} {x : Char}

/-! ## Names with a dot behind a dollar sign -/

/-- **The name that a text begins with.** -/
def leadingName (t : Text) : Text :=
  t.takeWhile inSampleName

/-- A text that begins with a name without a dot, or with no name. -/
def Dotless (t : Text) : Prop :=
  '.' ∉ leadingName t

instance (t : Text) : Decidable (Dotless t) :=
  inferInstanceAs (Decidable ('.' ∉ leadingName t))

/-- **No dot stands behind a dollar sign in the same name.** -/
def Undotted (t : Text) : Prop :=
  ∀ a b, t = a ++ '$' :: b → Dotless b

/-- A name ends in front of a character that is none of a name. -/
theorem leadingName_append_cons (hx : inSampleName x = false) (a b : Text) :
    leadingName (a ++ x :: b) = leadingName a := by
  induction a with
  | nil => exact List.takeWhile_cons_of_neg (by simp [hx])
  | cons y a ih =>
    rw [List.cons_append, leadingName, leadingName, List.takeWhile_cons, List.takeWhile_cons]
    cases inSampleName y with
    | false => rfl
    | true => exact congrArg (y :: ·) ih

theorem leadingName_append (ha : ∀ x ∈ a, inSampleName x = true) (b : Text) :
    leadingName (a ++ b) = a ++ leadingName b :=
  List.takeWhile_append_of_pos ha

/-- A name begins with what it begins with in a part of the text. -/
theorem leadingName_prefix_append (a b : Text) : leadingName a <+: leadingName (a ++ b) := by
  rw [leadingName, leadingName, List.takeWhile_append]
  split
  · rename_i hall
    rw [(List.takeWhile_prefix _).eq_of_length hall]
    exact List.prefix_append a _
  · exact List.prefix_refl _

theorem Dotless.of_append (h : Dotless (a ++ b)) : Dotless a := fun hmem =>
  h ((leadingName_prefix_append a b).subset hmem)

/-- **A dot in a name** is one in a piece of the text that belongs to the name. -/
theorem not_dotless_of_mem (ha : ∀ x ∈ a, inSampleName x = true) (hdot : '.' ∈ a) (b : Text) : ¬ Dotless (a ++ b) := by
  rw [Dotless, leadingName_append ha]
  exact fun h => h (List.mem_append_left _ hdot)

theorem dotless_of_head? (h : ∀ x ∈ t.head?, inSampleName x = false) : Dotless t := by
  cases t with
  | nil => exact List.not_mem_nil
  | cons x t =>
    rw [Dotless, leadingName, List.takeWhile_cons_of_neg (by simp [h x rfl])]
    exact List.not_mem_nil

theorem undotted_of_not_mem (h : '$' ∉ t) : Undotted t := by
  rintro a b rfl
  simp at h

theorem Undotted.append_left (h : Undotted (a ++ b)) : Undotted a := by
  rintro u v rfl
  exact (h u (v ++ b) (by simp)).of_append

theorem Undotted.append_right (h : Undotted (a ++ b)) : Undotted b := by
  rintro u v rfl
  exact h (a ++ u) v (by simp)

theorem undotted_cons_dollar : Undotted ('$' :: t) ↔ Dotless t ∧ Undotted t := by
  constructor
  · intro h
    exact ⟨h [] t rfl, h.append_right (a := ['$'])⟩
  · rintro ⟨hfirst, h⟩ a b heq
    rcases List.cons_eq_append_iff.1 heq with ⟨rfl, hb⟩ | ⟨a, rfl, rfl⟩
    · rwa [(List.cons.inj hb).2]
    · exact h a b rfl

/-- Text without a dollar sign does not matter. -/
theorem undotted_append (ha : '$' ∉ a) : Undotted (a ++ b) ↔ Undotted b := by
  refine ⟨Undotted.append_right, fun h => ?_⟩
  induction a with
  | nil => exact h
  | cons x a ih =>
    rw [List.mem_cons, not_or] at ha
    intro u v heq
    rcases List.cons_eq_append_iff.1 heq with ⟨rfl, hb⟩ | ⟨u, rfl, hrest⟩
    · exact absurd (List.cons.inj hb).1 ha.1
    · exact ih ha.2 u v hrest

/-- **Where a name ends, a text can be cut.** -/
theorem undotted_append_cons (hx : inSampleName x = false) : Undotted (a ++ x :: b) ↔ Undotted a ∧ Undotted b := by
  have hdollar : '$' ∉ [x] := by
    rw [List.mem_singleton]
    rintro rfl
    exact absurd hx (by decide)
  constructor
  · exact fun h => ⟨h.append_left, (h.append_right (a := a)).append_right (a := [x])⟩
  · rintro ⟨ha, hb⟩
    induction a with
    | nil => exact (undotted_append (a := [x]) hdollar).2 hb
    | cons y a ih =>
      have hrest : Undotted (a ++ x :: b) := ih (ha.append_right (a := [y]))
      by_cases hy : y = '$'
      · subst hy
        rw [List.cons_append, undotted_cons_dollar]
        refine ⟨?_, hrest⟩
        rw [Dotless, leadingName_append_cons hx]
        exact (undotted_cons_dollar.1 ha).1
      · exact (undotted_append (a := [y]) (by simpa using Ne.symm hy)).2 hrest

/-! ## References become places -/

/-- A name goes on behind numbers as before, whatever the numbers are. -/
theorem Dotless.renumber {q old new y y' : Text} (h : Dotless (q ++ (old ++ y)))
    (hold : ∀ x ∈ old, inSampleName x = true) (hnew : ∀ x ∈ new, x ≠ '.') (hy : Dotless y → Dotless y') :
    Dotless (q ++ (new ++ y')) := by
  by_cases hq : ∀ x ∈ q, inSampleName x = true
  · rw [Dotless, leadingName_append hq, leadingName_append hold, List.mem_append, List.mem_append, not_or,
      not_or] at h
    obtain ⟨hfront, -, hbehind⟩ := h
    rw [Dotless, leadingName_append hq, List.mem_append, not_or]
    refine ⟨hfront, fun hmem => ?_⟩
    -- the name goes on behind the new numbers only if it does in front of them
    rw [leadingName, List.takeWhile_append] at hmem
    split at hmem
    · rcases List.mem_append.1 hmem with hmem | hmem
      · exact hnew '.' hmem rfl
      · exact hy hbehind hmem
    · exact hnew '.' ((List.takeWhile_prefix _).subset hmem) rfl
  · obtain ⟨x, hx, hname⟩ : ∃ x ∈ q, inSampleName x = false := by simpa using hq
    obtain ⟨u, v, rfl⟩ := List.append_of_mem hx
    rw [Dotless, List.append_assoc, List.cons_append, leadingName_append_cons hname] at h ⊢
    exact h

theorem Undotted.renumber {q old new y y' : Text} (h : Undotted (q ++ (old ++ y)))
    (hold : ∀ x ∈ old, inSampleName x = true) (hnew : ∀ x ∈ new, x ≠ '.' ∧ x ≠ '$') (hy : Dotless y → Dotless y')
    (hy' : Undotted y') : Undotted (q ++ (new ++ y')) := by
  induction q with
  | nil => exact (undotted_append fun hmem => (hnew '$' hmem).2 rfl).2 hy'
  | cons x q ih =>
    have hrest := ih (h.append_right (a := [x]))
    by_cases hx : x = '$'
    · subst hx
      rw [List.cons_append, undotted_cons_dollar] at h ⊢
      exact ⟨h.1.renumber hold (fun x hx => (hnew x hx).1) hy, hrest⟩
    · exact (undotted_append (a := [x]) (by simpa using Ne.symm hx)).2 hrest

theorem inSampleName_of_isDecimal (h : Text.isDecimal x = true) : inSampleName x = true := by
  have hblank : Text.isBlank x = false := Bool.eq_false_iff.2 fun hblank => by
    rw [Text.isDecimal_of_isBlank hblank] at h
    cases h
  have hother : ∀ y, Text.isDecimal y = false → x ≠ y := fun y hy heq => by
    rw [← heq, h] at hy
    cases hy
  simp [inSampleName, hblank, hother ':' (by decide), hother '/' (by decide), hother '\\' (by decide +kernel)]

theorem inSampleName_of_mem_ofInt {n : Int} (h : x ∈ Text.ofInt n) : inSampleName x = true := by
  by_cases hminus : x = '-'
  · rw [hminus]
    decide
  · refine inSampleName_of_isDecimal (Text.isDecimal_of_isDigit ?_)
    by_contra hdigit
    exact Text.not_mem_ofInt hminus (Bool.eq_false_iff.2 hdigit) h

theorem ne_of_mem_ofInt {n : Int} (h : x ∈ Text.ofInt n) : x ≠ '.' ∧ x ≠ '$' := by
  constructor <;> rintro rfl <;> exact Text.not_mem_ofInt (by decide) (by decide) h

/-- A path that says where it begins holds a slash. -/
theorem exists_slash {file : Text} (h : Rooted file) : ∃ p q, file = p ++ '/' :: q := by
  have hstarts : ∀ start ∈ ["/", "./", "../"], '/' ∈ start.toList := by decide +kernel
  obtain ⟨start, hstart, hbegins⟩ := h.begins
  exact List.append_of_mem (hbegins.subset (hstarts start hstart))

/-- **A name goes no further than to the path of a reference**, whatever stands behind the path. -/
theorem leadingName_citation (c : Citation) (u v : Text) :
    leadingName (c.scheme ++ (c.file ++ u)) = leadingName (c.scheme ++ (c.file ++ v)) := by
  obtain ⟨p, q, hfile⟩ := exists_slash c.rooted
  have hcut : ∀ w, c.scheme ++ (c.file ++ w) = (c.scheme ++ p) ++ '/' :: (q ++ w) := fun w => by
    rw [hfile]
    simp only [List.append_assoc, List.cons_append]
  rw [hcut, hcut, leadingName_append_cons (by decide), leadingName_append_cons (by decide)]

/-- **Bringing references back to places makes no dotted name.** -/
theorem Undotted.of_rewritten (h : Undotted t) (hrewritten : Rewritten Unmarks t t') :
    Undotted t' ∧ (Dotless t → Dotless t') := by
  induction hrewritten with
  | nil => exact ⟨h, id⟩
  | @plain t t' x _ ih =>
    obtain ⟨hrest, hname⟩ := ih (h.append_right (a := [x]))
    constructor
    · by_cases hx : x = '$'
      · subst hx
        rw [undotted_cons_dollar] at h ⊢
        exact ⟨hname h.1, hrest⟩
      · exact (undotted_append (a := [x]) (by simpa using Ne.symm hx)).2 hrest
    · intro hdotless
      by_cases hx : inSampleName x = true
      · rw [Dotless, leadingName, List.takeWhile_cons_of_pos hx, List.mem_cons, not_or] at hdotless ⊢
        exact ⟨hdotless.1, hname hdotless.2⟩
      · rw [Dotless, leadingName, List.takeWhile_cons_of_neg hx]
        exact List.not_mem_nil
  | @put w u t t' hput _ ih =>
    obtain ⟨c, line, column, rfl, rfl⟩ := hput
    obtain ⟨hscheme, hfile⟩ := c.dollar_not_mem
    obtain ⟨-, -, hline, hcolumn⟩ := c.digits
    have hdigits : ∀ {run : Text}, Digits run → ∀ x ∈ run, inSampleName x = true := fun hrun x hx =>
      inSampleName_of_isDecimal (hrun.isDecimal x hx)
    have hold : c.text ++ t = c.scheme ++ (c.file ++ (c.mark ++ (c.beforeLine.1 ++ ':' :: ((c.beforeLine.2 ++
        (c.line ++ c.beforeColumn.1)) ++ ':' :: (c.beforeColumn.2 ++ (c.column ++ t)))))) := by
      simp [Citation.text, Citation.behind]
    have hnew : c.placedAt (Text.ofInt line) (Text.ofInt column) ++ t' = c.scheme ++ (c.file ++ (c.beforeLine.1 ++
        ':' :: ((c.beforeLine.2 ++ (Text.ofInt line ++ c.beforeColumn.1)) ++ ':' :: (c.beforeColumn.2 ++
          (Text.ofInt column ++ t'))))) := by
      simp [Citation.placedAt, Citation.behind]
    rw [hold] at h ⊢
    rw [hnew]
    have hbehind := ((h.append_right (a := c.scheme)).append_right (a := c.file)).append_right (a := c.mark)
    rw [undotted_append_cons (by decide), undotted_append_cons (by decide)] at hbehind
    obtain ⟨hfirst, hsecond, hthird⟩ := hbehind
    obtain ⟨hrest, hname⟩ := ih ((hthird.append_right (a := c.beforeColumn.2)).append_right (a := c.column))
    constructor
    · rw [undotted_append hscheme, undotted_append hfile, undotted_append_cons (by decide),
        undotted_append_cons (by decide)]
      refine ⟨hfirst, ?_, ?_⟩
      · exact hsecond.renumber (hdigits hline) (fun _ hx => ne_of_mem_ofInt hx) id
          ((hsecond.append_right (a := c.beforeLine.2)).append_right (a := c.line))
      · exact hthird.renumber (hdigits hcolumn) (fun _ hx => ne_of_mem_ofInt hx) hname hrest
    · rw [Dotless, Dotless, leadingName_citation c _ _]
      exact id

/-- **A message without two dollar signs has lost its own, or stays.** -/
theorem eq_or_count_lt (hrewritten : Rewritten Unmarks t t') : t' = t ∨ t'.count '$' < t.count '$' := by
  have hcite : ∀ w u, Unmarks w u → u.count '$' < w.count '$' := by
    rintro _ _ ⟨c, line, column, rfl, rfl⟩
    have hint : ∀ n, '$' ∉ Text.ofInt n := fun n => Text.not_mem_ofInt (by decide) (by decide)
    have hdigits : ∀ {run : Text}, Digits run → '$' ∉ run := fun hrun hmem =>
      absurd (hrun.isDecimal '$' hmem) (by decide)
    obtain ⟨-, -, hline, hcolumn⟩ := c.digits
    simp [Citation.text, Citation.placedAt, Citation.mark, Citation.behind, List.count_eq_zero_of_not_mem (hint _),
      List.count_eq_zero_of_not_mem (hdigits hline), List.count_eq_zero_of_not_mem (hdigits hcolumn)]
    omega
  have hle : ∀ {t t' : Text}, Rewritten Unmarks t t' → t'.count '$' ≤ t.count '$' := by
    intro t t' h
    induction h with
    | nil => exact Nat.le_refl _
    | plain x _ ih =>
      rw [List.count_cons, List.count_cons]
      exact Nat.add_le_add_right ih _
    | put hput _ ih =>
      rw [List.count_append, List.count_append]
      exact Nat.add_le_add (Nat.le_of_lt (hcite _ _ hput)) ih
  induction hrewritten with
  | nil => exact .inl rfl
  | plain x _ ih =>
    rcases ih with rfl | ih
    · exact .inl rfl
    · rw [List.count_cons, List.count_cons]
      exact .inr (Nat.add_lt_add_right ih _)
  | put hput hrest _ =>
    rw [List.count_append, List.count_append]
    exact .inr (Nat.add_lt_add_of_lt_of_le (hcite _ _ hput) (hle hrest))

/-! ## Sample files are named -/

variable {r : Resolver} {directory : Absolute} {name rest rest' : Text}

/-- **A path of the sample files' directory at the beginning of a text**, up to the end of its name. -/
structure Begins (directory : Absolute) (t name rest : Text) : Prop where
  text : t = Path.inside directory ++ (name ++ rest)
  ne_nil : name ≠ []
  all : ∀ x ∈ name, inSampleName x = true
  ends : ∀ x ∈ rest.head?, inSampleName x = false

/-- No path of the directory begins a text. -/
def Unbegun (directory : Absolute) (t : Text) : Prop :=
  ∀ name rest, name ≠ [] → (∀ x ∈ name, inSampleName x = true) → t ≠ Path.inside directory ++ (name ++ rest)

theorem begins_or_unbegun (directory : Absolute) (t : Text) :
    (∃ name rest, Begins directory t name rest) ∨ Unbegun directory t := by
  by_cases h : Unbegun directory t
  · exact .inr h
  · simp only [Unbegun, not_forall, not_not] at h
    obtain ⟨name, rest, hne, hall, rfl⟩ := h
    refine .inl ⟨leadingName (name ++ rest), (name ++ rest).dropWhile inSampleName, ?_, ?_, ?_, ?_⟩
    · rw [leadingName, List.takeWhile_append_dropWhile]
    · rw [leadingName_append hall]
      exact List.append_ne_nil_of_left_ne_nil hne _
    · exact fun x hx => List.mem_takeWhile_imp hx
    · intro x hx
      have hends := List.head?_dropWhile_not inSampleName (name ++ rest)
      rwa [hx] at hends

/-- **A text is read path by path**: a path of the directory begins it, or else one character is passed over. -/
@[elab_as_elim]
theorem paths_induction (directory : Absolute) {motive : Text → Prop} (nil : motive [])
    (path : ∀ t name rest, Begins directory t name rest → motive rest → motive t)
    (plain : ∀ x t, Unbegun directory (x :: t) → motive t → motive (x :: t)) (t : Text) : motive t := by
  induction hn : t.length using Nat.strongRecOn generalizing t with
  | ind n ih =>
    rcases begins_or_unbegun directory t with ⟨name, rest, h⟩ | h
    · refine path t name rest h (ih rest.length ?_ rest rfl)
      have hpos := List.length_pos_iff.2 h.ne_nil
      rw [← hn, h.text, List.length_append, List.length_append]
      omega
    · cases t with
      | nil => exact nil
      | cons x t => exact plain x t h (ih t.length (hn ▸ Nat.lt_succ_self _) t rfl)

/-- What a path of the directory is put as: a reference, if a sample is known there. -/
def nameFor (r : Resolver) (path : Text) : Text :=
  (r.sampleAt? path).elim path Sample.reference

theorem naming_path (h : Begins directory t name rest) (hrest : Mention.Naming r directory rest rest') :
    Mention.Naming r directory t (r.nameFor (Path.inside directory ++ name) ++ rest') := by
  obtain ⟨rfl, hne, hall, hends⟩ := h
  refine Turns.hit ?_ (fun b => ?_) hrest
  · have hpos := List.length_pos_iff.2 hne
    simp only [List.length_append]
    omega
  · obtain ⟨m, hm, hmrest, htext⟩ := matchAt_samplePath (Path.inside directory) hne hall hends b
    exact ⟨m, hm, hmrest, by rw [Mention.putSample, htext, nameFor]⟩

theorem naming_plain (h : Unbegun directory (x :: t)) (ht : Mention.Naming r directory t t') :
    Mention.Naming r directory (x :: t) (x :: t') := by
  refine Turns.plain (fun b => Option.eq_none_iff_forall_ne_some.2 fun m hm => ?_) ht
  obtain ⟨name, hne, hall, heq, -⟩ := path_of_matchAt_samplePath hm
  exact h name m.rest hne hall heq

/-- **Every text becomes something** when its sample files are named, whatever stands before it. -/
theorem exists_naming (r : Resolver) (directory : Absolute) (t : Text) : ∃ t', Mention.Naming r directory t t' := by
  induction t using paths_induction directory with
  | nil => exact ⟨[], Turns.nil⟩
  | path t name rest h ih =>
    obtain ⟨rest', hrest⟩ := ih
    exact ⟨_, naming_path h hrest⟩
  | plain x t h ih =>
    obtain ⟨t', ht⟩ := ih
    exact ⟨_, naming_plain h ht⟩

section

variable (hroot : r.sampleRoot? = some (Path.inside directory))
include hroot

theorem nameSamples_of_naming (h : Mention.Naming r directory t t') : r.nameSamples t = t' := by
  rw [nameSamples, hroot]
  exact substitute_of_turns h

theorem naming_nameSamples (t : Text) : Mention.Naming r directory t (r.nameSamples t) := by
  obtain ⟨t', ht⟩ := exists_naming r directory t
  rwa [nameSamples_of_naming hroot ht]

/-- **A path of the directory is put as it is told to**, up to the end of its name. -/
theorem nameSamples_path (h : Begins directory t name rest) :
    r.nameSamples t = r.nameFor (Path.inside directory ++ name) ++ r.nameSamples rest :=
  nameSamples_of_naming hroot (naming_path h (naming_nameSamples hroot rest))

/-- **A character at which no path of the directory begins stays.** -/
theorem nameSamples_cons (h : Unbegun directory (x :: t)) : r.nameSamples (x :: t) = x :: r.nameSamples t :=
  nameSamples_of_naming hroot (naming_plain h (naming_nameSamples hroot t))

theorem nameSamples_nil : r.nameSamples [] = [] :=
  nameSamples_of_naming hroot Turns.nil

end

/-- **No sample is named where no name has a dot behind a dollar sign**, if the names of all samples have one. -/
theorem nameSamples_of_undotted (hroot : r.sampleRoot? = some (Path.inside directory))
    (hspellable : Path.Spellable directory) (hmarked : ∀ s ∈ r.samples, ∃ stem ending,
      s.path = some (.ofAbsolute (directory ++ [stem ++ '$' :: ending])) ∧ '.' ∈ ending) (ht : Undotted t) :
    r.nameSamples t = t := by
  induction t using paths_induction directory with
  | nil => exact nameSamples_nil hroot
  | path t name rest h ih =>
    have hunknown : r.sampleAt? (Path.inside directory ++ name) = none := by
      refine List.find?_eq_none.2 fun s hs hsame => ?_
      obtain ⟨stem, ending, hpath, hdot⟩ := hmarked s hs
      have hslash : '/' ∉ name := fun hmem => absurd (h.all '/' hmem) (by decide)
      rw [hpath, beq_iff_eq, Option.some_inj] at hsame
      obtain rfl := Path.name_eq hspellable hslash hsame.symm
      have hending : ∀ x ∈ ending, inSampleName x = true := fun x hx => h.all x (by simp [hx])
      refine not_dotless_of_mem hending hdot rest (ht (Path.inside directory ++ stem) (ending ++ rest) ?_)
      rw [h.text]
      simp
    have hrest : Undotted rest := by
      rw [h.text, ← List.append_assoc] at ht
      exact ht.append_right
    rw [nameSamples_path hroot h, nameFor, hunknown, ih hrest, h.text]
    exact List.append_assoc ..
  | plain x t h ih => rw [nameSamples_cons hroot h, ih (ht.append_right (a := [x]))]

end Resolver

end Fenceline
