import Fenceline.Proofs.Location.SampleFile

/-!
# Places in samples as messages say them

A message says places in samples: a sample's file, perhaps as a URL, with a line and a column behind it
(`Mention`). Between these places stands other text, in which no sample file begins (`Told`).

**The laws.** `misses_before`: the directory of the sample files begins nowhere in front of a place.
`matchAt_embedded_of_invites`: neither does a reference.
-/

namespace Fenceline

open Pattern Reference

/-- **A place in a sample as a message says it**, and what stands behind it up to the next one. -/
structure Mention where
  /-- Whether the file is named by a URL. -/
  url : Bool
  sample : Sample
  line : Text
  column : Text
  after : Text

/-- **The place of a sample's opening fence** in its document. -/
def Sample.fencePlace (s : Sample) : Text :=
  s.file.toText ++ ':' :: Text.ofInt s.startLine ++ ':' :: Text.ofInt s.column

namespace Mention

def scheme (m : Mention) : Text :=
  if m.url then FileUrl.scheme else []

/-- The line and the column. -/
def numbers (m : Mention) : Text :=
  ':' :: m.line ++ ':' :: m.column

/-- The place, with the sample named in some way. -/
def named (name : Sample → Text) (m : Mention) : Text :=
  m.scheme ++ name m.sample ++ m.numbers

/-- The place in the sample's document. -/
def inDocument (m : Mention) : Text :=
  m.scheme ++ m.sample.file.toText ++
    ':' :: Text.ofInt (Text.valueOfDigits m.line + m.sample.startLine) ++
    ':' :: Text.ofInt (Text.valueOfDigits m.column + m.sample.column - 1)

/-- Places with what stands behind them. -/
def say (tell : Mention → Text) (ms : List Mention) : Text :=
  ms.flatMap fun m => tell m ++ m.after

theorem say_cons (tell : Mention → Text) (m : Mention) (ms : List Mention) :
    say tell (m :: ms) = tell m ++ (m.after ++ say tell ms) := by
  rw [say, List.flatMap_cons, List.append_assoc]
  rfl

theorem scheme_eq (m : Mention) : m.scheme = [] ∨ m.scheme = FileUrl.scheme := by
  unfold scheme
  split
  · exact .inr rfl
  · exact .inl rfl

/-- **Other text of a message**: no dollar sign stands in it, and no spelling of a sample file begins in
it, `next` being what stands behind. -/
structure Between (root t next : Text) : Prop where
  noDollar : '$' ∉ t
  misses : Text.Misses root t next

/-- **Text behind which a place may stand**: nothing, or text that ends in a blank, perhaps with a bracket
behind it. -/
def Invites (t : Text) : Prop :=
  t = [] ∨ ∃ u x, Text.isBlank x = true ∧ (t = u ++ [x] ∨ t = u ++ [x, '('])

/-- **Numbers that can be read back**: with no digit behind them, and short. -/
structure Numbered (m : Mention) : Prop where
  line : Digits m.line
  column : Digits m.column
  short : m.line.length < Text.maxDigits ∧ m.column.length < Text.maxDigits
  after : NoDigit m.after

/-- **A message that says places in samples**, from some other text on. -/
inductive Told (root : Text) : Text → List Mention → Prop
  | last {t : Text} (between : Between root t []) : Told root t []
  | next {t : Text} {m : Mention} {ms : List Mention}
      (between : Between root t (say (named Sample.place) (m :: ms))) (invites : Invites t)
      (numbered : m.Numbered) (told : Told root m.after ms) : Told root t (m :: ms)

/-! ## The other text -/

variable {root t next : Text} {m : Mention} {ms : List Mention}

theorem numbers_not_mem (h : m.Numbered) {x : Char} (hx : Text.isDecimal x = false) (hcolon : x ≠ ':') :
    x ∉ m.numbers := by
  have hdigits : ∀ {t : Text}, Digits t → x ∉ t := fun ht hmem => by
    rw [ht.isDecimal x hmem] at hx
    cases hx
  simp only [numbers, List.mem_append, List.mem_cons, not_or]
  exact ⟨⟨hcolon, hdigits h.line⟩, hcolon, hdigits h.column⟩

/-- No reference begins in text behind which a place may stand. -/
theorem matchAt_embedded_of_invites (ht : '$' ∉ t) (hinvites : Invites t) {v : Text} (hv : v ≠ [])
    (hvt : v <:+ t) (next : Text) (b : Option Char) : embedded.matchAt b (v ++ next) = none := by
  refine Option.eq_none_iff_forall_ne_some.2 fun m hm => ?_
  obtain ⟨x, run, rest, hx, hrun, heq⟩ := dollar_of_matchAt_embedded hm
  -- the dollar sign is behind the text, so all of it would be free of blanks
  have hbegin : v <+: x :: run :=
    Text.prefix_of_not_mem (fun hmem => ht (hvt.subset hmem)) (heq ▸ List.prefix_append v next)
  have hblank : ∀ y, Text.isBlank y = true → y ∉ v := fun y hy hmem => by
    have hnot := hrun y (hbegin.subset hmem)
    rw [notBlank, hy] at hnot
    cases hnot
  rcases hinvites with rfl | ⟨u, y, hy, rfl | rfl⟩
  · exact hv (List.suffix_nil.1 hvt)
  · rcases Text.suffix_append_cases hvt with hend | ⟨w, _, _, rfl⟩
    · rcases List.suffix_cons_iff.1 hend with rfl | hend
      · exact hblank y hy List.mem_cons_self
      · exact hv (List.suffix_nil.1 hend)
    · exact hblank y hy (List.mem_append_right w List.mem_cons_self)
  · rcases Text.suffix_append_cases hvt with hend | ⟨w, _, _, rfl⟩
    · rcases List.suffix_cons_iff.1 hend with rfl | hend
      · exact hblank y hy List.mem_cons_self
      · rcases List.suffix_cons_iff.1 hend with rfl | hend
        · rw [List.cons_prefix_cons] at hbegin
          rw [← hbegin.1] at hx
          exact absurd hx (by decide)
        · exact hv (List.suffix_nil.1 hend)
    · exact hblank y hy (List.mem_append_right w List.mem_cons_self)

/-- No reference begins in text without a dollar sign at the end of a message. -/
theorem matchAt_embedded_of_last {v : Text} (hv : '$' ∉ v) (b : Option Char) :
    embedded.matchAt b (v ++ []) = none := by
  refine Option.eq_none_iff_forall_ne_some.2 fun m hm => ?_
  obtain ⟨x, run, rest, _, _, heq⟩ := dollar_of_matchAt_embedded hm
  rw [List.append_nil] at heq
  exact hv (heq ▸ List.mem_append_right (x :: run) List.mem_cons_self)

/-- **Text without a dollar sign keeps all that could be taken for a reference.** -/
theorem substituteM_embedded_of_not_mem {put : Match → Except Failure Text} (ht : '$' ∉ t) :
    embedded.substituteM put t = .ok t := by
  have hturns : embedded.Turns put (t ++ []) (t ++ []) := by
    refine Turns.through (fun v _ hvt b m hm => ?_) Turns.nil
    rw [matchAt_embedded_of_last (fun hmem => ht (hvt.subset hmem)) b] at hm
    cases hm
  rw [List.append_nil] at hturns
  exact substituteM_of_turns hturns

/-- The path of a sample file begins with its directory. -/
theorem matchAt_samplePath_of_misses {w : Text} (h : Text.Misses root w next) {v : Text} (hv : v ≠ [])
    (hvw : v <:+ w) (b : Option Char) : (Resolver.samplePath root).matchAt b (v ++ next) = none := by
  refine Option.eq_none_iff_forall_ne_some.2 fun m hm => ?_
  obtain ⟨name, _, _, heq, _⟩ := Resolver.path_of_matchAt_samplePath hm
  exact h v hv hvw (heq ▸ List.prefix_append root _)

theorem misses_scheme {directory : Absolute} (h : Path.Holding directory) (m : Mention) (next : Text) :
    Text.Misses (Path.inside directory) m.scheme ('/' :: next) := by
  obtain ⟨c, w, hc, hinside⟩ := h.inside_eq
  intro v hv hscheme hbegin
  rw [hinside] at hbegin
  have hall : v <:+ ['f', 'i', 'l', 'e', ':', '/', '/'] := by
    rcases m.scheme_eq with hm | hm
    · rw [hm] at hscheme
      exact absurd (List.suffix_nil.1 hscheme) hv
    · rw [hm] at hscheme
      exact hscheme
  -- behind a slash of the scheme stands another one
  simp only [List.suffix_cons_iff, List.suffix_nil] at hall
  rcases hall with rfl | rfl | rfl | rfl | rfl | rfl | rfl | rfl
  all_goals simp_all [List.cons_prefix_cons]

theorem scheme_not_mem_dollar (m : Mention) : '$' ∉ m.scheme := by
  rcases m.scheme_eq with hm | hm
  · rw [hm]
    exact List.not_mem_nil
  · rw [hm]
    decide

variable {r : Resolver} {directory : Absolute} {s u : Sample} {pre : Text}

theorem place_ne_nil (hr : r.Extracted directory) (hs : s ∈ r.samples) : s.place ≠ [] := by
  obtain ⟨name, _, _, hplace⟩ := (hr.stored s hs).exists_name hr.holding.ne_nil
  rw [hplace]
  exact Path.inside_append_ne_nil directory name

/-- A spelling in the directory begins in that of a sample file only at its beginning. -/
theorem misses_file (hr : r.Extracted directory) {z : Text} (hcolon : ':' ∉ z) (hu : u ∈ r.samples)
    (hown : ¬ Path.inside directory ++ z <+: u.place) (next : Text) :
    Text.Misses (Path.inside directory ++ z) u.place (':' :: next) := by
  obtain ⟨other, hother, _, hplace⟩ := (hr.stored u hu).exists_name hr.holding.ne_nil
  intro v hv hvu hbegin
  by_cases hfull : v = u.place
  · rw [hfull] at hbegin
    refine hown ?_
    rw [hplace] at hbegin ⊢
    rw [List.append_assoc, List.prefix_append_right_inj] at hbegin
    exact (List.prefix_append_right_inj _).2 (Text.prefix_of_not_mem hcolon hbegin)
  · rw [hplace] at hvu hfull
    have hinside : Path.inside directory <+: Path.inside directory ++ z := List.prefix_append _ z
    exact hr.holding.not_prefix hother hv hvu hfull (hinside.trans hbegin)

theorem misses_of_not_mem_slash (hr : r.Extracted directory) (hpre : '/' ∉ pre) (next : Text) :
    Text.Misses (Path.inside directory) pre next := by
  obtain ⟨c, w, _, hinside⟩ := hr.holding.inside_eq
  rw [hinside]
  exact Text.misses_of_not_mem hpre _ next

/-- The directory begins nowhere in front of a sample's file. -/
theorem misses_before (hr : r.Extracted directory) (hpre : '/' ∉ pre) (hm : m.sample ∈ r.samples)
    (hbetween : Between (Path.inside directory) t (say (named Sample.place) (m :: ms))) :
    Text.Misses (Path.inside directory) (pre ++ (t ++ m.scheme))
      (m.sample.place ++ (m.numbers ++ (m.after ++ say (named Sample.place) ms))) := by
  obtain ⟨name, _, _, hplace⟩ := (hr.stored _ hm).exists_name hr.holding.ne_nil
  obtain ⟨c, w, _, hinside⟩ := hr.holding.inside_eq
  have hscheme := misses_scheme hr.holding m
    (c :: w ++ name ++ (m.numbers ++ (m.after ++ say (named Sample.place) ms)))
  have hmisses := hbetween.misses
  rw [say_cons, named, hplace, hinside] at hmisses
  rw [hplace, hinside]
  rw [hinside] at hscheme
  refine Text.Misses.append ?_ (Text.Misses.append ?_ ?_)
  · exact hinside ▸ misses_of_not_mem_slash hr hpre _
  · simpa using hmisses
  · simpa using hscheme

end Mention

end Fenceline
