import Fenceline.Location.FileUrl
import Fenceline.Location.Reference
import Fenceline.Location.Resolver
import Fenceline.Proofs.Pattern.Reading
import Fenceline.Proofs.Text.Numeral

/-!
# Reading references and the paths of sample files

**The laws.** `matchAt_embedded`: a reference in a message is read as a whole, with its parts, when no digit
stands behind it. `dollar_of_matchAt_embedded`: whatever is read as one begins like a path or a URL, and has
a dollar sign before its first blank. `matchAt_samplePath`, `path_of_matchAt_samplePath`: the path of a
sample file is read up to the end of its name.
-/

namespace Fenceline

open Pattern

namespace Reference

variable {q : Pattern} {b : Option Char} {c d : Cursor} {caps : List Capture} {url rest : Text}

/-! ## A reference in a message -/

theorem run_of_mem_rooted (h : d ∈ rooted.results c) :
    ∃ x run, (x = '/' ∨ x = '.') ∧ (∀ y ∈ x :: run, notBlank y = true) ∧
      c.ahead = x :: run ++ d.ahead := by
  rw [rooted, results, List.mem_flatMap] at h
  obtain ⟨e, he, hd⟩ := h
  obtain ⟨run, hrun, hahead⟩ := run_of_mem_many hd
  have hnotBlank : ∀ y ∈ run, notBlank y = true := fun y hy => (Bool.and_eq_true_iff.1 (hrun y hy)).1
  have hbegin : ∃ x start, (x = '/' ∨ x = '.') ∧ (∀ y ∈ x :: start, notBlank y = true) ∧
      c.ahead = x :: start ++ e.ahead := by
    rw [anyOf, anyOf, anyOf, results, results, List.mem_append, List.mem_append] at he
    rcases he with he | he | he
    · exact ⟨'/', [], .inl rfl, List.all_eq_true.1 (by decide), ahead_of_mem_literal he⟩
    · exact ⟨'.', ['/'], .inr rfl, List.all_eq_true.1 (by decide), ahead_of_mem_literal he⟩
    · exact ⟨'.', ['.', '/'], .inr rfl, List.all_eq_true.1 (by decide), ahead_of_mem_literal he⟩
  obtain ⟨x, start, hx, hstart, hc⟩ := hbegin
  refine ⟨x, start ++ run, hx, ?_, ?_⟩
  · intro y hy
    rcases List.mem_append.1 (show y ∈ (x :: start) ++ run from hy) with hy | hy
    · exact hstart y hy
    · exact hnotBlank y hy
  · rw [hc, hahead]
    simp

/-- How a reference begins: its path, perhaps as a URL. -/
def path : Pattern :=
  group "url" (.seq (maybe "file://") (group "file" rooted))

/-- What stands behind the mark of a reference: the line and the column. -/
def place : Pattern :=
  all [group "a1" upToBlank, lit ":", group "a2" upToBlank, number "line", group "a3" upToBlank,
    lit ":", group "a4" upToBlank, number "column"]

theorem embedded_eq : embedded =
    .seq path (.seq (lit "$") (.seq (group "start" digits) (.seq (lit "-")
      (.seq (group "end" digits) (.seq extension place))))) := rfl

theorem run_of_mem_path (h : d ∈ path.results c) :
    ∃ x run, (x = 'f' ∨ x = '/' ∨ x = '.') ∧ (∀ y ∈ x :: run, notBlank y = true) ∧
      c.ahead = x :: run ++ d.ahead := by
  rw [path, results, List.mem_map] at h
  obtain ⟨d, hd, rfl⟩ := h
  rw [results, List.mem_flatMap] at hd
  obtain ⟨e, he, hd⟩ := hd
  rw [results, List.mem_map] at hd
  obtain ⟨d, hd, rfl⟩ := hd
  obtain ⟨x, run, hx, hrun, hahead⟩ := run_of_mem_rooted hd
  rw [maybe, results, List.mem_append, List.mem_singleton] at he
  rcases he with he | rfl
  · refine ⟨'f', "ile://".toList ++ x :: run, .inl rfl, ?_, ?_⟩
    · intro y hy
      rcases List.mem_append.1 (show y ∈ "file://".toList ++ x :: run from hy) with hy | hy
      · exact List.all_eq_true.1 (by decide : "file://".toList.all notBlank = true) y hy
      · exact hrun y hy
    · rw [ahead_of_mem_literal he, hahead]
      exact (List.append_assoc "file://".toList (x :: run) d.ahead).symm
  · exact ⟨x, run, .inr hx, hrun, hahead⟩

/-- Whatever is read as a reference begins like a path or a URL, and has a dollar sign before its first
blank. -/
theorem dollar_of_matchAt_embedded {t : Text} {m : Match} (h : embedded.matchAt b t = some m) :
    ∃ x run rest, (x = 'f' ∨ x = '/' ∨ x = '.') ∧ (∀ y ∈ x :: run, notBlank y = true) ∧
      t = x :: run ++ '$' :: rest := by
  have hmem := mem_results_of_matchAt h
  rw [embedded_eq, results, List.mem_flatMap] at hmem
  obtain ⟨e, he, hmem⟩ := hmem
  rw [results, List.mem_flatMap] at hmem
  obtain ⟨g, hg, -⟩ := hmem
  obtain ⟨x, run, hx, hrun, hahead⟩ := run_of_mem_path he
  refine ⟨x, run, g.ahead, hx, hrun, ?_⟩
  rw [ahead_of_mem_literal hg] at hahead
  exact hahead

/-- **A path that says where it begins**, without blanks and dollar signs. -/
structure Rooted (file : Text) : Prop where
  begins : ∃ start ∈ ["/", "./", "../"], start.toList <+: file
  plain : ∀ x ∈ file, notBlank x = true ∧ x ≠ '$'

instance (file : Text) : Decidable (Rooted file) :=
  decidable_of_iff
    ((∃ start ∈ ["/", "./", "../"], start.toList <+: file) ∧ file.all (fun x => notBlank x && x != '$') = true)
    ⟨fun h => ⟨h.1, fun x hx => by simpa using List.all_eq_true.1 h.2 x hx⟩,
      fun h => ⟨h.begins, List.all_eq_true.2 fun x hx => by simpa using h.plain x hx⟩⟩

theorem rooted_slash {run : Text} (hrun : ∀ x ∈ run, notBlank x = true ∧ x ≠ '$') : Rooted ('/' :: run) :=
  ⟨⟨"/", List.mem_cons_self, ⟨run, rfl⟩⟩, List.forall_mem_cons.2 ⟨by decide +kernel, hrun⟩⟩

variable {file : Text}

theorem Rooted.head? (h : Rooted file) : file.head? = some '/' ∨ file.head? = some '.' := by
  obtain ⟨⟨start, hstart, run, rfl⟩, -⟩ := h
  simp only [List.mem_cons, List.not_mem_nil, or_false] at hstart
  rcases hstart with rfl | rfl | rfl
  · exact .inl rfl
  · exact .inr rfl
  · exact .inr rfl

/-- There is one way to begin a path. -/
theorem results_start {start : String} (hstart : start ∈ ["/", "./", "../"]) (b : Option Char) (caps : List Capture)
    (t : Text) :
    (anyOf (lit "/") [lit "./", lit "../"]).results ⟨b, start.toList ++ t, caps⟩ = [⟨some '/', t, caps⟩] := by
  have hread : (lit start).results ⟨b, start.toList ++ t, caps⟩ = [⟨behind b start.toList, t, caps⟩] :=
    results_literal start.toList
  rw [anyOf, anyOf, anyOf, results, results]
  simp only [List.mem_cons, List.not_mem_nil, or_false] at hstart
  rcases hstart with rfl | rfl | rfl
  · have hone : (lit "./").results ⟨b, "/".toList ++ t, caps⟩ = [] := results_literal_of_ne '.' ['/'] (by simp)
    have htwo : (lit "../").results ⟨b, "/".toList ++ t, caps⟩ = [] := results_literal_of_ne '.' ['.', '/'] (by simp)
    rw [hread, hone, htwo]
    rfl
  · have hnone : (lit "/").results ⟨b, "./".toList ++ t, caps⟩ = [] := results_literal_of_ne '/' [] (by simp)
    rw [hread, hnone]
    rfl
  · have hnone : (lit "/").results ⟨b, "../".toList ++ t, caps⟩ = [] := results_literal_of_ne '/' [] (by simp)
    rw [hread, hnone]
    rfl

/-- A path is read up to each of its characters, and at last up to the dollar sign behind it. -/
theorem results_rooted (b : Option Char) (caps : List Capture) (rest : Text) (hfile : Rooted file) :
    ∃ dead b', rooted.results ⟨b, file ++ '$' :: rest, caps⟩ = dead ++ [⟨b', '$' :: rest, caps⟩] ∧
      ∀ d ∈ dead, d.ahead.head? ≠ some '$' := by
  obtain ⟨⟨start, hstart, run, rfl⟩, hplain⟩ := hfile
  have hrun : ∀ x ∈ run, notBlank x = true ∧ x ≠ '$' := fun x hx => hplain x (List.mem_append_right _ hx)
  have haccepts : ∀ x ∈ run, (notBlank x && x != '$') = true := fun x hx => by simp [hrun x hx]
  have hdollar : ∀ x ∈ ('$' :: rest).head?, (notBlank x && x != '$') = false := by simp
  obtain ⟨dead, hlazy, hdead⟩ := results_lazy (some '/') caps haccepts hdollar
  refine ⟨dead, behind (some '/') run, ?_, fun d hd => ?_⟩
  · rw [List.append_assoc, rooted, results, results_start hstart, List.flatMap_singleton, hlazy]
  · obtain ⟨x, hx, hhead⟩ := hdead d hd
    rw [hhead]
    exact fun he => (hrun x hx).2 (Option.some.inj he)

theorem results_rooted_of_ne (hslash : c.ahead.head? ≠ some '/') (hdot : c.ahead.head? ≠ some '.') :
    rooted.results c = [] := by
  refine List.eq_nil_iff_forall_not_mem.2 fun d hd => ?_
  obtain ⟨x, run, hx, _, hahead⟩ := run_of_mem_rooted hd
  rw [hahead, List.cons_append, List.head?_cons] at hslash hdot
  rcases hx with rfl | rfl
  · exact hslash rfl
  · exact hdot rfl

/-- The parts of a reference that its path gives. -/
def pathCaptures (url file rest : Text) (caps : List Capture) : List Capture :=
  ⟨"url", url ++ file ++ rest, rest⟩ :: ⟨"file", file ++ rest, rest⟩ :: caps

theorem results_path (b : Option Char) (caps : List Capture) (rest : Text)
    (hurl : url = [] ∨ url = FileUrl.scheme) (hfile : Rooted file) :
    ∃ dead b', path.results ⟨b, url ++ file ++ '$' :: rest, caps⟩ =
        dead ++ [⟨b', '$' :: rest, pathCaptures url file ('$' :: rest) caps⟩] ∧
      ∀ d ∈ dead, d.ahead.head? ≠ some '$' := by
  obtain ⟨dead, b', hrooted, hdead⟩ :=
    results_rooted (behind b url) caps rest hfile
  -- there is no other way to begin than with the whole scheme, or without one
  have hread : (Pattern.seq (maybe "file://") (group "file" rooted)).results
      ⟨b, url ++ file ++ '$' :: rest, caps⟩ =
        (rooted.results ⟨behind b url, file ++ '$' :: rest, caps⟩).map
          (Cursor.capture "file" ⟨behind b url, file ++ '$' :: rest, caps⟩) := by
    rw [results, maybe, results, List.flatMap_append, List.flatMap_singleton]
    rcases hurl with rfl | rfl
    · have hbegins : ([] ++ file ++ '$' :: rest).head? ≠ some 'f' := by
        rcases hfile.head? with hhead | hhead <;> simp [List.head?_append, hhead]
      have hscheme : (lit "file://").results ⟨b, [] ++ file ++ '$' :: rest, caps⟩ = [] :=
        results_literal_of_ne 'f' "ile://".toList hbegins
      rw [hscheme]
      rfl
    · have hscheme : (lit "file://").results ⟨b, FileUrl.scheme ++ file ++ '$' :: rest, caps⟩ =
          [⟨behind b FileUrl.scheme, file ++ '$' :: rest, caps⟩] := by
        rw [List.append_assoc]
        exact results_literal FileUrl.scheme
      have hbare : (group "file" rooted).results
          ⟨b, FileUrl.scheme ++ file ++ '$' :: rest, caps⟩ = [] := by
        rw [results, results_rooted_of_ne]
        · rfl
        · exact (by decide : some 'f' ≠ some '/')
        · exact (by decide : some 'f' ≠ some '.')
      rw [hscheme, hbare, List.append_nil, List.flatMap_singleton, results]
  refine ⟨(dead.map (Cursor.capture "file" ⟨behind b url, file ++ '$' :: rest, caps⟩)).map
    (Cursor.capture "url" ⟨b, url ++ file ++ '$' :: rest, caps⟩), b', ?_, ?_⟩
  · rw [path, results, hread, hrooted, List.map_append, List.map_append]
    rfl
  · intro d hd
    simp only [List.mem_map] at hd
    obtain ⟨_, ⟨d, hd, rfl⟩, rfl⟩ := hd
    exact hdead d hd

theorem first_extension (h : c.ahead.head? ≠ some '.') : extension.First c c := by
  have hdot : (lit ".").results c = [] := results_literal_of_ne '.' [] h
  refine first_opt_of_results ?_
  rw [results, hdot]
  rfl

/-- **What may stand behind a mark**: an extension, or nothing. -/
inductive Ending : Text → Prop
  | nothing : Ending []
  | extension {word : Text} : word ≠ [] → (∀ x ∈ word, Text.isWord x = true) → Ending ('.' :: word)

/-- An extension is read up to a character that belongs to no word. -/
theorem first_ending {ending : Text} (h : Ending ending) (hrest : ∀ x ∈ rest.head?, x ≠ '.' ∧ Text.isWord x = false) :
    extension.First ⟨b, ending ++ rest, caps⟩ ⟨behind b ending, rest, caps⟩ := by
  cases h with
  | nothing => exact first_extension fun hhead => (hrest '.' hhead).1 rfl
  | @extension word hne hall =>
    rw [behind_cons]
    exact ((first_char '.').seq (first_some1 hne hall fun x hx => (hrest x hx).2)).opt

/-- A run of decimal digits. -/
structure Digits (t : Text) : Prop where
  ne_nil : t ≠ []
  isDecimal : ∀ x ∈ t, Text.isDecimal x = true

instance (t : Text) : Decidable (Digits t) :=
  decidable_of_iff (t ≠ [] ∧ t.all Text.isDecimal = true)
    ⟨fun h => ⟨h.1, List.all_eq_true.1 h.2⟩, fun h => ⟨h.ne_nil, List.all_eq_true.2 h.isDecimal⟩⟩

theorem digits_ofNat (n : Nat) : Digits (Text.ofNat n) :=
  ⟨Text.ofNat_ne_nil n, fun _ hx => Text.isDecimal_of_isDigit (Text.isDigit_of_mem_ofNat hx)⟩

/-- No digit is ahead. -/
def NoDigit (t : Text) : Prop :=
  ∀ x ∈ t.head?, Text.isDecimal x = false

theorem noDigit_cons {x : Char} (h : Text.isDecimal x = false) (t : Text) : NoDigit (x :: t) := by
  intro y hy
  obtain rfl := Option.some.inj hy
  exact h

/-- No blank stands in an extension. -/
theorem Ending.notBlank {ending : Text} (h : Ending ending) : ∀ x ∈ ending, Pattern.notBlank x = true := by
  cases h with
  | nothing => exact List.forall_mem_nil _
  | extension _ hword =>
    refine List.forall_mem_cons.2 ⟨by decide, fun x hx => ?_⟩
    rw [Pattern.notBlank, Text.isBlank_of_isWord (hword x hx)]
    rfl

/-- No digit is ahead of an extension. -/
theorem Ending.noDigit {ending : Text} (h : Ending ending) (hrest : NoDigit rest) : NoDigit (ending ++ rest) := by
  cases h with
  | nothing => exact hrest
  | extension => exact noDigit_cons (by decide +kernel) _

theorem first_digits {run : Text} (hrun : Digits run) (hrest : NoDigit rest) (name : String) :
    (group name digits).First ⟨b, run ++ rest, caps⟩
      ⟨behind b run, rest, ⟨name, run ++ rest, rest⟩ :: caps⟩ :=
  (first_some1 hrun.ne_nil hrun.isDecimal hrest).group

/-- What is named around a colon, with nothing there. -/
def colonCaptures (before after : String) (t : Text) (caps : List Capture) : List Capture :=
  ⟨after, t, t⟩ :: ⟨before, ':' :: t, ':' :: t⟩ :: caps

/-- A colon with nothing around it. -/
theorem first_colon {before after : String} {t : Text}
    (hq : q.First ⟨some ':', t, colonCaptures before after t caps⟩ d) :
    (Pattern.seq (group before upToBlank) (.seq (lit ":") (.seq (group after upToBlank) q))).First
      ⟨b, ':' :: t, caps⟩ d := by
  have hbefore : (group before upToBlank).First ⟨b, ':' :: t, caps⟩
      ⟨b, ':' :: t, ⟨before, ':' :: t, ':' :: t⟩ :: caps⟩ := first_lazy.group
  have hafter : ∀ caps, (group after upToBlank).First ⟨some ':', t, caps⟩
      ⟨some ':', t, ⟨after, t, t⟩ :: caps⟩ := fun _ => first_lazy.group
  exact hbefore.seq ((first_char ':').seq ((hafter _).seq hq))

/-- A number behind a colon. -/
theorem first_number {run : Text} (hrun : Digits run) (hrest : NoDigit rest) (name : String) :
    (number name).First ⟨some ':', run ++ rest, caps⟩
      ⟨behind (some ':') run, rest, ⟨name, run ++ rest, rest⟩ :: caps⟩ := by
  have hcolon : bindsNumber ':' = false := by decide
  have hedge : (notAfter bindsNumber).First ⟨some ':', run ++ rest, caps⟩
      ⟨some ':', run ++ rest, caps⟩ := first_notAfter hcolon
  exact hedge.seq (first_digits hrun hrest name)

/-- **A match with the parts of a reference.** -/
structure HasParts (m : Match) (url file start line column : Text) : Prop where
  url : m.get "url" = url ++ file
  file : m.get "file" = file
  start : m.get "start" = start
  line : m.get "line" = line
  column : m.get "column" = column
  between : m.get "a1" = [] ∧ m.get "a2" = [] ∧ m.get "a3" = [] ∧ m.get "a4" = []

/-- **A reference is read as a whole**, with its parts, when no digit stands behind it. -/
theorem matchAt_embedded (hurl : url = [] ∨ url = FileUrl.scheme) (hfile : Rooted file)
    {first last ending line column : Text} (hfirst : Digits first) (hlast : Digits last) (hending : Ending ending)
    (hline : Digits line) (hcolumn : Digits column) (hrest : NoDigit rest) (b : Option Char) :
    ∃ m, embedded.matchAt b (url ++ file ++ '$' :: (first ++ '-' :: (last ++ (ending ++ ':' :: (line ++
        ':' :: (column ++ rest)))))) = some m ∧
      m.rest = rest ∧ HasParts m url file first line column := by
  let behindLast := ending ++ ':' :: (line ++ ':' :: (column ++ rest))
  obtain ⟨dead, b', hpath, hdead⟩ := results_path b [] (first ++ '-' :: (last ++ behindLast)) hurl hfile
  have hcolon : ∀ t, NoDigit (':' :: t) := noDigit_cons (by decide)
  have hbehind : NoDigit behindLast := hending.noDigit (hcolon _)
  have hextension : ∀ b caps t, extension.First ⟨b, ending ++ ':' :: t, caps⟩ ⟨behind b ending, ':' :: t, caps⟩ :=
    fun b caps t => first_ending hending fun x hx => Option.some.inj hx ▸ by decide +kernel
  have hplace : ∀ b caps, place.First ⟨b, ':' :: (line ++ ':' :: (column ++ rest)), caps⟩ _ :=
    fun b caps => first_colon ((first_number hline (hcolon _) "line").seq
      (first_colon (first_number hcolumn hrest "column")))
  have hmarked : ∀ b caps, (Pattern.seq (lit "$") (.seq (group "start" digits) (.seq (lit "-")
      (.seq (group "end" digits) (.seq extension place))))).First
        ⟨b, '$' :: (first ++ '-' :: (last ++ behindLast)), caps⟩ _ :=
    fun b caps => (first_char '$').seq ((first_digits hfirst (noDigit_cons (by decide) _) "start").seq
      ((first_char '-').seq ((first_digits hlast hbehind "end").seq
        ((hextension _ _ _).seq (hplace _ _)))))
  have hnext : ∀ d ∈ dead, (Pattern.seq (lit "$") (.seq (group "start" digits) (.seq (lit "-")
      (.seq (group "end" digits) (.seq extension place))))).results d = [] := by
    intro d hd
    have hdollar : (lit "$").results d = [] :=
      results_literal_of_ne '$' [] (hdead d hd)
    rw [results, hdollar]
    rfl
  refine ⟨_, matchAt_of_first (first_seq_of_dead hpath hnext (hmarked _ _)), rfl, ?_⟩
  exact
    { url := text_capture "url" (url ++ file) _
      file := text_capture "file" file _
      start := text_capture "start" first _
      line := text_capture "line" line _
      column := text_capture "column" column _
      between := ⟨text_capture "a1" [] _, text_capture "a2" [] _, text_capture "a3" [] _,
        text_capture "a4" [] _⟩ }

/-! ## Numbers -/

/-- **A number with fewer digits than are read and written.** -/
def Short (n : Int) : Prop :=
  (Text.ofNat n.natAbs).length < Text.maxDigits

instance (n : Int) : Decidable (Short n) :=
  Nat.decLt _ _

theorem Short.natAbs_lt {n : Int} (h : Short n) : n.natAbs < 10 ^ (Text.maxDigits - 1) :=
  (Nat.length_toDigits_le_iff (by decide) (by decide)).1 (Nat.le_sub_one_of_lt h)

theorem short_valueOfDigits {t : Text} (h : t.length < Text.maxDigits) : Short (Text.valueOfDigits t) := by
  have hle : (Text.ofNat (Text.valueOfDigits t)).length ≤ Text.maxDigits - 1 :=
    (Nat.length_toDigits_le_iff (by decide) (by decide)).2 (Nat.lt_of_lt_of_le (Text.valueOfDigits_lt t)
      (Nat.pow_le_pow_right (by decide) (Nat.le_sub_one_of_lt h)))
  have hpos : 0 < Text.maxDigits := by decide
  rw [Short, Int.natAbs_natCast]
  omega

theorem readNumber_of_length {t : Text} (h : t.length < Text.maxDigits) :
    readNumber t = .ok (Text.valueOfDigits t) :=
  if_pos (Nat.le_of_lt h)

/-- The sum of two short numbers has no more digits than are read and written. -/
theorem length_ofNat_add {m n k : Int} (hm : Short m) (hn : Short n)
    (hk : k.natAbs ≤ m.natAbs + n.natAbs + 1) : (Text.ofNat k.natAbs).length ≤ Text.maxDigits := by
  have hlt : k.natAbs < 10 ^ Text.maxDigits := by
    have hm := hm.natAbs_lt
    have hn := hn.natAbs_lt
    rw [← Nat.pow_pred_mul (by decide : 0 < Text.maxDigits)]
    generalize 10 ^ (Text.maxDigits - 1) = bound at hm hn ⊢
    omega
  exact (Nat.length_toDigits_le_iff (by decide) (by decide)).2 hlt

/-- The sum of two short numbers can be written. -/
theorem writeNumber_add {m n k : Int} (hm : Short m) (hn : Short n) (hk : k.natAbs ≤ m.natAbs + n.natAbs + 1) :
    writeNumber k = .ok (Text.ofInt k) :=
  if_pos (length_ofNat_add hm hn hk)

theorem eq_ofInt_of_writeNumber {n : Int} {t : Text} (h : writeNumber n = .ok t) : t = Text.ofInt n := by
  unfold writeNumber at h
  dsimp only at h
  split at h
  · exact (Except.ok.inj h).symm
  · cases h

end Reference

/-! ## The path of a sample file -/

namespace Resolver

variable {root name rest : Text}

/-- **The path of a sample file is read up to the end of its name.** -/
theorem matchAt_samplePath (root : Text) (hne : name ≠ []) (hname : ∀ x ∈ name, inSampleName x = true)
    (hrest : ∀ x ∈ rest.head?, inSampleName x = false) (b : Option Char) :
    ∃ m, (samplePath root).matchAt b (root ++ (name ++ rest)) = some m ∧ m.rest = rest ∧
      m.text = root ++ name := by
  have hroot : (literal root).First ⟨b, root ++ (name ++ rest), []⟩ ⟨behind b root, name ++ rest, []⟩ :=
    congrArg List.head? (results_literal root)
  have hm := matchAt_of_first (hroot.seq (first_some1 hne hname hrest))
  exact ⟨_, hm, rfl, text_of_matchAt hm (List.append_assoc ..).symm⟩

/-- Whatever is read as the path of a sample file is the directory with a name behind it. -/
theorem path_of_matchAt_samplePath {b : Option Char} {t : Text} {m : Match}
    (h : (samplePath root).matchAt b t = some m) :
    ∃ name, name ≠ [] ∧ (∀ x ∈ name, inSampleName x = true) ∧ t = root ++ (name ++ m.rest) ∧
      m.text = root ++ name := by
  have hmem := mem_results_of_matchAt h
  rw [samplePath, some1, results, List.mem_flatMap] at hmem
  obtain ⟨c, hc, hmem⟩ := hmem
  rw [results, List.mem_flatMap] at hmem
  obtain ⟨d, hd, hmem⟩ := hmem
  obtain ⟨x, hx, hcd⟩ := ahead_of_mem_one hd
  obtain ⟨run, hrun, hdm⟩ := run_of_mem_many hmem
  have ht : t = root ++ (x :: run ++ m.rest) := by
    have hroot : t = root ++ c.ahead := ahead_of_mem_literal hc
    rw [hroot, hcd, hdm]
    rfl
  exact ⟨x :: run, List.cons_ne_nil x run, List.forall_mem_cons.2 ⟨hx, hrun⟩, ht,
    text_of_matchAt h (ht.trans (List.append_assoc ..).symm)⟩

end Resolver

end Fenceline
