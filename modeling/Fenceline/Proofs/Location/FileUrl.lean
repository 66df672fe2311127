import Fenceline.Location.FileUrl
import Fenceline.Proofs.Line.Encoding
import Fenceline.Proofs.Path.Spelling
import Mathlib.Data.List.TakeWhile

/-!
# Places and the values that lead to them

A value leads to a place if it is the place itself or a file URL of it. Where a place holds no character
that means something in a URL, its file URL is its spelling behind the scheme. Any path can be written in a
URL by its percent-encoding: the bytes of its UTF-8, those that may not stand for themselves escaped.

**The laws.** `path_toText`: the spelling of a place leads to the place. `path_scheme_toText`: so does its
spelling behind the scheme if it is plain. `path_encoded`: a percent-encoded path behind the scheme leads to
the path, and what stands behind the encoding stays behind the path.
-/

namespace Fenceline

namespace Utf8

theorem utf8EncodeChar_ascii {c : Char} (h : c.toNat < 0x80) :
    String.utf8EncodeChar c = [UInt8.ofNat c.toNat] := by
  have hone : c.val.toNat ≤ 127 := Nat.le_of_lt_succ h
  unfold String.utf8EncodeChar
  dsimp only
  rw [if_pos hone]
  rfl

/-- **An ASCII character is one byte.** -/
theorem encode_ascii {t : Text} (h : ∀ c ∈ t, c.toNat < 0x80) :
    encode t = t.map fun c => UInt8.ofNat c.toNat := by
  induction t with
  | nil => rfl
  | cons c t ih =>
    obtain ⟨hc, ht⟩ := List.forall_mem_cons.1 h
    rw [encode, List.flatMap_cons, utf8EncodeChar_ascii hc, ← encode, ih ht]
    rfl

end Utf8

namespace FileUrl

/-- **Text without characters that mean something in a URL.** -/
def Plain (t : Text) : Prop :=
  ∀ c ∈ t, c ∉ ['%', '?', '#', '\t', '\r', '\n']

instance (t : Text) : Decidable (Plain t) :=
  List.decidableBAll _ t

/-- **The spelling of a place leads to the place.** -/
theorem path_toText (names : Absolute) :
    path (Path.ofAbsolute names).toText = .ok (Path.ofAbsolute names).toText := by
  refine path_of_not_url fun h => ?_
  obtain ⟨rest, hrest⟩ := h
  have hfirst : (Path.ofAbsolute names).toText.head? = some 'f' := by
    rw [← hrest]
    rfl
  rw [Path.toText_ofAbsolute, List.head?_cons] at hfirst
  cases hfirst

/-! ## Percent-encodings -/

/-- **A text that stands for bytes in a URL**: an ASCII character without a meaning of its own stands for its
byte, and any byte may be escaped but that of a slash. -/
inductive Encodes : Text → Bytes → Prop
  | nil : Encodes [] []
  | kept {c : Char} {t : Text} {bytes : Bytes} : c.toNat < 0x80 → Plain [c] → Encodes t bytes →
    Encodes (c :: t) (UInt8.ofNat c.toNat :: bytes)
  | escaped {a b : Char} {x y : UInt8} {t : Text} {bytes : Bytes} : hexValue? a = some x → hexValue? b = some y →
    16 * x + y ≠ 0x2F → Encodes t bytes → Encodes ('%' :: a :: b :: t) ((16 * x + y) :: bytes)

/-- A hexadecimal digit. -/
def hexDigit (n : Nat) : Char :=
  (Nat.digitChar n).toUpper

/-- An unreserved character, or a slash. -/
def isUnescaped (c : Char) : Bool :=
  c.isAlphanum || ['-', '.', '_', '~', '/'].contains c

/-- The percent-encoding of a byte. -/
def encodeByte (b : UInt8) : Text :=
  if isUnescaped (Char.ofNat b.toNat) then [Char.ofNat b.toNat]
  else ['%', hexDigit (b.toNat / 16), hexDigit (b.toNat % 16)]

/-- **The percent-encoding of a text**: the bytes of its UTF-8, all of them escaped but those of unreserved
characters and slashes. -/
def percentEncode (t : Text) : Text :=
  (Utf8.encode t).flatMap encodeByte

/-- The percent-encoding of a byte stands for the byte. -/
theorem Encodes.encodeByte {t : Text} {bytes : Bytes} (h : Encodes t bytes) (b : UInt8) :
    Encodes (encodeByte b ++ t) (b :: bytes) := by
  have hall : ∀ n < 256,
      if isUnescaped (Char.ofNat n) then
        (Char.ofNat n).toNat < 0x80 ∧ Plain [Char.ofNat n] ∧ (Char.ofNat n).toNat = n
      else
        ∃ x ∈ hexValue? (hexDigit (n / 16)), ∃ y ∈ hexValue? (hexDigit (n % 16)),
          16 * x + y ≠ 0x2F ∧ 16 * x + y = UInt8.ofNat n := by
    decide +kernel
  have hb := hall b.toNat b.toNat_lt
  unfold FileUrl.encodeByte
  split at hb
  · rename_i hkept
    obtain ⟨hascii, hplain, hbyte⟩ := hb
    rw [if_pos hkept]
    have hkept := Encodes.kept hascii hplain h
    rwa [hbyte, UInt8.ofNat_toNat] at hkept
  · rename_i hescaped
    obtain ⟨x, hx, y, hy, hslash, hbyte⟩ := hb
    rw [if_neg hescaped]
    have hescape := Encodes.escaped hx hy hslash h
    rwa [hbyte, UInt8.ofNat_toNat] at hescape

/-- **The percent-encoding of a text stands for its bytes.** -/
theorem encodes_percentEncode (t : Text) : Encodes (percentEncode t) (Utf8.encode t) := by
  unfold percentEncode
  induction Utf8.encode t with
  | nil => exact .nil
  | cons b bytes ih =>
    rw [List.flatMap_cons]
    exact ih.encodeByte b

/-- A hexadecimal digit is ASCII and means nothing in a URL. -/
theorem plain_of_hexValue? {c : Char} {x : UInt8} (h : hexValue? c = some x) : c.toNat < 0x80 ∧ Plain [c] := by
  constructor
  · unfold hexValue? at h
    dsimp only at h
    have hle : ∀ {d : Char}, c ≤ d → c.toNat ≤ d.toNat := fun h => h
    split at h
    · rename_i hdigit
      simp only [Char.isDigit, Bool.and_eq_true, decide_eq_true_eq] at hdigit
      exact Nat.lt_of_le_of_lt (hle (d := '9') hdigit.2) (by decide)
    · split at h
      · rename_i hletter
        exact Nat.lt_of_le_of_lt (hle hletter.2) (by decide)
      · split at h
        · rename_i hletter
          exact Nat.lt_of_le_of_lt (hle hletter.2) (by decide)
        · cases h
  · intro d hd hmem
    rw [List.mem_singleton.1 hd] at hmem
    have hnone : ∀ d ∈ ['%', '?', '#', '\t', '\r', '\n'], hexValue? d = none := by
      simp only [List.forall_mem_cons, List.not_mem_nil, false_implies, implies_true, and_true]
      decide
    rw [hnone c hmem] at h
    cases h

theorem Encodes.ascii {t : Text} {bytes : Bytes} (h : Encodes t bytes) : ∀ c ∈ t, c.toNat < 0x80 := by
  induction h with
  | nil => exact List.forall_mem_nil _
  | kept hascii _ _ ih => exact List.forall_mem_cons.2 ⟨hascii, ih⟩
  | escaped hx hy _ _ ih =>
    exact List.forall_mem_cons.2 ⟨by decide, List.forall_mem_cons.2 ⟨(plain_of_hexValue? hx).1,
      List.forall_mem_cons.2 ⟨(plain_of_hexValue? hy).1, ih⟩⟩⟩

/-- **Text that a URL is not cut at and loses nothing of.** -/
def Unbroken (t : Text) : Prop :=
  ∀ c ∈ t, c ∉ ['?', '#', '\t', '\r', '\n']

theorem Plain.unbroken {t : Text} (h : Plain t) : Unbroken t :=
  fun c hc hmem => h c hc (List.mem_cons_of_mem _ hmem)

theorem Encodes.unbroken {t : Text} {bytes : Bytes} (h : Encodes t bytes) : Unbroken t := by
  have hone : ∀ {c : Char}, Plain [c] → c ∉ ['?', '#', '\t', '\r', '\n'] := fun hc =>
    hc.unbroken _ (List.mem_singleton_self _)
  induction h with
  | nil => exact List.forall_mem_nil _
  | kept _ hplain _ ih => exact List.forall_mem_cons.2 ⟨hone hplain, ih⟩
  | escaped hx hy _ _ ih =>
    exact List.forall_mem_cons.2 ⟨by decide, List.forall_mem_cons.2 ⟨hone (plain_of_hexValue? hx).2,
      List.forall_mem_cons.2 ⟨hone (plain_of_hexValue? hy).2, ih⟩⟩⟩

/-- The first slash of an encoded path is not escaped. -/
theorem Encodes.head_eq {t p : Text} (h : Encodes t (Utf8.encode ('/' :: p))) : ∃ u, t = '/' :: u := by
  have hbytes : Utf8.encode ('/' :: p) = 0x2F :: Utf8.encode p := rfl
  rw [hbytes] at h
  generalize hb : (0x2F : UInt8) :: Utf8.encode p = bytes at h
  cases h with
  | nil => cases hb
  | @kept c u bytes hascii _ _ =>
    obtain ⟨hbyte, -⟩ := List.cons.inj hb
    have hc : c.toNat = 0x2F := by
      rw [← UInt8.toNat_ofNat_of_lt' (Nat.lt_trans hascii (by decide)), ← hbyte]
      rfl
    exact ⟨u, by rw [← Char.ofNat_toNat c, hc]⟩
  | escaped _ _ hslash _ => exact absurd (List.cons.inj hb).1.symm hslash

/-! ## Reading escapes -/

theorem escapedBytes_cons_of_ne {c : Char} (h : c ≠ '%') (t : Text) :
    escapedBytes (c :: t) = UInt8.ofNat c.toNat :: escapedBytes t := by
  rw [escapedBytes]
  rintro a b r rfl
  exact fun _ => h rfl

theorem escapedBytes_of_not_mem {t : Text} (h : '%' ∉ t) :
    escapedBytes t = t.map fun c => UInt8.ofNat c.toNat := by
  induction t with
  | nil => rfl
  | cons c t ih =>
    rw [List.mem_cons, not_or] at h
    rw [escapedBytes_cons_of_ne (Ne.symm h.1), List.map_cons, ih h.2]

/-- **An encoding is read as the bytes that it stands for.** -/
theorem Encodes.escapedBytes_append {t : Text} {bytes : Bytes} (h : Encodes t bytes) (u : Text) :
    escapedBytes (t ++ u) = bytes ++ escapedBytes u := by
  induction h with
  | nil => rfl
  | @kept c _ _ _ hplain _ ih =>
    have hpercent : c ≠ '%' := by
      rintro rfl
      exact hplain '%' (List.mem_singleton_self _) List.mem_cons_self
    rw [List.cons_append, escapedBytes_cons_of_ne hpercent, ih]
    rfl
  | escaped hx hy _ _ ih =>
    rw [List.cons_append, List.cons_append, List.cons_append, escapedBytes, hx, hy]
    dsimp only
    rw [ih]
    rfl

theorem unescapeFrom_append {t : Text} (h : ∀ c ∈ t, c.toNat < 0x80) (run u : Text) :
    unescapeFrom run (t ++ u) = unescapeFrom (t.reverse ++ run) u := by
  induction t generalizing run with
  | nil => rfl
  | cons c t ih =>
    obtain ⟨hc, ht⟩ := List.forall_mem_cons.1 h
    rw [List.cons_append, unescapeFrom, if_pos hc, ih ht, List.reverse_cons, List.append_assoc,
      List.singleton_append]

/-- What is read behind an encoding and characters without an escape. -/
theorem unescapeFrom_encoded {t s v u : Text} (h : Encodes t (Utf8.encode s)) (hv : ∀ c ∈ v, c.toNat < 0x80)
    (hpercent : '%' ∉ v ++ u) : unescapeFrom (t ++ v).reverse u = s ++ (v ++ u) := by
  have hread : ∀ {t s v : Text}, Encodes t (Utf8.encode s) → (∀ c ∈ v, c.toNat < 0x80) → '%' ∉ v →
      Utf8.decodeLossy (escapedBytes (t ++ v)) = s ++ v := by
    intro t s v h hv hpercent
    rw [h.escapedBytes_append, escapedBytes_of_not_mem hpercent, ← Utf8.encode_ascii hv, ← Utf8.encode_append,
      Utf8.decodeLossy_encode]
  induction u generalizing t s v with
  | nil =>
    rw [List.append_nil] at hpercent ⊢
    rw [unescapeFrom, List.reverse_reverse, hread h hv hpercent]
  | cons c u ih =>
    rw [unescapeFrom]
    split
    · rename_i hc
      have hrun : c :: (t ++ v).reverse = (t ++ (v ++ [c])).reverse := by simp
      have hrest : v ++ c :: u = (v ++ [c]) ++ u := by simp
      rw [hrest] at hpercent ⊢
      rw [hrun]
      refine ih h ?_ hpercent
      simpa [or_imp, forall_and, hc] using hv
    · -- a character that is not ASCII ends the run, and a new one begins behind it
      have hnext := ih (t := []) (s := []) (v := []) .nil (List.forall_mem_nil _) (by simp_all)
      rw [List.reverse_reverse, hread h hv (by simp_all), List.append_assoc]
      exact congrArg (fun rest => s ++ (v ++ c :: rest)) hnext

/-- **An encoded text is read, and what stands behind it without an escape is left as it is.** -/
theorem unescape_encoded {t s u : Text} (h : Encodes t (Utf8.encode s)) (hu : '%' ∉ u) :
    unescape (t ++ u) = s ++ u := by
  have hrun := unescapeFrom_encoded (v := []) h (List.forall_mem_nil _) hu
  rw [List.append_nil] at hrun
  rw [unescape, unescapeFrom_append h.ascii, List.append_nil]
  exact hrun

/-! ## Paths behind the scheme -/

theorem pathBehindScheme_of_unbroken {t : Text} (h : Unbroken ('/' :: t)) :
    pathBehindScheme ('/' :: t) = .ok (unescape ('/' :: t)) := by
  have keeps : ∀ c ∈ '/' :: t, c ≠ '?' ∧ c ≠ '#' ∧ c ≠ '\t' ∧ c ≠ '\r' ∧ c ≠ '\n' := by
    intro c hc
    simpa using h c hc
  have hfilter : ('/' :: t).filter (fun c => c != '\t' && c != '\r' && c != '\n') = '/' :: t := by
    rw [List.filter_eq_self]
    intro c hc
    simp [keeps c hc]
  have hquery : ((('/' :: t).takeWhile (· != '#')).takeWhile (· != '?')) = '/' :: t := by
    have hfragment : ('/' :: t).takeWhile (· != '#') = '/' :: t := by
      rw [List.takeWhile_eq_self_iff]
      intro c hc
      simp [keeps c hc]
    rw [hfragment, List.takeWhile_eq_self_iff]
    intro c hc
    simp [keeps c hc]
  have hends : endsAuthority '/' = true := rfl
  rw [pathBehindScheme, hfilter, List.takeWhile_cons_of_neg (by simp [hends])]
  have hfault : authorityFault? [] = none := by decide
  rw [hfault, List.dropWhile_cons_of_neg (by simp [hends])]
  dsimp only
  rw [hquery]

/-- **An encoded path behind the scheme leads to the path**, with what stands behind the encoding. -/
theorem path_encoded {t p u : Text} (h : Encodes t (Utf8.encode ('/' :: p))) (hu : Plain u) :
    path (scheme ++ (t ++ u)) = .ok ('/' :: p ++ u) := by
  obtain ⟨w, rfl⟩ := h.head_eq
  have hunbroken : Unbroken ('/' :: (w ++ u)) := by
    intro c hc
    rcases List.mem_append.1 (List.cons_append ▸ hc) with hc | hc
    · exact h.unbroken c hc
    · exact hu.unbroken c hc
  have hread : unescape ('/' :: (w ++ u)) = '/' :: p ++ u :=
    unescape_encoded h fun hmem => hu '%' hmem List.mem_cons_self
  rw [path, Text.cutPrefix?_eq_some_iff.2 rfl]
  dsimp only
  rw [List.cons_append, pathBehindScheme_of_unbroken hunbroken, hread]

/-- **The file URL of a plain path leads to the path.** -/
theorem path_scheme_plain {p : Text} (h : Plain ('/' :: p)) : path (scheme ++ '/' :: p) = .ok ('/' :: p) := by
  rw [path, Text.cutPrefix?_eq_some_iff.2 rfl]
  dsimp only
  rw [pathBehindScheme_of_unbroken h.unbroken]
  exact congrArg Except.ok (unescape_encoded (t := []) (s := []) .nil fun hmem => h '%' hmem List.mem_cons_self)

/-- **The file URL of a plain place leads to the place.** -/
theorem path_scheme_toText {names : Absolute} (h : Plain (Path.ofAbsolute names).toText) :
    path (scheme ++ (Path.ofAbsolute names).toText) = .ok (Path.ofAbsolute names).toText := by
  rw [Path.toText_ofAbsolute] at h ⊢
  exact path_scheme_plain h

end FileUrl

end Fenceline
