import Fenceline.Config.Basic
import Fenceline.Proofs.Distinct
import Fenceline.Proofs.Keyed
import Fenceline.Proofs.Outcome
import Mathlib.Data.Set.List

/-!
# Settings given by name

Settings are given by name, in a table or one by one. A name stands for one setting at most, a name that stands
for none spoils all, and of several values for one setting the last holds.

**The laws.** `get_of_setAll?`: what settings are given holds, and the others stay. `isSome_setAll?_iff`: they can
be given just if all names are names of settings. `names_of_normalize`: a single name of a variable becomes a list
of one, and of a list each name stays once, at its first place.
-/

namespace Fenceline

namespace Field

variable {f : Field} {name : Text}

theorem ofName?_name (f : Field) : ofName? f.name.toList = some f := by
  cases f <;> decide

/-- **A name stands for the setting that has it.** -/
theorem ofName?_eq_some_iff : ofName? name = some f ↔ f.name.toList = name := by
  constructor
  · intro h
    simpa using List.find?_some h
  · rintro rfl
    exact ofName?_name f

theorem name_inj {g : Field} : f.name.toList = g.name.toList ↔ f = g := by
  rw [← ofName?_eq_some_iff, ofName?_name, Option.some.injEq, eq_comm]

end Field

namespace Settings

variable {s s' : Settings} {entries : List (Text × Setting)} {f : Field}

/-- **Names of settings can be given, and no others.** -/
theorem isSome_setAll?_iff : (s.setAll? entries).isSome ↔ ∀ p ∈ entries, ∃ f : Field, f.name.toList = p.1 := by
  induction entries generalizing s with
  | nil => simp [setAll?]
  | cons p rest ih =>
    rw [setAll?, List.forall_mem_cons]
    cases hf : Field.ofName? p.1 with
    | none =>
      refine iff_of_false (by simp) fun ⟨⟨f, hname⟩, _⟩ => ?_
      rw [Field.ofName?_eq_some_iff.2 hname] at hf
      cases hf
    | some f => exact ih.trans (iff_and_self.2 fun _ => ⟨f, Field.ofName?_eq_some_iff.1 hf⟩)

/-- **The last value that is given for a setting holds**, and without one the setting stays. -/
theorem get_of_setAll? (h : s.setAll? entries = some s') (f : Field) :
    s'.get f = ((Keyed.ofList entries).get? f.name.toList).getD (s.get f) := by
  induction entries generalizing s with
  | nil =>
    cases h
    rfl
  | cons p rest ih =>
    rw [setAll?] at h
    split at h
    · rename_i g hg
      rw [ih h, Keyed.get?_ofList_cons, ← Field.ofName?_eq_some_iff.1 hg]
      by_cases hfg : g = f
      · subst hfg
        rw [get_set_self, if_pos rfl]
        cases (Keyed.ofList rest).get? g.name.toList <;> rfl
      · rw [get_set_of_ne s p.2 (Ne.symm hfg), if_neg (mt Field.name_inj.1 hfg), Option.or_none]
    · cases h

end Settings

/-! ## Names of variables -/

namespace Setting

/-- A value with what tells it apart, for a text. -/
def told (name : Text) : Scalar × Setting :=
  (.text name, .text name)

/-- The values so far with one more, unless it is not told apart from one of them. -/
def keep (seen : List (Scalar × Setting)) (p : Scalar × Setting) : List (Scalar × Setting) :=
  if seen.any (·.1 == p.1) then seen else seen ++ [p]

theorem eq_text_of_scalar? {v : Setting} {name : Text} (h : v.scalar? = some (.text name)) : v = .text name := by
  cases v <;> simp_all [scalar?]

theorem subset_keep (seen : List (Scalar × Setting)) (p : Scalar × Setting) : seen ⊆ keep seen p := by
  unfold keep
  split
  · exact List.Subset.refl _
  · exact List.subset_append_left ..

theorem exists_mem_keep (seen : List (Scalar × Setting)) (p : Scalar × Setting) : ∃ k ∈ keep seen p, k.1 = p.1 := by
  unfold keep
  split
  · rename_i h
    obtain ⟨k, hk, heq⟩ := List.any_eq_true.1 h
    exact ⟨k, hk, eq_of_beq heq⟩
  · exact ⟨p, List.mem_append_right _ List.mem_cons_self, rfl⟩

/-- For each value one is kept from which it is not told apart. -/
theorem exists_mem_foldl_keep {pairs : List (Scalar × Setting)} {q : Scalar × Setting} (h : q ∈ pairs) :
    ∃ k ∈ pairs.foldl keep [], k.1 = q.1 := by
  induction pairs using List.reverseRecOn with
  | nil => cases h
  | append_singleton pairs p ih =>
    rw [List.foldl_concat]
    rcases List.mem_append.1 h with h | h
    · obtain ⟨k, hk, heq⟩ := ih h
      exact ⟨k, subset_keep _ _ hk, heq⟩
    · rw [List.mem_singleton.1 h]
      exact exists_mem_keep _ _

/-- Nothing is kept that was not there. -/
theorem foldl_keep_subset (pairs : List (Scalar × Setting)) : pairs.foldl keep [] ⊆ pairs := by
  induction pairs using List.reverseRecOn with
  | nil => exact List.Subset.refl _
  | append_singleton pairs p ih =>
    rw [List.foldl_concat, keep]
    split
    · exact List.subset_append_of_subset_left _ ih
    · exact List.append_subset.2 ⟨List.subset_append_of_subset_left _ ih, List.subset_append_right ..⟩

/-- Of texts, each is kept once, at its first place. -/
theorem foldl_keep_told (names : List Text) : (names.map told).foldl keep [] = names.eraseDups.map told := by
  induction names using List.reverseRecOn with
  | nil => rfl
  | append_singleton names name ih =>
    have hseen : (names.eraseDups.map told).any (·.1 == (told name).1) = true ↔ name ∈ names := by
      simp [told, List.any_eq_true]
    rw [List.map_append, List.map_singleton, List.foldl_concat, ih, keep]
    by_cases h : name ∈ names
    · rw [if_pos (hseen.2 h), eraseDups_concat_of_mem h]
    · rw [if_neg (mt hseen.1 h), eraseDups_concat_of_not_mem h, List.map_append, List.map_singleton]

theorem exists_pairs_of_distinct {items kept : List Setting} (h : distinct items = .ok kept) :
    ∃ pairs : List (Scalar × Setting), pairs.map (·.2) = items ∧ (∀ q ∈ pairs, q.2.scalar? = some q.1) ∧
      kept = (pairs.foldl keep []).map (·.2) := by
  obtain ⟨pairs, hpairs, hkept⟩ := bind_eq_ok.1 h
  suffices pairs.map (·.2) = items ∧ ∀ q ∈ pairs, q.2.scalar? = some q.1 from
    ⟨pairs, this.1, this.2, (Except.ok.inj hkept).symm⟩
  clear hkept h
  induction items generalizing pairs with
  | nil =>
    cases hpairs
    exact ⟨rfl, List.forall_mem_nil _⟩
  | cons v items ih =>
    rw [List.mapM_cons] at hpairs
    obtain ⟨q, hq, hpairs⟩ := bind_eq_ok.1 hpairs
    obtain ⟨rest, hrest, hpairs⟩ := bind_eq_ok.1 hpairs
    cases hpairs
    obtain ⟨hmap, hscalar⟩ := ih rest hrest
    split at hq
    · cases hq
      exact ⟨by rw [List.map_cons, hmap], List.forall_mem_cons.2 ⟨‹_›, hscalar⟩⟩
    · cases hq

/-- **Of a list of names each is left once, at its first place**, and where names are left there were names only. -/
theorem exists_names_of_distinct {items : List Setting} {names : List Text}
    (h : distinct items = .ok (names.map .text)) :
    ∃ all : List Text, items = all.map .text ∧ names = all.eraseDups := by
  obtain ⟨pairs, rfl, hscalar, hkept⟩ := exists_pairs_of_distinct h
  have htold : ∀ q ∈ pairs, q ∈ Set.range told := by
    intro q hq
    obtain ⟨k, hk, heq⟩ := exists_mem_foldl_keep hq
    obtain ⟨name, -, hname⟩ := List.mem_map.1 (hkept ▸ List.mem_map_of_mem hk)
    have hfirst : q.1 = .text name := by
      have hk := hscalar k (foldl_keep_subset _ hk)
      rw [← hname, heq] at hk
      exact (Option.some.inj hk).symm
    have hsecond : q.2 = .text name := eq_text_of_scalar? (hfirst ▸ hscalar q hq)
    exact ⟨name, Prod.ext hfirst.symm hsecond.symm⟩
  obtain ⟨all, rfl⟩ : pairs ∈ Set.range (List.map told) := by rwa [Set.range_list_map]
  have hsnd : ∀ l : List Text, (l.map told).map (·.2) = l.map Setting.text := fun l => by simp [told]
  rw [foldl_keep_told, hsnd] at hkept
  exact ⟨all, hsnd all, List.map_injective_iff.2 (fun _ _ h => by cases h; rfl) hkept⟩

end Setting

namespace Config

variable {s s' : Settings} {v : Setting} {names : List Text}

/-- **The names of variables that a value is written for**: one name, or a list of names, each of which is left once,
at its first place. -/
inductive Names : Setting → List Text → Prop
  | one (name : Text) : Names (.text name) [name]
  | list (names : List Text) : Names (.list (names.map .text)) names.eraseDups

theorem Names.nodup (h : Names v names) : names.Nodup := by
  cases h with
  | one name => exact List.nodup_singleton name
  | list all => exact nodup_eraseDups all

theorem eq_text_of_name? {name : Text} (h : name? v = some name) : v = .text name := by
  unfold name? at h
  split at h
  · cases h
  · cases h
    rfl
  · cases h

theorem eq_list_of_names? (h : names? v = some names) : v = .list (names.map .text) := by
  unfold names? at h
  split at h
  · rename_i items
    induction items generalizing names with
    | nil =>
      cases h
      rfl
    | cons v items ih =>
      simp only [List.mapM_cons, Option.bind_eq_bind, Option.bind_eq_some_iff, Option.pure_def, Option.some.injEq] at h
      obtain ⟨name, hname, rest, hrest, rfl⟩ := h
      rw [eq_text_of_name? hname, List.map_cons, Setting.list.injEq, List.cons.injEq]
      exact ⟨rfl, Setting.list.inj (ih hrest)⟩
  · cases h

/-- Settings are made normal in the names of variables only. -/
theorem get_of_normalize (h : s.normalize = .ok s') {f : Field} (hf : f ≠ .passedOn) : s'.get f = s.get f := by
  unfold Settings.normalize at h
  split at h
  · cases h
    cases f <;> first | rfl | exact absurd rfl hf
  · obtain ⟨kept, -, h⟩ := bind_eq_ok.1 h
    cases h
    cases f <;> first | rfl | exact absurd rfl hf
  · cases h
    rfl

/-- What is a list of names once it is made normal was written for these names. -/
theorem names_of_normalize (h : s.normalize = .ok s') (hnames : s'.passedOn = .list (names.map .text)) :
    Names s.passedOn names := by
  unfold Settings.normalize at h
  split at h
  · rename_i name hname
    cases h
    cases names with
    | nil => cases hnames
    | cons first rest =>
      cases rest with
      | nil =>
        cases hnames
        exact hname ▸ .one name
      | cons second rest => cases hnames
  · rename_i items hitems
    obtain ⟨kept, hkept, h⟩ := bind_eq_ok.1 h
    cases h
    cases hnames
    obtain ⟨all, rfl, rfl⟩ := Setting.exists_names_of_distinct hkept
    exact hitems ▸ .list all
  · rename_i hlist
    cases h
    exact absurd hnames (hlist _)

/-- Making settings normal twice is making them normal once. -/
theorem names_of_normalize_normalize {s'' : Settings} (h : s.normalize = .ok s') (h' : s'.normalize = .ok s'')
    (hnames : s''.passedOn = .list (names.map .text)) : Names s.passedOn names := by
  have hafter := names_of_normalize h' hnames
  cases hlist : s'.passedOn with
  | list items =>
    rw [hlist] at hafter
    cases hafter with
    | list kept =>
      have hbefore := names_of_normalize h hlist
      rwa [eraseDups_of_nodup hbefore.nodup]
  | text name =>
    unfold Settings.normalize at h
    split at h
    · cases h
      cases hlist
    · obtain ⟨kept, -, h⟩ := bind_eq_ok.1 h
      cases h
      cases hlist
    · rename_i htext _
      cases h
      exact absurd hlist (htext name)
  | _ =>
    rw [hlist] at hafter
    cases hafter

end Config

end Fenceline
