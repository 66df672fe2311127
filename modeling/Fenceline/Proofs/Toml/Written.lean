import Fenceline.Proofs.Keyed
import Fenceline.Proofs.Outcome
import Fenceline.Toml.Document

/-!
# What a document can say

TOML has no word for nothing. So a key of a document that leads somewhere leads to a value that says something
(`Setting.Said`): the tables that headers and keys with dots make are tables, and what stands behind an equals
sign is a text, a truth value, a number, a date, a list or a table of such.

**The law** (`at?_of_read`): what a key leads to in a document is never nothing.

Lists are not looked into: no key leads through them.
-/

namespace Fenceline

/-- Whether a value is neither nothing nor a table. -/
def Setting.isPlain : Setting → Bool
  | .null | .table _ => false
  | _ => true

/-- A value that says something, and if it is a table, so do the values in it. -/
inductive Setting.Said : Setting → Prop
  | table {entries : Table} : (∀ p ∈ entries, Said p.2) → Said (.table entries)
  | plain {v : Setting} : v.isPlain = true → Said v

/-- A table in which every value says something. -/
def Keyed.AllSaid (d : Table) : Prop :=
  ∀ p ∈ d, p.2.Said

namespace Setting

variable {v w : Setting} {entries : Table}

theorem Said.ne_null (h : v.Said) : v ≠ .null := by
  rintro rfl
  cases h with
  | plain h => cases h

theorem Said.allSaid (h : Said (.table entries)) : entries.AllSaid := by
  cases h with
  | table h => exact h
  | plain h => cases h

/-- What a key leads to says something. -/
theorem Said.at? {key : List Text} (h : v.Said) (hat : v.at? key = some w) : w.Said := by
  induction key generalizing v with
  | nil =>
    cases v <;> cases hat <;> exact h
  | cons name key ih =>
    cases v with
    | table entries =>
      rw [Setting.at?] at hat
      split at hat
      · exact ih (h.allSaid _ (Keyed.mem_of_get? ‹_›)) hat
      · cases hat
    | _ => cases hat

end Setting

namespace Toml

open Setting Keyed

variable {d d' : Table}

/-! ## Building tables -/

theorem allSaid_nil : AllSaid [] :=
  List.forall_mem_nil _

theorem allSaid_set {name : Text} {v : Setting} (hd : d.AllSaid) (hv : v.Said) : AllSaid (d.set name v) := by
  intro p hp
  rcases mem_of_mem_set hp with rfl | hp
  · exact hv
  · exact hd p hp

theorem allSaid_insert? {name : Text} {v : Setting} (hv : v.Said) (hd : d.AllSaid) (h : insert? name v d = some d') :
    d'.AllSaid := by
  rw [insert?] at h
  split at h
  · cases h
    exact allSaid_set hd hv
  · cases h

theorem allSaid_append? {name : Text} (hd : d.AllSaid) (h : append? name d = some d') : d'.AllSaid := by
  rw [append?] at h
  split at h
  · cases h
    exact allSaid_set hd (.plain rfl)
  · cases h
    exact allSaid_set hd (.plain rfl)
  · cases h

/-- A change that keeps to what says something may be made at any place. -/
theorem allSaid_change? {throughArrays : Bool} {change : Table → Option Table} {key : Key}
    (hchange : ∀ d d' : Table, d.AllSaid → change d = some d' → d'.AllSaid) (hd : d.AllSaid)
    (h : change? throughArrays change d key = some d') : d'.AllSaid := by
  induction key generalizing d d' with
  | nil => exact hchange d d' hd h
  | cons name key ih =>
    rw [change?] at h
    split at h
    · obtain ⟨t, ht, rfl⟩ := Option.map_eq_some_iff.1 h
      exact allSaid_set hd (.table (ih allSaid_nil ht))
    · obtain ⟨t, ht, rfl⟩ := Option.map_eq_some_iff.1 h
      exact allSaid_set hd (.table (ih (hd _ (mem_of_get? ‹_›)).allSaid ht))
    · split at h
      · obtain ⟨t, ht, rfl⟩ := Option.map_eq_some_iff.1 h
        exact allSaid_set hd (.plain rfl)
      · cases h
    · cases h

/-! ## Values -/

variable {t rest : Text} {v : Setting}

theorem said_valueOf {m : Match} (h : valueOf m = .ok v) : v.Said := by
  unfold valueOf at h
  split at h
  · cases h
    exact .plain rfl
  · cases h
    exact .plain rfl
  · cases h
    exact .plain rfl
  · dsimp only at h
    split at h
    · split at h
      · cases h
        exact .plain rfl
      · cases h
    · cases h
      exact .plain rfl

theorem said_numeral (h : numeral t = .ok (v, rest)) : v.Said := by
  unfold numeral at h
  split at h
  · split at h
    · cases h
      exact .plain rfl
    · cases h
  · cases h
    exact .plain rfl
  · obtain ⟨w, hw, heq⟩ := map_eq_ok.1 h
    cases heq
    exact said_valueOf hw
  · split at h
    · cases h
      exact .plain rfl
    · cases h
      exact .plain rfl
  · cases h

/-- What is read from behind an opening bracket is a list. -/
theorem exists_list_of_items {n : Nat} {before : List Setting} (h : items n before t = .ok (v, rest)) :
    ∃ l, v = .list l := by
  induction n generalizing before t with
  | zero =>
    rw [items] at h
    cases h
  | succ n ih =>
    rw [items] at h
    obtain ⟨r, -, h⟩ := bind_eq_ok.1 h
    split at h
    · cases h
      exact ⟨before, rfl⟩
    · obtain ⟨⟨w, r⟩, -, h⟩ := bind_eq_ok.1 h
      obtain ⟨r, -, h⟩ := bind_eq_ok.1 h
      split at h
      · cases h
        exact ⟨_, rfl⟩
      · exact ih h
      · cases h

theorem allSaid_addInline {d d' : Table} {closed closed' : List Key} {names : Key} (hd : d.AllSaid) (hv : v.Said)
    (h : addInline d closed names v = .ok (d', closed')) : d'.AllSaid := by
  unfold addInline at h
  split at h
  · cases h
  · split at h
    · cases h
    · split at h
      · cases h
        rename_i hchange
        exact allSaid_change? (fun _ _ => allSaid_insert? hv) hd hchange
      · cases h

theorem said_pair {value : Text → Except Fault (Setting × Text)}
    (hvalue : ∀ {t rest v}, value t = .ok (v, rest) → v.Said)
    {names : Key} (h : pair value t = .ok ((names, v), rest)) : v.Said := by
  obtain ⟨⟨names, r⟩, -, h⟩ := bind_eq_ok.1 h
  dsimp only at h
  split at h
  · obtain ⟨⟨w, r⟩, hw, h⟩ := bind_eq_ok.1 h
    cases h
    exact hvalue hw
  · cases h

/-- A value with what stands in it: the inline tables in it are read with values one step shorter. -/
theorem said_value_and_entries (n : Nat) :
    (∀ {t rest v}, value n t = .ok (v, rest) → v.Said) ∧
      ∀ {d : Table} {closed t rest v}, d.AllSaid → entries n d closed t = .ok (v, rest) → v.Said := by
  induction n with
  | zero =>
    refine ⟨fun h => ?_, fun _ h => ?_⟩
    · rw [value] at h
      cases h
    · rw [entries] at h
      cases h
  | succ n ih =>
    obtain ⟨hvalue, hentries⟩ := ih
    refine ⟨fun h => ?_, fun hd h => ?_⟩
    · unfold value at h
      split at h
      · obtain ⟨⟨text, r⟩, -, heq⟩ := map_eq_ok.1 h
        cases heq
        exact .plain rfl
      · split at h
        · obtain ⟨l, rfl⟩ := exists_list_of_items h
          exact .plain rfl
        · split at h
          · cases h
            exact .table allSaid_nil
          · exact hentries allSaid_nil h
        · split at h
          · cases h
            exact .plain rfl
          · cases h
            exact .plain rfl
          · exact said_numeral h
    · rw [entries] at h
      obtain ⟨⟨⟨names, w⟩, r⟩, hpair, h⟩ := bind_eq_ok.1 h
      obtain ⟨⟨d', closed'⟩, hadd, h⟩ := bind_eq_ok.1 h
      have hd' := allSaid_addInline hd (said_pair hvalue hpair) hadd
      dsimp only at h
      split at h
      · cases h
        exact .table hd'
      · exact hentries hd' h
      · cases h

/-! ## Documents -/

variable {s s' : Sheet} {k : Key}

theorem allSaid_withRoot {root : Option Table} (hroot : ∀ d, root = some d → d.AllSaid) (h : s.withRoot root = .ok s') :
    s'.root.AllSaid := by
  unfold Sheet.withRoot at h
  split at h
  · cases h
    exact hroot _ rfl
  · cases h

theorem allSaid_openTable (hs : s.root.AllSaid) (h : s.openTable k = .ok s') : s'.root.AllSaid := by
  unfold Sheet.openTable at h
  split at h
  · cases h
  · refine allSaid_withRoot (fun d hd => allSaid_change? ?_ hs hd) h
    rintro d _ hd ⟨⟩
    exact hd

theorem allSaid_openItem (hs : s.root.AllSaid) (h : s.openItem k = .ok s') : s'.root.AllSaid := by
  unfold Sheet.openItem at h
  split at h
  · cases h
  · split at h
    · cases h
    · exact allSaid_withRoot (fun d hd => allSaid_change? (fun _ _ => allSaid_append?) hs hd) h

theorem allSaid_assign (hs : s.root.AllSaid) (hv : v.Said) (h : s.assign k v = .ok s') : s'.root.AllSaid := by
  unfold Sheet.assign at h
  split at h
  · cases h
  · dsimp only at h
    split at h
    · cases h
    · exact allSaid_withRoot (fun d hd => allSaid_change? (fun _ _ => allSaid_insert? hv) hs hd) h

theorem allSaid_header {mark : Text} {change : Key → Except Fault Sheet}
    (hchange : ∀ {k s'}, change k = .ok s' → s'.root.AllSaid) (h : header mark change t = .ok (s', rest)) :
    s'.root.AllSaid := by
  obtain ⟨⟨k, r⟩, -, h⟩ := bind_eq_ok.1 h
  dsimp only at h
  split at h
  · obtain ⟨new, hnew, h⟩ := bind_eq_ok.1 h
    cases h
    exact hchange hnew
  · cases h

/-- A line leaves a table in which every value says something. -/
theorem allSaid_statement (hs : s.root.AllSaid) (h : statement s t = .ok (s', rest)) : s'.root.AllSaid := by
  unfold statement at h
  split at h
  · exact allSaid_header (allSaid_openItem (s := s.settle) hs) h
  · exact allSaid_header (allSaid_openTable (s := s.settle) hs) h
  · obtain ⟨⟨⟨k, v⟩, r⟩, hpair, h⟩ := bind_eq_ok.1 h
    obtain ⟨new, hnew, h⟩ := bind_eq_ok.1 h
    cases h
    exact allSaid_assign hs (said_pair (said_value_and_entries _).1 hpair) hnew

/-- And so do all lines. -/
theorem allSaid_statements {n : Nat} (hs : s.root.AllSaid) (h : statements n s t = .ok s') : s'.root.AllSaid := by
  induction n generalizing s t with
  | zero =>
    cases h
    exact hs
  | succ n ih =>
    unfold statements at h
    split at h
    · cases h
      exact hs
    · exact ih hs h
    · obtain ⟨r, -, h⟩ := bind_eq_ok.1 h
      exact ih hs h
    · obtain ⟨⟨new, r⟩, hnew, h⟩ := bind_eq_ok.1 h
      obtain ⟨r, -, h⟩ := bind_eq_ok.1 h
      exact ih (allSaid_statement hs hnew) h

/-- **What a key leads to in a document is never nothing.** -/
theorem at?_of_read {root : Table} {key : List Text} (hread : read t = .ok root)
    (hat : (Setting.table root).at? key = some v) : v ≠ .null := by
  obtain ⟨s, hs, h⟩ := bind_eq_ok.1 hread
  cases h
  exact ((Said.table (allSaid_statements allSaid_nil hs)).at? hat).ne_null

end Toml

end Fenceline
