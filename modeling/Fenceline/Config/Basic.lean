import Fenceline.Config.Settings

/-!
# Configurations

A configuration is what settings come to once they are checked. The executable and every variable have a
name, and the limits are whole numbers above zero; a truth value is no number.

**The law.** `sound_of_ofSettings`: what passes the check keeps these rules.
-/

namespace Fenceline

/-- Checked settings. -/
structure Config where
  executable : Text := "deno".toList
  passedOn : List Text := ["NO_COLOR".toList, "FORCE_COLOR".toList]
  extractWorkers : Int := 10
  patchWorkers : Int := 4
  chunkSize : Int := 65536
  deriving DecidableEq, Repr

namespace Config

/-- The name that a value is. -/
def name? : Setting → Option Text
  | .text [] => none
  | .text name => some name
  | _ => none

/-- The names that a list is of. -/
def names? : Setting → Option (List Text)
  | .list items => items.mapM name?
  | _ => none

/-- The whole number that a setting is. -/
def integer (s : Settings) (f : Field) : Except Failure Int :=
  match s.get f with
  | .int n => .ok n
  | _ => .error (.config (.notInteger f.name))

/-- A limit that is above zero. -/
def positive (f : Field) (n : Int) : Except Failure Unit :=
  if 0 < n then .ok () else .error (.config (.notPositive f.name))

/-- The configuration that settings come to. -/
def ofSettings (s : Settings) : Except Failure Config := do
  let s ← s.normalize
  let some executable := name? s.executable | .error (.config .badExecutable)
  let some passedOn := names? s.passedOn | .error (.config .badVariables)
  let extractWorkers ← integer s .extractWorkers
  let patchWorkers ← integer s .patchWorkers
  let chunkSize ← integer s .chunkSize
  positive .extractWorkers extractWorkers
  positive .patchWorkers patchWorkers
  positive .chunkSize chunkSize
  return { executable, passedOn, extractWorkers, patchWorkers, chunkSize }

/-- The rules for configurations. -/
structure Sound (c : Config) : Prop where
  executable : c.executable ≠ []
  passedOn : ∀ name ∈ c.passedOn, name ≠ []
  extractWorkers : 0 < c.extractWorkers
  patchWorkers : 0 < c.patchWorkers
  chunkSize : 0 < c.chunkSize

theorem ne_nil_of_name? {v : Setting} {name : Text} (h : name? v = some name) : name ≠ [] := by
  unfold name? at h
  split at h
  · simp at h
  · rename_i hne
    rw [Option.some.injEq] at h
    subst h
    intro e
    subst e
    exact hne rfl
  · simp at h

theorem ne_nil_of_mem_mapM {items : List Setting} {names : List Text}
    (h : items.mapM name? = some names) : ∀ name ∈ names, name ≠ [] := by
  induction items generalizing names with
  | nil => simp at h; simp [h]
  | cons v items ih =>
    rw [List.mapM_cons] at h
    cases hv : name? v with
    | none => simp [hv] at h
    | some name =>
      cases hi : items.mapM name? with
      | none => simp [hv, hi] at h
      | some rest =>
        simp only [hv, hi, Option.pure_def, Option.bind_eq_bind, Option.bind_some,
          Option.some.injEq] at h
        subst h
        intro n hn
        rcases List.mem_cons.1 hn with rfl | hn
        · exact ne_nil_of_name? hv
        · exact ih hi n hn

theorem pos_of_positive {f : Field} {n : Int} (h : positive f n = .ok ()) : 0 < n := by
  unfold positive at h
  split at h
  · assumption
  · cases h

theorem ne_nil_of_names? {v : Setting} {names : List Text} (h : names? v = some names) :
    ∀ name ∈ names, name ≠ [] := by
  unfold names? at h
  split at h
  · exact ne_nil_of_mem_mapM h
  · cases h

/-- **What passes the check keeps the rules.** -/
theorem sound_of_ofSettings {s : Settings} {c : Config} (h : ofSettings s = .ok c) : c.Sound := by
  obtain ⟨s, _, h⟩ := bind_eq_ok.1 h
  split at h
  · rename_i executable he
    split at h
    · rename_i passedOn hv
      obtain ⟨x, _, h⟩ := bind_eq_ok.1 h
      obtain ⟨y, _, h⟩ := bind_eq_ok.1 h
      obtain ⟨z, _, h⟩ := bind_eq_ok.1 h
      obtain ⟨⟨⟩, hx, h⟩ := bind_eq_ok.1 h
      obtain ⟨⟨⟩, hy, h⟩ := bind_eq_ok.1 h
      obtain ⟨⟨⟩, hz, h⟩ := bind_eq_ok.1 h
      cases h
      exact ⟨ne_nil_of_name? he, ne_nil_of_names? hv, pos_of_positive hx, pos_of_positive hy,
        pos_of_positive hz⟩
    · cases h
  · cases h

end Config

end Fenceline
