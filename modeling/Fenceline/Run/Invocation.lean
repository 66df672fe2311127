import Fenceline.Keyed
import Fenceline.Path.Basic

/-!
# Invocations

What the toolchain is started with: its arguments in their order, and the part of the environment that it
gets.

**The law.** `get?_pick`: a picked environment says what the whole one says of the names picked, and
nothing of others.
-/

namespace Fenceline

/-- What the arguments of the toolchain are made of. -/
structure Invocation where
  command : Text
  /-- The arguments of every invocation. -/
  args : List Text := []
  /-- The arguments of an invocation with a script among its files. -/
  conditionalArgs : List Text := []
  files : List Text := []
  /-- The directory of samples, if there are some. -/
  sampleDir : Option Path := none
  /-- The arguments of the script that is run. -/
  scriptArgs : List Text := []
  /-- What stands before the arguments of the script. -/
  separator : Option Text := some "--".toList
  hasScripts : Bool := false

namespace Invocation

/-- The arguments of the toolchain. -/
def toArgs (i : Invocation) : List Text :=
  let conditional := if i.hasScripts then i.conditionalArgs else []
  let separator := if i.scriptArgs.isEmpty then [] else i.separator.toList.filter (!·.isEmpty)
  i.command :: i.args ++ conditional ++ i.files ++ (i.sampleDir.map Path.toText).toList ++
    separator ++ i.scriptArgs

end Invocation

/-- The part of an environment that is under the names given. -/
def pick (names : List Text) (environment : Keyed Text Text) : Keyed Text Text :=
  Keyed.ofList (names.filterMap fun name => (environment.get? name).map (name, ·))

theorem get?_foldl_pick (environment : Keyed Text Text) (names : List Text) (d : Keyed Text Text)
    (name : Text) :
    ((names.filterMap fun n => (environment.get? n).map (n, ·)).foldl
      (fun d p => Keyed.set d p.1 p.2) d).get? name =
      if name ∈ names then (environment.get? name).or (d.get? name) else d.get? name := by
  induction names generalizing d with
  | nil => simp
  | cons n names ih =>
    cases hn : environment.get? n with
    | none =>
      simp only [List.filterMap_cons, hn, Option.map_none, ih, List.mem_cons]
      by_cases h : name = n
      · subst h; simp [hn]
      · simp [h]
    | some v =>
      simp only [List.filterMap_cons, hn, Option.map_some, List.foldl_cons, ih, List.mem_cons]
      by_cases h : name = n
      · subst h; simp [hn]
      · simp [h, Keyed.get?_set_of_ne d v h]

/-- **What a picked environment says.** -/
theorem get?_pick (names : List Text) (environment : Keyed Text Text) (name : Text) :
    (pick names environment).get? name = if name ∈ names then environment.get? name else none := by
  rw [pick, Keyed.ofList, get?_foldl_pick]
  simp [Keyed.get?]

end Fenceline
