import Fenceline.Config.Setting

/-!
# Building tables

Tables are built from keys of several names: a key leads through tables, which are made where they are
missing, to the one in which its last name stands. Nothing that was set is set again.
-/

namespace Fenceline.Toml

/-- A name in each of several tables, one within the other. -/
abbrev Key := List Text

/-- The table with the table that a key leads to changed. On the way, `throughArrays` lets the last
table of an array stand for the array. -/
def change? (throughArrays : Bool) (change : Table → Option Table) (d : Table) : Key → Option Table
  | [] => change d
  | name :: key =>
    match d.get? name with
    | none => (change? throughArrays change [] key).map fun t => d.set name (.table t)
    | some (.table t) => (change? throughArrays change t key).map fun t => d.set name (.table t)
    | some (.list items) =>
      match throughArrays, items.getLast? with
      | true, some (.table t) =>
        (change? throughArrays change t key).map fun t =>
          d.set name (.list (items.dropLast ++ [.table t]))
      | _, _ => none
    | some _ => none

/-- The table with a value under a name that had none. -/
def insert? (name : Text) (value : Setting) (d : Table) : Option Table :=
  match d.get? name with
  | none => some (d.set name value)
  | some _ => none

/-- The table with an empty table at the end of the array under a name. -/
def append? (name : Text) (d : Table) : Option Table :=
  match d.get? name with
  | none => some (d.set name (.list [.table []]))
  | some (.list items) => some (d.set name (.list (items ++ [.table []])))
  | some _ => none

/-- Whether a key leads to one of the places given or to something within it. -/
def isWithin (places : List Key) (key : Key) : Bool :=
  places.any (·.isPrefixOf key)

end Fenceline.Toml
