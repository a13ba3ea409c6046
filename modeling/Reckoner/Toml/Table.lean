import Reckoner.Toml.Basic

/-!
# Building tables

Keys are set once. A dotted key and a header go through tables that exist and make those that do
not; neither may add to a table that was completed in another way.
-/

namespace Reckoner.Toml

def replace (key : String) (value : Toml) (entries : Table) : Table :=
  entries.map fun (k, v) => (k, if k = key then value else v)

/--
Changes the table at the end of a path, given the origin and the entries of the table where the
path starts. A path goes through the last one of several tables. A dotted key makes dotted tables,
and does not go through tables that have a header or stand between braces.
-/
def within? (dotted : Bool) (change : Origin → Table → Option Table) :
    List String → Origin → Table → Option Table
  | [], origin, entries => change origin entries
  | key :: path, _, entries =>
    match entries.lookup key with
    | none =>
      let origin := if dotted then Origin.dotted else Origin.path
      (within? dotted change path origin []).map fun inner =>
        entries ++ [(key, .table origin inner)]
    | some (.table origin inner) =>
      if origin = .inline ∨ (dotted ∧ origin = .header) then none
      else (within? dotted change path origin inner).map fun inner =>
        replace key (.table origin inner) entries
    | some (.tables items) =>
      match items.getLast? with
      | none => none
      | some last =>
        (within? dotted change path .header last).map fun last =>
          replace key (.tables (items.dropLast ++ [last])) entries
    | some _ => none

/-- Sets a new key of a table. Only dotted keys add to the tables that dotted keys have made. -/
def set? (isDotted : Bool) (key : String) (value : Toml) (origin : Origin) (entries : Table) :
    Option Table :=
  if (origin = .dotted) ≠ isDotted ∨ (entries.lookup key).isSome then none
  else some (entries ++ [(key, value)])

/-- Sets a key with dots, given as the parts before its last one and the last one. -/
def assign? (path : List String) (key : String) (value : Toml) (origin : Origin) (entries : Table) :
    Option Table :=
  within? true (set? (!path.isEmpty) key value) path origin entries

def openTable? (key : String) (_ : Origin) (entries : Table) : Option Table :=
  match entries.lookup key with
  | none => some (entries ++ [(key, .table .header [])])
  | some (.table .path inner) => some (replace key (.table .header inner) entries)
  | some _ => none

def openElement? (key : String) (_ : Origin) (entries : Table) : Option Table :=
  match entries.lookup key with
  | none => some (entries ++ [(key, .tables [[]])])
  | some (.tables items) => some (replace key (.tables (items ++ [[]])) entries)
  | some _ => none

end Reckoner.Toml
