import ClassHints.Text.Basic

/-!
# TOML values

A TOML document is a table. Headers and dotted keys build it up step by step, and how a table
came to be decides what may still be added to it.
-/

namespace ClassHints.Settings

/-- How a table came to be. -/
inductive Origin where
  /-- By its own header, or as the whole document. -/
  | header
  /-- On the way to the table of a header. -/
  | implied
  /-- On the way to a value with a dotted key. -/
  | dotted
  /-- Between braces, where it is complete. -/
  | inline
  deriving DecidableEq, Repr

/-- A value of a TOML document. -/
inductive Toml where
  | text (t : Text)
  | integer (n : Int)
  | float
  | boolean (b : Bool)
  /-- A date, a time of day, or both. -/
  | moment
  | array (items : List Toml)
  | table (origin : Origin) (entries : List (Text × Toml))
  /-- The tables that headers with double brackets make. -/
  | tables (items : List (List (Text × Toml)))
  deriving Repr

namespace Toml

/-- Keys and values of a table in the order they are written. -/
abbrev Entries := List (Text × Toml)

/-- Give a key of a table another value. -/
def replace (entries : Entries) (key : Text) (value : Toml) : Entries :=
  entries.map fun (k, v) => if k = key then (k, value) else (k, v)

/-- Change the table at the end of a path. Tables that are missing on the way are made. A
dotted key does not pass through a table with a header of its own, nothing passes through
complete tables, and of tables with double brackets the last one is meant. -/
def descend (dotted : Bool) (change : Origin → Entries → Option Entries) :
    List Text → Origin → Entries → Option Entries
  | [], origin, entries => change origin entries
  | key :: path, _, entries =>
    match entries.lookup key with
    | none =>
      let origin := if dotted then .dotted else .implied
      (descend dotted change path origin []).map fun inner =>
        entries ++ [(key, .table origin inner)]
    | some (.table origin inner) =>
      if origin = .inline || (dotted && origin = .header) then none
      else (descend dotted change path origin inner).map fun inner =>
        replace entries key (.table origin inner)
    | some (.tables items) =>
      match items.getLast? with
      | none => none
      | some last =>
        (descend dotted change path .header last).map fun inner =>
          replace entries key (.tables (items.dropLast ++ [inner]))
    | some _ => none

/-- Add a value with a dotted key to a table. No key is given twice, and dotted keys do not
add to tables that headers made. -/
def insert (path : List Text) (key : Text) (value : Toml) :
    Origin → Entries → Option Entries :=
  descend true (fun origin entries =>
    if (origin == .dotted) == path.isEmpty || (entries.lookup key).isSome then none
    else some (entries ++ [(key, value)])) path

/-- Start the table of a header. A table is started once, also if it was implied before. -/
def openTable (path : List Text) (key : Text) : Entries → Option Entries :=
  descend false (fun _ entries =>
    match entries.lookup key with
    | none => some (entries ++ [(key, .table .header [])])
    | some (.table .implied inner) => some (replace entries key (.table .header inner))
    | some _ => none) path .header

/-- Start one more table of a header with double brackets. -/
def openTables (path : List Text) (key : Text) : Entries → Option Entries :=
  descend false (fun _ entries =>
    match entries.lookup key with
    | none => some (entries ++ [(key, .tables [[]])])
    | some (.tables items) => some (replace entries key (.tables (items ++ [[]])))
    | some _ => none) path .header

end Toml

end ClassHints.Settings
