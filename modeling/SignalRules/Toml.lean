/-! # TOML documents

The values of a TOML document and the tables that its lines build up. A table may be named before
it is defined, and a defined table is closed to some later lines and open to others, so a table
keeps how it came about.
-/

namespace SignalRules

/-- How a table came about. -/
inductive TableOrigin where
  | header
  /-- It was named in the header of a table inside it. -/
  | implied
  /-- It was named in front of a dot in a key. -/
  | dotted
  deriving DecidableEq

/-- A value or a table. Floating-point numbers and dates are kept as they are written. -/
inductive Toml where
  | string (s : String)
  | integer (n : Int)
  | boolean (b : Bool)
  | float (text : String)
  | moment (text : String)
  | array (items : List Toml)
  /-- A table written as a value, or named in front of a dot inside one. -/
  | inline (dotted : Bool) (entries : List (String × Toml))
  | table (origin : TableOrigin) (entries : List (String × Toml))
  /-- Tables under one repeated header, by their entries. -/
  | tables (items : List (List (String × Toml)))

namespace Toml

/-- The entries of a table, each key once. -/
abbrev Entries := List (String × Toml)

def replace (key : String) (value : Toml) (entries : Entries) : Entries :=
  entries.map fun entry => if entry.1 = key then (key, value) else entry

def addNew (key : String) (value : Toml) (entries : Entries) : Option Entries :=
  if (entries.lookup key).isSome then none else some (entries ++ [(key, value)])

/-- Add a key behind a path of dotted keys to a table written as a value. Tables on the way are
made as needed; one that was not made in this way is closed. -/
def addInline : List String → String → Toml → Entries → Option Entries
  | [], key, value, entries => addNew key value entries
  | step :: path, key, value, entries =>
    match entries.lookup step with
    | none => (addInline path key value []).map fun inner => entries ++ [(step, .inline true inner)]
    | some (.inline true inner) =>
      (addInline path key value inner).map fun inner => replace step (.inline true inner) entries
    | some _ => none

/-- Change the table at a path, making tables on the way. With `dotted` the path belongs to a key,
and the tables that have headers are closed to it. A repeated table stands for its last. -/
def alter? (dotted : Bool) :
    List String → (TableOrigin → Entries → Option Entries) → TableOrigin → Entries → Option Entries
  | [], change, origin, entries => change origin entries
  | step :: path, change, _, entries =>
    match entries.lookup step with
    | none =>
      let made : TableOrigin := if dotted then .dotted else .implied
      (alter? dotted path change made []).map fun inner => entries ++ [(step, .table made inner)]
    | some (.table origin inner) =>
      if dotted && origin = .header then none
      else
        (alter? dotted path change origin inner).map fun inner =>
          replace step (.table origin inner) entries
    | some (.tables items) =>
      (alter? dotted path change .header (items.getLast?.getD [])).map fun inner =>
        replace step (.tables (items.dropLast ++ [inner])) entries
    | some _ => none

/-- Add the value of a key line under the header `place`. A table made by dotted keys takes dotted
keys only, any other table only keys that are not dotted. -/
def addKey (place path : List String) (key : String) (value : Toml) (root : Entries) :
    Option Entries :=
  let put (origin : TableOrigin) (entries : Entries) : Option Entries :=
    if (origin = .dotted) = path.isEmpty then none else addNew key value entries
  alter? false place (alter? true path put) .header root

/-- Open the table of a header. A table may have been implied before, but not defined. -/
def openTable (path : List String) (key : String) (root : Entries) : Option Entries :=
  let define (_ : TableOrigin) (entries : Entries) : Option Entries :=
    match entries.lookup key with
    | none => some (entries ++ [(key, .table .header [])])
    | some (.table .implied inner) => some (replace key (.table .header inner) entries)
    | some _ => none
  alter? false path define .header root

/-- Open a further table of a repeated header. -/
def openRepeated (path : List String) (key : String) (root : Entries) : Option Entries :=
  let extend (_ : TableOrigin) (entries : Entries) : Option Entries :=
    match entries.lookup key with
    | none => some (entries ++ [(key, .tables [[]])])
    | some (.tables items) => some (replace key (.tables (items ++ [[]])) entries)
    | some _ => none
  alter? false path extend .header root

end Toml

end SignalRules
