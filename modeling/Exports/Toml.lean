import Exports.Decimal
import Exports.Text.Reader

namespace Exports

inductive Toml where
  | string (text : String)
  | integer (value : Int)
  | float (value : Float)
  | boolean (value : Bool)
  /-- Dates and times are read for their form only. -/
  | datetime
  | array (items : List Toml)
  /-- `implied` tells that no header defines the table, `dotted` that a dotted key does. -/
  | table (implied dotted : Bool) (entries : List (String × Toml))
  /-- A table in braces is a value, to which nothing can be added. -/
  | braced (entries : List (String × Toml))
  /-- Tables under one repeated header, last first. -/
  | tables (items : List Toml)

namespace Toml

abbrev Entries := List (String × Toml)

def lookup (entries : Entries) (key : String) : Option Toml :=
  (entries.find? (·.1 = key)).map (·.2)

/-- Replaces the entry of a key where it stands, or adds it. -/
def store (entries : Entries) (key : String) (value : Toml) : Entries :=
  if entries.any (·.1 = key) then entries.map fun e => if e.1 = key then (key, value) else e
  else entries ++ [(key, value)]

/-- Changes the table that a path of keys leads to. Missing tables on the way are implied. A
dotted path may not pass through a table that is defined elsewhere. The change sees whether the
table is dotted. -/
def descend (dotted : Bool) (change : Bool → Entries → Option Entries) :
    List String → Bool → Entries → Option Entries
  | [], isDotted, entries => change isDotted entries
  | key :: path, _, entries =>
    match lookup entries key with
    | none => do
      let inner ← descend dotted change path dotted []
      some (store entries key (.table true dotted inner))
    | some (.table implied isDotted inner) => do
      if dotted && !implied then none
      let inner ← descend dotted change path isDotted inner
      some (store entries key (.table implied isDotted inner))
    | some (.tables (.table implied isDotted inner :: before)) => do
      let inner ← descend dotted change path isDotted inner
      some (store entries key (.tables (.table implied isDotted inner :: before)))
    | some _ => none

/-- Adds a value under a dotted key. Only tables that dotted keys made take more of them. -/
def assign (path : List String) (value : Toml) (entries : Entries) : Option Entries :=
  match path.reverse with
  | [] => none
  | key :: parents =>
    descend true (fun isDotted inner =>
      if isDotted = parents.isEmpty || (lookup inner key).isSome then none
      else some (inner ++ [(key, value)])) parents.reverse false entries

/-- Defines the table of a header. -/
def openTable (path : List String) (entries : Entries) : Option Entries :=
  match path.reverse with
  | [] => none
  | key :: parents =>
    descend false (fun _ inner =>
      match lookup inner key with
      | none => some (store inner key (.table false false []))
      | some (.table true false old) => some (store inner key (.table false false old))
      | some _ => none) parents.reverse false entries

/-- Adds a table under a repeated header. -/
def openRepeated (path : List String) (entries : Entries) : Option Entries :=
  match path.reverse with
  | [] => none
  | key :: parents =>
    descend false (fun _ inner =>
      match lookup inner key with
      | none => some (store inner key (.tables [.table false false []]))
      | some (.tables before) =>
        some (store inner key (.tables (.table false false [] :: before)))
      | some _ => none) parents.reverse false entries

/-- Adds a value under a key of the table that the last header opened. -/
def assignUnder (header path : List String) (value : Toml) (entries : Entries) :
    Option Entries :=
  descend false (fun _ inner => assign path value inner) header false entries

end Toml

end Exports
