import Vhdl.Toml

/-! # TOML tables under construction

A table may be defined only once, but it comes into being in several ways, and each of them may be
extended in its own way. A table that only occurs on the way to another one may still get a header.
A table made by dotted keys may get more dotted keys. A value is never extended.
-/

namespace Vhdl.Toml

/-- How a table came into being. -/
inductive Origin where
  /-- By its header, or as an inline table. -/
  | defined
  /-- On the way of a header to another table. -/
  | implied
  /-- On the way of a dotted key. -/
  | dotted
  deriving DecidableEq, Repr

inductive Draft where
  | value (value : Toml)
  | table (origin : Origin) (entries : List (String × Draft))
  /-- An array of tables, each opened by a header of its own. -/
  | tables (items : List (List (String × Draft)))

/-- The entries of a table under construction. -/
abbrev Entries := List (String × Draft)

namespace Entries

def get? (entries : Entries) (key : String) : Option Draft :=
  (entries.find? (·.1 = key)).map (·.2)

def set (entries : Entries) (key : String) (draft : Draft) : Entries :=
  (key, draft) :: entries.filter (·.1 ≠ key)

/-- Go down a path, make the tables that are missing, and change the table at its end. A path of a
dotted key does not pass through tables that are defined. -/
def descend (dotted : Bool) (change : Origin → Entries → Option Entries) (origin : Origin)
    (entries : Entries) : List String → Option Entries
  | [] => change origin entries
  | key :: path =>
    match entries.get? key with
    | none =>
      let origin := if dotted then .dotted else .implied
      (descend dotted change origin [] path).map fun inner => entries.set key (.table origin inner)
    | some (.table origin inner) =>
      if dotted && origin = .defined then none
      else
        (descend dotted change origin inner path).map fun inner =>
          entries.set key (.table origin inner)
    | some (.tables items) =>
      match items.getLast? with
      | none => none
      | some last =>
        (descend dotted change .defined last path).map fun last =>
          entries.set key (.tables (items.dropLast ++ [last]))
    | some (.value _) => none

/-- Add a value under a key that is not there yet. A dotted key ends in a table made by dotted keys,
a simple key in one that is not. -/
def insertValue (dotted : Bool) (key : String) (value : Toml) (origin : Origin)
    (entries : Entries) : Option Entries :=
  if dotted = (origin = .dotted) && (entries.get? key).isNone then
    some (entries.set key (.value value))
  else none

/-- Add a value under a key, the last part of which is `last`, to a table. -/
def insertPair (path : List String) (last : String) (value : Toml) (entries : Entries) :
    Option Entries :=
  entries.descend true (insertValue (!path.isEmpty) last value) .defined path

/-- Add a value to the table of a header. -/
def insertUnder (header : List String) (path : List String) (last : String) (value : Toml)
    (root : Entries) : Option Entries :=
  root.descend false (fun _ entries => entries.insertPair path last value) .defined header

/-- Open the table of a header. -/
def openTable (path : List String) (last : String) (root : Entries) : Option Entries :=
  root.descend false change .defined path
where
  change (_ : Origin) (entries : Entries) : Option Entries :=
    match entries.get? last with
    | none => some (entries.set last (.table .defined []))
    | some (.table .implied inner) => some (entries.set last (.table .defined inner))
    | some _ => none

/-- Add a table to the array of tables of a header. -/
def openItem (path : List String) (last : String) (root : Entries) : Option Entries :=
  root.descend false change .defined path
where
  change (_ : Origin) (entries : Entries) : Option Entries :=
    match entries.get? last with
    | none => some (entries.set last (.tables [[]]))
    | some (.tables items) => some (entries.set last (.tables (items ++ [[]])))
    | some _ => none

end Entries

mutual

def Draft.finish : Draft → Toml
  | .value toml => toml
  | .table _ entries => .table (Draft.finishEntries entries).sort
  | .tables items => .array (Draft.finishItems items)

def Draft.finishEntries : List (String × Draft) → TomlTable
  | [] => []
  | (key, draft) :: rest => (key, draft.finish) :: Draft.finishEntries rest

def Draft.finishItems : List (List (String × Draft)) → List Toml
  | [] => []
  | entries :: rest => .table (Draft.finishEntries entries).sort :: Draft.finishItems rest

end

/-- The finished table. -/
def Entries.finish (entries : Entries) : TomlTable :=
  (Draft.finishEntries entries).sort

end Vhdl.Toml
