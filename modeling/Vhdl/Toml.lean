/-! # TOML values

A TOML document is a table from keys to values. Tables list their entries by key in ascending order.
-/

namespace Vhdl

/-- Floats and dates keep their spelling. -/
inductive Toml where
  | string (text : String)
  | integer (value : Int)
  | float (spelling : String)
  | boolean (value : Bool)
  | datetime (spelling : String)
  | array (items : List Toml)
  | table (entries : List (String × Toml))

/-- The entries of a table. -/
abbrev TomlTable := List (String × Toml)

namespace TomlTable

def get? (table : TomlTable) (key : String) : Option Toml :=
  (table.find? (·.1 = key)).map (·.2)

def sort (table : TomlTable) : TomlTable :=
  table.mergeSort fun a b => decide (a.1 ≤ b.1)

end TomlTable

namespace Toml

def string? : Toml → Option String
  | .string text => some text
  | _ => none

def boolean? : Toml → Option Bool
  | .boolean value => some value
  | _ => none

def table? : Toml → Option TomlTable
  | .table entries => some entries
  | _ => none

end Toml

end Vhdl
