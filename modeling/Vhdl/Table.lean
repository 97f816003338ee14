/-! # Tables

A table maps keys to values and lists its entries in the order the keys were first inserted.
-/

namespace Vhdl

structure Table (κ α : Type) where
  entries : List (κ × α) := []

namespace Table

variable {κ α : Type} [DecidableEq κ]

def empty : Table κ α := {}

instance : Inhabited (Table κ α) := ⟨empty⟩

def get? (table : Table κ α) (key : κ) : Option α :=
  (table.entries.find? (·.1 = key)).map (·.2)

def getD (table : Table κ α) (key : κ) (default : α) : α :=
  (table.get? key).getD default

def contains (table : Table κ α) (key : κ) : Bool :=
  (table.get? key).isSome

/-- Set the value of a key, in its place if the key is there already. -/
def insert (table : Table κ α) (key : κ) (value : α) : Table κ α :=
  if table.contains key then
    ⟨table.entries.map fun entry => if entry.1 = key then (key, value) else entry⟩
  else ⟨table.entries ++ [(key, value)]⟩

def erase (table : Table κ α) (key : κ) : Table κ α :=
  ⟨table.entries.filter (·.1 ≠ key)⟩

def keys (table : Table κ α) : List κ :=
  table.entries.map (·.1)

def values (table : Table κ α) : List α :=
  table.entries.map (·.2)

def size (table : Table κ α) : Nat :=
  table.entries.length

end Table

end Vhdl
