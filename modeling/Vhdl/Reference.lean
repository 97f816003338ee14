import Vhdl.Handle

/-! # References

A name in a clause keeps what it was linked to. An unlinked name has no target.
-/

namespace Vhdl

structure Linked (α : Type) where
  item : α
  target : Option Target := none

namespace Linked

variable {α : Type}

/-- Two linked names are equal when the names and their targets are. -/
instance [BEq α] : BEq (Linked α) where
  beq a b := a.item == b.item && a.target == b.target

def set (name : Linked α) (target : Option Target) : Linked α :=
  { name with target }

def isDefined (name : Linked α) : Bool :=
  name.target.isSome

end Linked

end Vhdl
