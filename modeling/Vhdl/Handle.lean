/-! # Handles

A design numbers its libraries and documents in the order they arrive. A unit is found by its
document and its position there.
-/

namespace Vhdl

structure LibraryId where
  index : Nat
  deriving DecidableEq, Repr

structure DocumentId where
  index : Nat
  deriving DecidableEq, Repr

structure UnitId where
  document : DocumentId
  index : Nat
  deriving DecidableEq, Repr

namespace UnitId

/-- Units compare by document, then by position. -/
def le (a b : UnitId) : Bool :=
  a.document.index < b.document.index ||
    (a.document.index == b.document.index && a.index ≤ b.index)

/-- The name of a unit that no design knows. -/
def placeholder (id : UnitId) : String :=
  s!"UnitId \x7b document: DocumentId({id.document.index}), index: {id.index} \x7d"

end UnitId

/-- What a reference stands for once it is linked. -/
inductive Target where
  | library (id : LibraryId)
  | unit (id : UnitId)
  deriving DecidableEq, Repr

namespace Target

def unit? : Target → Option UnitId
  | .unit id => some id
  | .library _ => none

def library? : Target → Option LibraryId
  | .library id => some id
  | .unit _ => none

end Target

end Vhdl
