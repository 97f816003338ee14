import Vhdl.DesignUnit
import Vhdl.SourcePath

/-! # Documents

The units of one source file in the order they are written. A document without a path is virtual.
-/

namespace Vhdl

structure Document where
  path : Option SourcePath := none
  /-- The library that the document is registered in, once it is. -/
  library : Option LibraryId := none
  units : List DesignUnit := []
  doc : Option String := none

namespace Document

def isVirtual (document : Document) : Bool :=
  document.path.isNone

def unitsOf (document : Document) (filter : UnitKindSet) : List DesignUnit :=
  document.units.filter fun unit => filter.contains unit.kind

/-- The path, or a stand-in with the number of the document. -/
def displayName (document : Document) (index : Nat) : String :=
  match document.path with
  | some path => path.text
  | none => "<virtual " ++ Nat.repr index ++ ">"

end Document

end Vhdl
