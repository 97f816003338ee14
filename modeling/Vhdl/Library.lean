import Vhdl.Diagnostic
import Vhdl.DesignUnit
import Vhdl.Table

/-! # Libraries

A library lists its units by kind in the order of registration, finds them by key, and knows the
architectures of each entity. Primary units share one namespace.
-/

namespace Vhdl

structure Library where
  id : LibraryId
  ident : Identifier
  byKind : Table UnitKind (List UnitId) := {}
  byKey : Table UnitKey UnitId := {}
  /-- The architectures by the normalized name of their entity. -/
  byEntity : Table String (List UnitId) := {}

namespace Library

def name (library : Library) : String :=
  library.ident.text

def location (library : Library) : Location :=
  ⟨.library library.id, library.name⟩

def unitsOfKind (library : Library) (kind : UnitKind) : List UnitId :=
  library.byKind.getD kind []

/-- The kinds in the order in which a library lists its units. -/
def kindOrder : List UnitKind :=
  [.context, .configuration, .entity, .architecture, .package, .packageBody]

def units (library : Library) (filter : UnitKindSet) : List UnitId :=
  (kindOrder.filter filter.contains).flatMap library.unitsOfKind

def numUnits (library : Library) : Nat :=
  library.byKey.size

def get? (library : Library) (key : UnitKey) : Option UnitId :=
  library.byKey.get? key

/-- The normalized form of a text. A text that is no identifier stays as it is and names nothing. -/
def normalize (text : String) : String :=
  match Identifier.check text with
  | .ok ident => ident.normalized
  | .error _ => text

def primaryUnit? (library : Library) (name : String) : Option UnitId :=
  library.get? (.primary (normalize name))

def architecture? (library : Library) (entity name : String) : Option UnitId :=
  library.get? (.architecture (normalize entity) (normalize name))

def packageBody? (library : Library) (package : String) : Option UnitId :=
  library.get? (.packageBody (normalize package))

/-- The architectures of an entity by its normalized name. -/
def architecturesOf (library : Library) (entity : String) : List UnitId :=
  library.byEntity.getD entity []

/-- The architectures of the entity that a text names. -/
def architecturesNamed (library : Library) (entity : String) : List UnitId :=
  library.architecturesOf (normalize entity)

def duplicateMessage (library : Library) (unit : DesignUnit) : String :=
  match unit.key with
  | .primary _ =>
    "A primary unit has already been declared with name '" ++ unit.ident.text ++
      "' in library '" ++ library.name ++ "'"
  | .architecture _ _ =>
    "Duplicate architecture '" ++ unit.ident.text ++ "' of entity '" ++
      (unit.primaryName?.map Identifier.text).getD "" ++ "'"
  | .packageBody _ => "Duplicate package body of package '" ++ unit.ident.text ++ "'"

/-- The key of a unit, unless another unit of the library has it. -/
def vacantKey (library : Library) (unit : DesignUnit) : Except Diagnostic UnitKey :=
  if library.byKey.contains unit.key then
    .error (.duplicateUnit library.location (library.duplicateMessage unit))
  else .ok unit.key

/-- Add an architecture behind those that its entity already has. -/
def appendToEntity (byEntity : Table String (List UnitId)) (id : UnitId) :
    UnitKey → Table String (List UnitId)
  | .architecture entity _ => byEntity.insert entity (byEntity.getD entity [] ++ [id])
  | _ => byEntity

/-- Register a unit under a vacant key. -/
def insert (library : Library) (key : UnitKey) (kind : UnitKind) (id : UnitId) : Library :=
  { library with
    byKind := library.byKind.insert kind (library.unitsOfKind kind ++ [id])
    byKey := library.byKey.insert key id
    byEntity := appendToEntity library.byEntity id key }

def removeFromEntity (byEntity : Table String (List UnitId)) (id : UnitId) :
    UnitKey → Table String (List UnitId)
  | .architecture entity _ => byEntity.insert entity ((byEntity.getD entity []).filter (· ≠ id))
  | _ => byEntity

/-- Put an architecture before the first one of its entity that has a greater handle. -/
def placeInEntity (byEntity : Table String (List UnitId)) (id : UnitId) :
    UnitKey → Table String (List UnitId)
  | .architecture entity _ =>
    let ids := byEntity.getD entity []
    byEntity.insert entity (ids.takeWhile (·.le id) ++ id :: ids.dropWhile (·.le id))
  | _ => byEntity

/-- Move a unit to another key after it was renamed. -/
def rekey (library : Library) (old new : UnitKey) (id : UnitId) : Library :=
  { library with
    byKey := (library.byKey.erase old).insert new id
    byEntity := placeInEntity (removeFromEntity library.byEntity id old) id new }

end Library

end Vhdl
