import Vhdl.Config
import Vhdl.Document
import Vhdl.Library

/-! # The store of a design

A store holds the configuration, the libraries in the order they were created, and the documents in
the order they were added. A unit belongs to the library of its document.
-/

namespace Vhdl

structure Store where
  config : Config := {}
  libraries : List Library := []
  /-- The libraries by their normalized names. -/
  libraryNames : Table String LibraryId := {}
  documents : List Document := []

/-- A unit with the document and the library it belongs to. -/
structure RegisteredUnit where
  id : UnitId
  library : Library
  document : Document
  unit : DesignUnit

/-- The text of a key inside a library of the given normalized name. -/
def UnitKey.render (library : String) : UnitKey → String
  | .primary name => library ++ "." ++ name
  | .architecture entity name => library ++ "." ++ entity ++ "(" ++ name ++ ")"
  | .packageBody package => library ++ "." ++ package ++ "(body)"

namespace RegisteredUnit

def key (registered : RegisteredUnit) : String :=
  registered.unit.key.render registered.library.ident.normalized

def location (registered : RegisteredUnit) : Location :=
  ⟨.unit registered.id, registered.key⟩

end RegisteredUnit

namespace Store

def library? (store : Store) (id : LibraryId) : Option Library :=
  store.libraries[id.index]?

/-- The library of that name. -/
def findLibrary? (store : Store) (ident : Identifier) : Option LibraryId :=
  store.libraryNames.get? ident.normalized

/-- The library that a text names. A text that is no identifier names none. -/
def libraryNamed? (store : Store) (name : String) : Option LibraryId :=
  match Identifier.check name with
  | .ok ident => store.findLibrary? ident
  | .error _ => none

def document? (store : Store) (id : DocumentId) : Option Document :=
  store.documents[id.index]?

def unit? (store : Store) (id : UnitId) : Option DesignUnit :=
  (store.document? id.document).bind (·.units[id.index]?)

def registered? (store : Store) (id : UnitId) : Option RegisteredUnit := do
  let document ← store.document? id.document
  let library ← store.library? (← document.library)
  let unit ← document.units[id.index]?
  return { id, library, document, unit }

/-- The documents with their handles. -/
def numberedDocuments (store : Store) : List (DocumentId × Document) :=
  store.documents.zipIdx.map fun (document, index) => (⟨index⟩, document)

/-- The handles of all units in document order. -/
def unitIds (store : Store) : List UnitId :=
  store.numberedDocuments.flatMap fun (id, document) =>
    (List.range document.units.length).map fun index => ⟨id, index⟩

/-- The registered units of the given kinds in document order. -/
def units (store : Store) (filter : UnitKindSet) : List RegisteredUnit :=
  (store.unitIds.filterMap store.registered?).filter fun registered =>
    filter.contains registered.unit.kind

def numUnits (store : Store) : Nat :=
  store.libraries.foldl (fun count library => count + library.numUnits) 0

def kindOf? (store : Store) (id : UnitId) : Option UnitKind :=
  (store.unit? id).map DesignUnit.kind

/-- The primary unit of a library with that identifier, if it is of the given kind. -/
def primaryOfKind? (store : Store) (library : Library) (ident : Identifier) (kind : UnitKind) :
    Option UnitId :=
  (library.get? (.primary ident.normalized)).filter fun id => store.kindOf? id = some kind

def findPrimary? (store : Store) (library name : String) : Option RegisteredUnit := do
  let library ← store.library? (← store.libraryNamed? library)
  store.registered? (← library.primaryUnit? name)

def findArchitecture? (store : Store) (library entity name : String) : Option RegisteredUnit := do
  let library ← store.library? (← store.libraryNamed? library)
  store.registered? (← library.architecture? entity name)

def locationOf (store : Store) (id : UnitId) : Location :=
  match store.registered? id with
  | some registered => registered.location
  | none => ⟨.unit id, id.placeholder⟩

def libraryLocation (store : Store) (id : LibraryId) : Location :=
  ⟨.library id, ((store.library? id).map (·.ident.normalized)).getD ""⟩

def documentLocation (store : Store) (id : DocumentId) : Location :=
  ⟨.document id, ((store.document? id).map (·.displayName id.index)).getD ""⟩

def targetLocation (store : Store) : Target → Location
  | .library id => store.libraryLocation id
  | .unit id => store.locationOf id

end Store

end Vhdl
