import Vhdl.Design

/-! # Outcomes of operations

What each operation makes of a store, as a function: a diagnostic, or an answer and the store
afterwards. A store is built if such changes and analyses make it out of an empty one.
-/

namespace Vhdl.Store

def createLibrary (store : Store) (name : String) : Except Diagnostic (LibraryId × Store) :=
  match Identifier.ofString name with
  | .error diagnostic => .error diagnostic
  | .ok ident =>
    if ident.normalized = "work" then
      .error (.error (.detached ident.text) workMessage .invalidIdentifier)
    else
      match (store.findLibrary? ident).bind store.library? with
      | some existing =>
        .error (.error existing.location
          ("Library '" ++ ident.text ++ "' has already been created") .duplicateLibrary)
      | none =>
        let id : LibraryId := ⟨store.libraries.length⟩
        .ok (id, { store with
          libraries := store.libraries ++ [{ id, ident }]
          libraryNames := store.libraryNames.insert ident.normalized id })

def insertUnits (library : Library) (id : DocumentId) (units : List DesignUnit)
    (first : Nat := 0) : Library :=
  (units.zipIdx first).foldl
    (fun library (unit, index) => library.insert unit.key unit.kind ⟨id, index⟩) library

def addDocument (store : Store) (document : Document) (library : LibraryId) :
    Except Diagnostic (DocumentId × Store) :=
  match store.library? library with
  | none => .error (unknownLibrary library)
  | some owner =>
    match document.path.bind fun path =>
      (store.samePath? path).map fun id => (path, store.documentLocation id) with
    | some (path, location) =>
      .error (.error location ("Document '" ++ path.text ++ "' has already been added")
        .duplicateDocument)
    | none =>
      match vacantKeys owner [] document.units with
      | .error diagnostic => .error diagnostic
      | .ok _ =>
        let id : DocumentId := ⟨store.documents.length⟩
        let store := store.updateLibrary library (insertUnits · id document.units)
        .ok (id, { store with
          documents := store.documents ++ [{ document with library := some library }] })

def addUnit (store : Store) (id : DocumentId) (unit : DesignUnit) :
    Except Diagnostic (UnitId × Store) :=
  match store.owner? id with
  | none =>
    .error (.internal (.detached unit.ident.text)
      ("Document #" ++ Nat.repr id.index ++ " is not registered"))
  | some (document, owner, library) =>
    match library.vacantKey unit with
    | .error diagnostic => .error diagnostic
    | .ok key =>
      let unitId : UnitId := ⟨id, document.units.length⟩
      .ok (unitId, (store.updateLibrary owner (·.insert key unit.kind unitId)).updateUnits id
        (· ++ [unit]))

def modifyUnit (store : Store) (id : UnitId) (modify : DesignUnit → DesignUnit) :
    Except Diagnostic (Unit × Store) :=
  match store.ownedUnit? id with
  | none => .error (.internal .design ("Unknown design unit " ++ id.placeholder))
  | some (owner, unit) =>
    let changed := modify unit
    if changed.kind ≠ unit.kind then
      .error (.internal ⟨.unit id, unit.ident.text⟩
        "The kind of a registered design unit cannot change")
    else
      match store.library? owner with
      | none => .error (unknownLibrary owner)
      | some library =>
        if changed.key = unit.key then .ok ((), store.setUnit id changed)
        else
          match library.vacantKey changed with
          | .error diagnostic => .error diagnostic
          | .ok key =>
            .ok ((), (store.setUnit id changed).updateLibrary owner (·.rekey unit.key key id))

/-- A change of a store: by a new configuration, by a registration or modification that succeeds, or
by an analysis. -/
inductive Change : Store → Store → Prop where
  | config (store : Store) (config : Config) : Change store { store with config }
  | createLibrary {store next : Store} {name : String} {id : LibraryId} :
      store.createLibrary name = .ok (id, next) → Change store next
  | addDocument {store next : Store} {document : Document} {library : LibraryId}
      {id : DocumentId} :
      store.addDocument document library = .ok (id, next) → Change store next
  | addUnit {store next : Store} {document : DocumentId} {unit : DesignUnit} {id : UnitId} :
      store.addUnit document unit = .ok (id, next) → Change store next
  | modifyUnit {store next : Store} {id : UnitId} {modify : DesignUnit → DesignUnit} :
      store.modifyUnit id modify = .ok ((), next) → Change store next
  | analyze (store : Store) : Change store store.analyze.store

/-- The stores that changes make out of an empty one. -/
inductive Built : Store → Prop where
  | empty (config : Config) : Built { config }
  | change {store next : Store} : Built store → Change store next → Built next

end Vhdl.Store
