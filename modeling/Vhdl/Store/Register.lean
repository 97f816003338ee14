import Vhdl.Store

/-! # Registration

What stands against a registration, and the single writes that registrations are made of.
-/

namespace Vhdl.Store

def workMessage : String :=
  "The 'work' library is not a valid library, 'work' always refers to the library of the design " ++
    "unit itself"

def unknownLibrary (id : LibraryId) : Diagnostic :=
  .error (.detached ("library #" ++ Nat.repr id.index)) "Unknown library" .unknownLibrary

/-- The registered document that has the same path, if any. -/
def samePath? (store : Store) (path : SourcePath) : Option DocumentId :=
  (store.numberedDocuments.find? fun (_, document) => document.path.any (·.same path)).map (·.1)

/-- The keys of units that are to enter a library, `taken` being the keys of those before them. -/
def vacantKeys (library : Library) (taken : List UnitKey) :
    List DesignUnit → Except Diagnostic (List UnitKey)
  | [] => .ok taken
  | unit :: rest =>
    match library.vacantKey unit with
    | .error diagnostic => .error diagnostic
    | .ok key =>
      if key ∈ taken then
        .error (.duplicateUnit library.location
          ("Design unit '" ++ unit.ident.text ++ "' is declared twice in the same document"))
      else vacantKeys library (taken ++ [key]) rest

/-- The document with its library and the handle of it, if the document is registered. -/
def owner? (store : Store) (id : DocumentId) : Option (Document × LibraryId × Library) := do
  let document ← store.document? id
  let owner ← document.library
  let library ← store.library? owner
  return (document, owner, library)

/-- The unit and the handle of its library, if its document is registered. -/
def ownedUnit? (store : Store) (id : UnitId) : Option (LibraryId × DesignUnit) := do
  let document ← store.document? id.document
  let owner ← document.library
  let unit ← document.units[id.index]?
  return (owner, unit)

def updateLibrary (store : Store) (id : LibraryId) (update : Library → Library) : Store :=
  { store with libraries := store.libraries.modify id.index update }

def updateUnits (store : Store) (id : DocumentId)
    (update : List DesignUnit → List DesignUnit) : Store :=
  { store with documents := store.documents.modify id.index fun document =>
      { document with units := update document.units } }

def setUnit (store : Store) (id : UnitId) (unit : DesignUnit) : Store :=
  store.updateUnits id.document (·.set id.index unit)

end Vhdl.Store
