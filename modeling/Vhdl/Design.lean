import Vhdl.Analysis
import Vhdl.Store.Register

/-! # Designs

A design is a store together with its analysis, if it was analyzed since it last changed. An
operation on a design gives an answer or a diagnostic, the design afterwards, and what it logged. It
changes the design in place, so that an operation which fails has to take back what it wrote.
-/

namespace Vhdl

structure Design where
  store : Store := {}
  analysis : Option Analysis := none

/-- The outcome of an operation on a design. -/
structure Step (α : Type) where
  answer : Except Diagnostic α
  design : Design
  log : List LogRecord := []

/-- Go on with the answer, if there is one. -/
def Step.andThen {α β : Type} (step : Step α) (next : α → Design → Step β) : Step β :=
  match step.answer with
  | .error diagnostic => { step with answer := .error diagnostic }
  | .ok answer =>
    let outcome := next answer step.design
    { outcome with log := step.log ++ outcome.log }

namespace Design

def withConfig (config : Config) : Design :=
  { store := { config } }

def isAnalyzed (design : Design) : Bool :=
  design.analysis.isSome

def dropLog : Option Analysis → List LogRecord
  | some _ => [.debug "Design modified, dropping previous analysis"]
  | none => []

variable {α : Type}

/-- Answer without a change. -/
def answer (design : Design) (answer : α) (log : List LogRecord := []) : Step α :=
  { answer := .ok answer, design, log }

def fail (design : Design) (diagnostic : Diagnostic) : Step α :=
  { answer := .error diagnostic, design }

end Design

/-- A program that changes a design in place. What it wrote before it fails stays written. -/
def Edit (α : Type) : Type :=
  Design → Step α

namespace Edit

variable {α β : Type}

def run (design : Design) (edit : Edit α) : Step α :=
  edit design

instance : Monad Edit where
  pure answer := fun design => design.answer answer
  bind edit next := fun design =>
    (edit.run design).andThen fun answer design => (next answer).run design

def fail (diagnostic : Diagnostic) : Edit α :=
  fun design => design.fail diagnostic

def ofExcept : Except Diagnostic α → Edit α
  | .error diagnostic => fail diagnostic
  | .ok answer => pure answer

def read (query : Store → α) : Edit α :=
  fun design => design.answer (query design.store)

def write (update : Store → Store) : Edit Unit :=
  fun design => { design with store := update design.store }.answer ()

def log (record : LogRecord) : Edit Unit :=
  fun design => design.answer () [record]

/-- Drop the analysis, which no longer holds. -/
def invalidate : Edit Unit := fun design =>
  { design with analysis := none }.answer () (Design.dropLog design.analysis)

def library (id : LibraryId) : Edit Library := do
  match ← read (·.library? id) with
  | some library => return library
  | none => fail (Store.unknownLibrary id)

/-- Register units in a library one after the other, the first one with the given index. -/
def insertUnits (library : LibraryId) (document : DocumentId) (first : Nat) :
    List DesignUnit → Edit Unit
  | [] => return
  | unit :: rest => do
    write (·.updateLibrary library (·.insert unit.key unit.kind ⟨document, first⟩))
    insertUnits library document (first + 1) rest

end Edit

namespace Design

def setConfig (design : Design) (config : Config) : Step Unit :=
  Edit.run design do
    .invalidate
    .write ({ · with config })

def createLibrary (design : Design) (name : String) : Step LibraryId :=
  Edit.run design do
    let ident ← .ofExcept (Identifier.ofString name)
    if ident.normalized = "work" then
      .fail (.error (.detached ident.text) Store.workMessage .invalidIdentifier)
    else
      match ← .read fun store => (store.findLibrary? ident).bind store.library? with
      | some existing =>
        .fail (.error existing.location
          ("Library '" ++ ident.text ++ "' has already been created") .duplicateLibrary)
      | none =>
        .invalidate
        .log (.trace ("Creating library '" ++ name ++ "'"))
        let id ← .read fun store => ⟨store.libraries.length⟩
        .write fun store =>
          { store with libraryNames := store.libraryNames.insert ident.normalized id }
        .write fun store => { store with libraries := store.libraries ++ [{ id, ident }] }
        return id

def getOrCreateLibrary (design : Design) (name : String) : Step LibraryId :=
  match design.store.libraryNamed? name with
  | some id => design.answer id
  | none => design.createLibrary name

def addedLog (store : Store) (document : Document) (id : DocumentId) (library : LibraryId) :
    LogRecord :=
  .trace ("Added document '" ++ document.displayName id.index ++ "' with " ++
    Nat.repr document.units.length ++ " units to library '" ++
    ((store.library? library).map Library.name).getD "" ++ "'")

/-- All units are checked before the first one is registered. -/
def addDocument (design : Design) (document : Document) (library : LibraryId) : Step DocumentId :=
  Edit.run design do
    let owner ← .library library
    match ← .read fun store => document.path.bind fun path =>
      (store.samePath? path).map fun id => (path, store.documentLocation id) with
    | some (path, location) =>
      .fail (.error location ("Document '" ++ path.text ++ "' has already been added")
        .duplicateDocument)
    | none =>
      let _ ← .ofExcept (Store.vacantKeys owner [] document.units)
      .invalidate
      let id ← .read fun store => ⟨store.documents.length⟩
      .insertUnits library id 0 document.units
      .log (← .read (addedLog · document id library))
      .write fun store =>
        { store with documents := store.documents ++ [{ document with library := some library }] }
      return id

def addUnit (design : Design) (document : DocumentId) (unit : DesignUnit) : Step UnitId :=
  Edit.run design do
    match ← .read (·.owner? document) with
    | none =>
      .fail (.internal (.detached unit.ident.text)
        ("Document #" ++ Nat.repr document.index ++ " is not registered"))
    | some (old, owner, library) =>
      let key ← .ofExcept (library.vacantKey unit)
      let id : UnitId := ⟨document, old.units.length⟩
      .write (·.updateLibrary owner (·.insert key unit.kind id))
      .invalidate
      .write (·.updateUnits document (· ++ [unit]))
      return id

/-- The unit is changed in place first. It is put back if it may not change like this. -/
def modifyUnit (design : Design) (id : UnitId) (modify : DesignUnit → DesignUnit) : Step Unit :=
  Edit.run design do
    match ← .read (·.ownedUnit? id) with
    | none => .fail (.internal .design ("Unknown design unit " ++ id.placeholder))
    | some (owner, backup) =>
      let unit := modify backup
      .write (·.setUnit id unit)
      if unit.kind ≠ backup.kind then
        .write (·.setUnit id backup)
        .fail (.internal ⟨.unit id, backup.ident.text⟩
          "The kind of a registered design unit cannot change")
      else
        let library ← .library owner
        if unit.key ≠ backup.key then
          match library.vacantKey unit with
          | .error diagnostic =>
            .write (·.setUnit id backup)
            .fail diagnostic
          | .ok key =>
            .write (·.updateLibrary owner (·.rekey backup.key key id))
            .invalidate
        else .invalidate

/-- Analyze from scratch and keep the analysis. -/
def analyze (design : Design) : Step (List Diagnostic) :=
  let { store, analysis, log } := design.store.analyze
  { answer := .ok analysis.diagnostics, design := ⟨store, some analysis⟩, log }

end Design

end Vhdl
