import Vhdl.DesignUnit.Kind
import Vhdl.Statement.Concurrent

/-! # Design units

Every unit has a context clause and an identifier; what else it has depends on its kind. The names
in library, use and context clauses and the link to a primary unit are slots that linking fills.
-/

namespace Vhdl

/-- An item of a context clause. -/
inductive ContextItem where
  | library (names : List (Linked Identifier))
  | use (names : List (Linked Name))
  | context (names : List (Linked Name))
  deriving BEq

namespace ContextItem

def libraryNames : ContextItem → List (Linked Identifier)
  | .library names => names
  | _ => []

def useNames : ContextItem → List (Linked Name)
  | .use names => names
  | _ => []

def contextNames : ContextItem → List (Linked Name)
  | .context names => names
  | _ => []

def setTargets (target : Option Target) : ContextItem → ContextItem
  | .library names => .library (names.map (·.set target))
  | .use names => .use (names.map (·.set target))
  | .context names => .context (names.map (·.set target))

end ContextItem

inductive UnitBody where
  | entity (generics ports : Option (List Interface)) (decls : List Decl)
      (statements : List ConcStmt)
  /-- The entity configured, the use clauses, and the block specification, if any. -/
  | configuration (entity : Linked Name) (uses : List (List (Linked Name))) (block : Option Name)
  | package (generics : Option (List Interface)) (decls : List Decl)
  /-- The items of a context declaration are its context clause. -/
  | context
  | architecture (entity : Linked Identifier) (decls : List Decl) (statements : List ConcStmt)
  /-- A package body bears the name of its package. -/
  | packageBody (package : Option Target) (decls : List Decl)
  deriving BEq

structure DesignUnit where
  ident : Identifier
  context : List ContextItem := []
  body : UnitBody
  doc : Option String := none
  deriving BEq

namespace UnitBody

def kind : UnitBody → UnitKind
  | .entity .. => .entity
  | .configuration .. => .configuration
  | .package .. => .package
  | .context => .context
  | .architecture .. => .architecture
  | .packageBody .. => .packageBody

def decls : UnitBody → List Decl
  | .entity _ _ decls _ | .package _ decls | .architecture _ decls _ | .packageBody _ decls => decls
  | .configuration .. | .context => []

def statements : UnitBody → List ConcStmt
  | .entity _ _ _ statements | .architecture _ _ statements => statements
  | _ => []

/-- The names of the use clauses that are not in the context clause. -/
def useNames : UnitBody → List (Linked Name)
  | .configuration _ uses _ => uses.flatten
  | body => body.decls.flatMap Decl.useNames

/-- The target of the link to a primary unit, where the unit has such a link. -/
def primaryTarget : UnitBody → Option Target
  | .configuration primary _ _ => primary.target
  | .architecture primary _ _ => primary.target
  | .packageBody primary _ => primary
  | .entity .. | .package .. | .context => none

def setPrimary (target : Option Target) : UnitBody → UnitBody
  | .configuration primary uses block => .configuration (primary.set target) uses block
  | .architecture primary decls statements => .architecture (primary.set target) decls statements
  | .packageBody _ decls => .packageBody target decls
  | body => body

end UnitBody

/-- Replace the names of a use clause. -/
def Decl.mapUseNames (f : List (Linked Name) → List (Linked Name)) : Decl → Decl
  | .useClause names => .useClause (f names)
  | decl => decl

namespace UnitBody

def mapDecls (f : List Decl → List Decl) : UnitBody → UnitBody
  | .entity generics ports decls statements => .entity generics ports (f decls) statements
  | .package generics decls => .package generics (f decls)
  | .architecture primary decls statements => .architecture primary (f decls) statements
  | .packageBody primary decls => .packageBody primary (f decls)
  | body => body

def mapStatements (f : List ConcStmt → List ConcStmt) : UnitBody → UnitBody
  | .entity generics ports decls statements => .entity generics ports decls (f statements)
  | .architecture primary decls statements => .architecture primary decls (f statements)
  | body => body

/-- Set every slot of the body. -/
def setTargets (target : Option Target) : UnitBody → UnitBody
  | .configuration primary uses block =>
    .configuration (primary.set target) (uses.map (·.map (·.set target))) block
  | body => (body.mapDecls (·.map (·.mapUseNames (·.map (·.set target))))).setPrimary target

end UnitBody

/-- How a library finds a unit: primary units by name, architectures by entity and name, package
bodies by package. -/
inductive UnitKey where
  | primary (name : String)
  | architecture (entity name : String)
  | packageBody (package : String)
  deriving DecidableEq, Repr

namespace DesignUnit

def kind (unit : DesignUnit) : UnitKind :=
  unit.body.kind

def isPrimary (unit : DesignUnit) : Bool :=
  unit.kind.isPrimary

def isEntity (unit : DesignUnit) : Bool :=
  unit.kind = .entity

def statements (unit : DesignUnit) : List ConcStmt :=
  unit.body.statements

/-- The name of the primary unit that a secondary unit belongs to. -/
def primaryName? (unit : DesignUnit) : Option Identifier :=
  match unit.body with
  | .architecture entity _ _ => some entity.item
  | .packageBody _ _ => some unit.ident
  | _ => none

def primaryTarget (unit : DesignUnit) : Option Target :=
  unit.body.primaryTarget

/-- Names in library clauses. -/
def libraryNames (unit : DesignUnit) : List (Linked Identifier) :=
  unit.context.flatMap ContextItem.libraryNames

/-- Names in use clauses, those of the context clause first. -/
def useNames (unit : DesignUnit) : List (Linked Name) :=
  unit.context.flatMap ContextItem.useNames ++ unit.body.useNames

/-- Names in context references. -/
def contextNames (unit : DesignUnit) : List (Linked Name) :=
  unit.context.flatMap ContextItem.contextNames

/-- Set every slot of the unit. -/
def setTargets (unit : DesignUnit) (target : Option Target) : DesignUnit :=
  { unit with
    context := unit.context.map (·.setTargets target)
    body := unit.body.setTargets target }

def clearTargets (unit : DesignUnit) : DesignUnit :=
  unit.setTargets none

/-- Does a package leave the value of a constant to its body? -/
def hasDeferredConstant (unit : DesignUnit) : Bool :=
  unit.kind = .package && unit.body.decls.any Decl.isDeferredConstant

def key (unit : DesignUnit) : UnitKey :=
  match unit.body with
  | .architecture entity _ _ => .architecture entity.item.normalized unit.ident.normalized
  | .packageBody _ _ => .packageBody unit.ident.normalized
  | _ => .primary unit.ident.normalized

/-- The architecture that the block specification of a configuration selects. -/
def selectedArchitecture? (unit : DesignUnit) : Option Identifier :=
  match unit.body with
  | .configuration _ _ block => block.bind Name.suffix?
  | _ => none

def addContext (unit : DesignUnit) (items : List ContextItem) : DesignUnit :=
  { unit with context := unit.context ++ items }

def addDecl (unit : DesignUnit) (decl : Decl) : DesignUnit :=
  { unit with body := unit.body.mapDecls (· ++ [decl]) }

def addStatement (unit : DesignUnit) (statement : ConcStmt) : DesignUnit :=
  { unit with body := unit.body.mapStatements (· ++ [statement]) }

def rename (unit : DesignUnit) (ident : Identifier) : DesignUnit :=
  { unit with ident }

/-- Move an architecture to another entity. Other units stay as they are. -/
def setEntity (unit : DesignUnit) (entity : Identifier) : DesignUnit :=
  match unit.body with
  | .architecture _ decls statements =>
    { unit with body := .architecture ⟨entity, none⟩ decls statements }
  | _ => unit

end DesignUnit

end Vhdl
