/-! # Kinds of design units -/

namespace Vhdl

inductive UnitKind where
  | entity
  | configuration
  | package
  | context
  | architecture
  | packageBody
  deriving DecidableEq, Repr

namespace UnitKind

def all : List UnitKind :=
  [.entity, .configuration, .package, .context, .architecture, .packageBody]

/-- The order in which the units of a library are linked. -/
def linkOrder : List UnitKind :=
  [.context, .package, .packageBody, .entity, .architecture, .configuration]

def isPrimary : UnitKind → Bool
  | .architecture | .packageBody => false
  | _ => true

def describe : UnitKind → String
  | .entity => "entity"
  | .configuration => "configuration"
  | .package => "package"
  | .context => "context"
  | .architecture => "architecture"
  | .packageBody => "package body"

def ofDescription? (text : String) : Option UnitKind :=
  all.find? (·.describe = text)

end UnitKind

/-- A set of kinds that selects units. -/
structure UnitKindSet where
  contains : UnitKind → Bool

namespace UnitKindSet

def none : UnitKindSet := ⟨fun _ => false⟩

def all : UnitKindSet := ⟨fun _ => true⟩

def primary : UnitKindSet := ⟨UnitKind.isPrimary⟩

def secondary : UnitKindSet := ⟨fun kind => !kind.isPrimary⟩

/-- The units that a context clause may precede. -/
def withContext : UnitKindSet := ⟨fun kind => kind ≠ .context⟩

instance : Inhabited UnitKindSet := ⟨all⟩

def only (kind : UnitKind) : UnitKindSet := ⟨fun other => other = kind⟩

def insert (set : UnitKindSet) (kind : UnitKind) : UnitKindSet :=
  ⟨fun other => other = kind || set.contains other⟩

def members (set : UnitKindSet) : List UnitKind :=
  UnitKind.all.filter set.contains

instance : BEq UnitKindSet where
  beq a b := a.members == b.members

end UnitKindSet

end Vhdl
