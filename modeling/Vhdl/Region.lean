import Vhdl.Statement.Concurrent
import Vhdl.Table

/-! # Declarative regions

A region records which names are declared in it and at which positions, and finds its labelled
instantiations, blocks and generate statements. Names and labels are normalized. Where a label is
used twice the first statement keeps it.
-/

namespace Vhdl

inductive DeclarationKind where
  | type
  | subtype
  | function
  | procedure
  | constant
  | signal
  | variable
  | sharedVariable
  | file
  | component
  | alias
  | attribute
  | packageInstance
  deriving DecidableEq, Repr

namespace DeclarationKind

def all : List DeclarationKind :=
  [.type, .subtype, .function, .procedure, .constant, .signal, .variable, .sharedVariable, .file,
    .component, .alias, .attribute, .packageInstance]

def name : DeclarationKind → String
  | .type => "type"
  | .subtype => "subtype"
  | .function => "function"
  | .procedure => "procedure"
  | .constant => "constant"
  | .signal => "signal"
  | .variable => "variable"
  | .sharedVariable => "shared_variable"
  | .file => "file"
  | .component => "component"
  | .alias => "alias"
  | .attribute => "attribute"
  | .packageInstance => "package_instance"

def ofObject (object : ObjectDecl) : DeclarationKind :=
  match object.kind with
  | .constant => .constant
  | .signal => .signal
  | .variable => if object.shared then .sharedVariable else .variable
  | .file => .file

end DeclarationKind

/-- An operator is declared under its quoted symbol. -/
def Designator.normalized : Designator → String
  | .ident name => name.normalized
  | .symbol operator => "\"" ++ operator.symbol ++ "\""

def SubprogramSpec.declared : SubprogramSpec → String × DeclarationKind
  | .procedure designator _ => (designator.normalized, .procedure)
  | .function _ designator _ _ => (designator.normalized, .function)

/-- The names that a declaration introduces. -/
def Decl.declared : Decl → List (String × DeclarationKind)
  | .object decl => decl.idents.map fun ident => (ident.normalized, .ofObject decl)
  | .type ident (.subtype _) _ => [(ident.normalized, .subtype)]
  | .type ident _ _ => [(ident.normalized, .type)]
  | .component ident _ _ _ => [(ident.normalized, .component)]
  | .attribute ident _ => [(ident.normalized, .attribute)]
  | .alias ident _ _ => [(ident.normalized, .alias)]
  | .subprogram spec _ => [spec.declared]
  | .subprogramBody spec _ _ _ => [spec.declared]
  | .packageInstance ident _ _ => [(ident.normalized, .packageInstance)]
  | .attributeSpec _ _ | .useClause _ | .configurationSpec _ => []

structure DeclaredItem where
  kind : DeclarationKind
  position : Nat
  deriving DecidableEq, Repr

structure Region where
  declarations : Table String (List DeclaredItem) := {}
  /-- The positions of the instantiation statements. -/
  instances : Table String Nat := {}
  /-- The regions of the alternatives of each generate statement. -/
  generates : Table String (List Region) := {}
  blocks : Table String Region := {}

namespace Region

def empty : Region := {}

def lookup (region : Region) (name : String) : List DeclaredItem :=
  region.declarations.getD name []

def isDeclared (region : Region) (name : String) : Bool :=
  region.declarations.contains name

def numNames (region : Region) : Nat :=
  region.declarations.size

def sortedTexts (texts : List String) : List String :=
  texts.mergeSort fun a b => decide (a ≤ b)

/-- The names with a declaration of the kind, sorted. -/
def namesOf (region : Region) (kind : DeclarationKind) : List String :=
  sortedTexts ((region.declarations.entries.filter fun entry =>
    entry.2.any (·.kind = kind)).map (·.1))

def instance? (region : Region) (label : String) : Option Nat :=
  region.instances.get? label

def instanceLabels (region : Region) : List String :=
  sortedTexts region.instances.keys

def generate? (region : Region) (label : String) : Option (List Region) :=
  region.generates.get? label

def block? (region : Region) (label : String) : Option Region :=
  region.blocks.get? label

def hasLabel (region : Region) (label : String) : Bool :=
  region.instances.contains label || region.generates.contains label ||
    region.blocks.contains label

def addName (region : Region) (name : String) (item : DeclaredItem) : Region :=
  { region with declarations := region.declarations.insert name (region.lookup name ++ [item]) }

def addDecl (region : Region) (decl : Decl) (position : Nat) : Region :=
  decl.declared.foldl (fun region (name, kind) => region.addName name ⟨kind, position⟩) region

/-- A region with declarations and no statements yet. -/
def ofDecls (decls : List Decl) : Region :=
  decls.zipIdx.foldl (fun region (decl, position) => region.addDecl decl position) empty

end Region

mutual

/-- Enter a statement that opens a region or instantiates a unit. -/
def ConcKind.enter (region : Region) (label : String) (position : Nat) : ConcKind → Region
  | .instantiation _ => { region with instances := region.instances.insert label position }
  | .block decls body =>
    { region with
      blocks := region.blocks.insert label (ConcStmt.enterAll (.ofDecls decls) 0 body) }
  | .forGenerate _ _ body =>
    { region with generates := region.generates.insert label [body.region] }
  | .ifGenerate branches none =>
    { region with generates := region.generates.insert label (IfBranch.regions branches) }
  | .ifGenerate branches (some body) =>
    { region with
      generates := region.generates.insert label (IfBranch.regions branches ++ [body.region]) }
  | .caseGenerate _ alternatives =>
    { region with generates := region.generates.insert label (CaseBranch.regions alternatives) }
  | .process _ _ | .assert _ | .assign _ _ | .call _ _ => region

/-- Enter the statements of a list, the first of which stands at `position`. -/
def ConcStmt.enterAll (region : Region) (position : Nat) : List ConcStmt → Region
  | [] => region
  | .mk none _ :: rest => ConcStmt.enterAll region (position + 1) rest
  | .mk (some label) kind :: rest =>
    if region.hasLabel label.normalized then ConcStmt.enterAll region (position + 1) rest
    else ConcStmt.enterAll (kind.enter region label.normalized position) (position + 1) rest

def GenerateBody.region : GenerateBody → Region
  | .mk _ decls body => ConcStmt.enterAll (.ofDecls (decls.getD [])) 0 body

def IfBranch.regions : List IfBranch → List Region
  | [] => []
  | .mk _ body :: rest => body.region :: IfBranch.regions rest

def CaseBranch.regions : List CaseBranch → List Region
  | [] => []
  | .mk _ body :: rest => body.region :: CaseBranch.regions rest

end

/-- The region of declarations followed by statements. -/
def Region.of (decls : List Decl) (statements : List ConcStmt) : Region :=
  ConcStmt.enterAll (.ofDecls decls) 0 statements

mutual

/-- The labels that are used again inside the regions that a statement opens. -/
def ConcKind.repeatedLabels : ConcKind → List String
  | .block _ body => ConcStmt.repeatedLabels [] body
  | .forGenerate _ _ body => body.repeatedLabels
  | .ifGenerate branches none => IfBranch.repeatedLabels branches
  | .ifGenerate branches (some body) => IfBranch.repeatedLabels branches ++ body.repeatedLabels
  | .caseGenerate _ alternatives => CaseBranch.repeatedLabels alternatives
  | _ => []

/-- The labels that are used again in a list of statements whose earlier labels are `seen`, each in
its turn. What a repeated statement holds does not count. -/
def ConcStmt.repeatedLabels (seen : List String) : List ConcStmt → List String
  | [] => []
  | .mk none _ :: rest => ConcStmt.repeatedLabels seen rest
  | .mk (some label) kind :: rest =>
    if !kind.requiresLabel then ConcStmt.repeatedLabels seen rest
    else if seen.contains label.normalized then
      label.normalized :: ConcStmt.repeatedLabels seen rest
    else kind.repeatedLabels ++ ConcStmt.repeatedLabels (label.normalized :: seen) rest

def GenerateBody.repeatedLabels : GenerateBody → List String
  | .mk _ _ body => ConcStmt.repeatedLabels [] body

def IfBranch.repeatedLabels : List IfBranch → List String
  | [] => []
  | .mk _ body :: rest => body.repeatedLabels ++ IfBranch.repeatedLabels rest

def CaseBranch.repeatedLabels : List CaseBranch → List String
  | [] => []
  | .mk _ body :: rest => body.repeatedLabels ++ CaseBranch.repeatedLabels rest

end

end Vhdl
