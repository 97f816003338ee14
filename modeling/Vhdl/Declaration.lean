import Vhdl.Object
import Vhdl.Reference
import Vhdl.Statement.Sequential

/-! # Declarations

Types, objects, components, subprograms and the other items of a declarative part.
-/

namespace Vhdl

/-- A subprogram is named by an identifier or by the operator it overloads. -/
inductive Designator where
  | ident (ident : Identifier)
  | symbol (operator : Operator)
  deriving BEq

mutual

inductive SubprogramSpec where
  | procedure (designator : Designator) (parameters : List Interface)
  | function (isPure : Bool) (designator : Designator) (parameters : List Interface)
      (returns : TypeMark)

/-- An item of an interface list. -/
inductive Interface where
  | object (object : ObjectDecl)
  | type (ident : Identifier)
  | subprogram (spec : SubprogramSpec)
  | package (ident : Identifier) (name : Name)

end

mutual

def SubprogramSpec.beq : SubprogramSpec → SubprogramSpec → Bool
  | .procedure d as, .procedure e bs => d == e && Interface.beqList as bs
  | .function p d as r, .function q e bs s =>
    p == q && d == e && Interface.beqList as bs && r == s
  | _, _ => false

def Interface.beq : Interface → Interface → Bool
  | .object a, .object b => a == b
  | .type a, .type b => a == b
  | .subprogram a, .subprogram b => a.beq b
  | .package a n, .package b m => a == b && n == m
  | _, _ => false

def Interface.beqList : List Interface → List Interface → Bool
  | [], [] => true
  | a :: as, b :: bs => a.beq b && Interface.beqList as bs
  | _, _ => false

end

instance : BEq SubprogramSpec := ⟨SubprogramSpec.beq⟩
instance : BEq Interface := ⟨Interface.beq⟩

/-- A unit of a physical type as a multiple of another one. -/
structure SecondaryUnit where
  ident : Identifier
  factor : AbstractLiteral
  base : Identifier
  deriving BEq

mutual

inductive TypeDef where
  | enumeration (literals : List EnumLiteral)
  | integer (range : Range)
  | real (range : Range)
  | physical (range : Range) (primary : Identifier) (secondary : List SecondaryUnit)
  | array (indexes : List ArrayIndex) (element : SubtypeIndication)
  | record (elements : List RecordElement)
  | access (indication : SubtypeIndication)
  | incomplete
  | file (mark : TypeMark)
  | protectedType (specs : List SubprogramSpec)
  | protectedBody (decls : List Decl)
  | subtype (indication : SubtypeIndication)

inductive Decl where
  | object (object : ObjectDecl)
  | type (ident : Identifier) (definition : TypeDef) (doc : Option String)
  | component (ident : Identifier) (generics ports : List Interface) (doc : Option String)
  | attribute (ident : Identifier) (mark : TypeMark)
  | attributeSpec (ident : Identifier) (value : Expr)
  | alias (ident : Identifier) (indication : Option SubtypeIndication) (name : Name)
  | subprogram (spec : SubprogramSpec) (doc : Option String)
  | subprogramBody (spec : SubprogramSpec) (decls : List Decl) (body : List SeqStmt)
      (doc : Option String)
  | useClause (names : List (Linked Name))
  | packageInstance (ident : Identifier) (name : Name) (genericMap : Option (List Assoc))
  | configurationSpec (component : Name)

end

mutual

def TypeDef.beq : TypeDef → TypeDef → Bool
  | .enumeration as, .enumeration bs => as == bs
  | .integer a, .integer b => a == b
  | .real a, .real b => a == b
  | .physical r p as, .physical s q bs => r == s && p == q && as == bs
  | .array as e, .array bs f => as == bs && e == f
  | .record as, .record bs => as == bs
  | .access a, .access b => a == b
  | .incomplete, .incomplete => true
  | .file a, .file b => a == b
  | .protectedType as, .protectedType bs => as == bs
  | .protectedBody as, .protectedBody bs => Decl.beqList as bs
  | .subtype a, .subtype b => a == b
  | _, _ => false

def Decl.beq : Decl → Decl → Bool
  | .object a, .object b => a == b
  | .type a s x, .type b t y => a == b && s.beq t && x == y
  | .component a g p x, .component b h q y => a == b && g == h && p == q && x == y
  | .attribute a m, .attribute b n => a == b && m == n
  | .attributeSpec a e, .attributeSpec b f => a == b && e == f
  | .alias a s n, .alias b t m => a == b && s == t && n == m
  | .subprogram a x, .subprogram b y => a == b && x == y
  | .subprogramBody s as p x, .subprogramBody t bs q y =>
    s == t && Decl.beqList as bs && p == q && x == y
  | .useClause as, .useClause bs => as == bs
  | .packageInstance a n as, .packageInstance b m bs => a == b && n == m && as == bs
  | .configurationSpec a, .configurationSpec b => a == b
  | _, _ => false

def Decl.beqList : List Decl → List Decl → Bool
  | [], [] => true
  | a :: as, b :: bs => a.beq b && Decl.beqList as bs
  | _, _ => false

end

instance : BEq TypeDef := ⟨TypeDef.beq⟩
instance : BEq Decl := ⟨Decl.beq⟩

namespace TypeDef

/-! The class of a subtype depends on its type mark, so a subtype definition is in none. -/

def isScalar : TypeDef → Bool
  | .enumeration _ | .integer _ | .real _ | .physical _ _ _ => true
  | _ => false

def isComposite : TypeDef → Bool
  | .array _ _ | .record _ => true
  | _ => false

def isDiscrete : TypeDef → Bool
  | .enumeration _ | .integer _ => true
  | _ => false

def isNumeric : TypeDef → Bool
  | .integer _ | .real _ | .physical _ _ _ => true
  | _ => false

end TypeDef

namespace Decl

/-- The names of a use clause. -/
def useNames : Decl → List (Linked Name)
  | .useClause names => names
  | _ => []

def isDeferredConstant : Decl → Bool
  | .object decl => decl.isDeferred
  | _ => false

/-- How a component is displayed. -/
def renderComponent (ident : Identifier) : String :=
  "component " ++ ident.text

end Decl

end Vhdl
