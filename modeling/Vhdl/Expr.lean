import Vhdl.Binary64
import Vhdl.Identifier
import Vhdl.Operator

/-! # Names, expressions and subtypes

Names hold expressions in their indexes and attributes, expressions hold names, and both meet in
ranges and subtype indications, so they form one family of trees.
-/

namespace Vhdl

inductive BaseSpecifier where
  | b | o | x | ub | uo | ux | sb | so | sx | d
  deriving DecidableEq, Repr

inductive Direction where
  | ascending
  | descending
  deriving DecidableEq, Repr

inductive TypeAttribute where
  | subtype
  | element
  deriving DecidableEq, Repr

inductive AbstractLiteral where
  | integer (value : Nat)
  | real (value : Binary64)
  deriving Repr

inductive Literal where
  | abstract (value : AbstractLiteral)
  | physical (value : AbstractLiteral) (unit : Identifier)
  | enumeration (ident : Identifier)
  | character (value : Char)
  | string (value : String)
  | bitString (length : Option Nat) (base : BaseSpecifier) (value : String)
  | null
  deriving Repr

inductive EnumLiteral where
  | ident (ident : Identifier)
  | character (value : Char)
  deriving Repr

mutual

inductive Name where
  | simple (ident : Identifier)
  | selected (base : Name) (ident : Identifier)
  | all (base : Name)
  | slice (base : Name) (range : DiscreteRange)
  | attribute (base : Name) (attr : Identifier) (arg : Option Expr)
  /-- A call or an indexed name, which look alike. -/
  | call (base : Name) (args : List Assoc)

inductive Expr where
  | binary (op : Operator) (lhs rhs : Expr)
  | unary (op : Operator) (operand : Expr)
  | conditional (whenTrue condition whenFalse : Expr)
  | aggregate (elements : List Element)
  | qualified (mark : TypeMark) (operand : Expr)
  | name (name : Name)
  | literal (value : Literal)
  | newQualified (mark : TypeMark) (operand : Expr)
  | newSubtype (indication : SubtypeIndication)
  | paren (inner : Expr)

/-- An actual for a formal, open where there is no actual. -/
inductive Assoc where
  | mk (formal : Option Name) (actual : Option Expr)

/-- A part of an aggregate. -/
inductive Element where
  | positional (value : Expr)
  | named (choices : List Choice) (value : Expr)

inductive Choice where
  | expr (value : Expr)
  | range (range : DiscreteRange)
  | others

inductive DiscreteRange where
  | discrete (mark : TypeMark) (range : Option Range)
  | range (range : Range)

inductive Range where
  | bounds (direction : Direction) (left right : Expr)
  | attribute (base : Name) (attr : Identifier) (arg : Option Expr)

inductive TypeMark where
  | mk (name : Name) (attr : Option TypeAttribute)

inductive Resolution where
  | unresolved
  | function (name : Name)
  | arrayElement (name : Name)

inductive SubtypeIndication where
  | mk (resolution : Resolution) (mark : TypeMark) (constraint : Option Constraint)

inductive Constraint where
  | range (range : Range)
  /-- An array constraint without ranges is open. -/
  | array (ranges : List DiscreteRange) (element : Option Constraint)
  | record (fields : List FieldConstraint)

inductive FieldConstraint where
  | mk (ident : Identifier) (constraint : Constraint)

end

/-- An index of an array type, either unbounded or with a range. -/
inductive ArrayIndex where
  | unbounded (mark : TypeMark)
  | discrete (range : DiscreteRange)

/-- An element of a record type. -/
structure RecordElement where
  ident : Identifier
  indication : SubtypeIndication

inductive InstantiatedUnit where
  | component (name : Name)
  | entity (name : Name) (architecture : Option Identifier)
  | configuration (name : Name)

def InstantiatedUnit.name : InstantiatedUnit → Name
  | .component name | .entity name _ | .configuration name => name

structure Instantiation where
  unit : InstantiatedUnit
  genericMap : Option (List Assoc) := none
  portMap : Option (List Assoc) := none

end Vhdl
