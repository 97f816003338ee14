/-! # Operators

Operators fall into classes of rising precedence. A sign or a condition operator in front of an
operand binds less tightly than the other unary operators.
-/

namespace Vhdl

inductive Operator where
  | and | or | nand | nor | xor | xnor
  | abs | not
  | minus | plus
  | condition
  | eq | ne | lt | le | gt | ge
  | matchEq | matchNe | matchLt | matchLe | matchGt | matchGe
  | sll | srl | sla | sra | rol | ror
  | concat
  | times | div | mod | rem
  | pow
  deriving DecidableEq, Repr

/-- The classes from the loosest to the tightest. -/
inductive OperatorClass where
  | condition
  | logical
  | relational
  | matching
  | shift
  | adding
  | sign
  | multiplying
  | miscellaneous
  deriving DecidableEq, Repr

namespace OperatorClass

def rank : OperatorClass → Nat
  | .condition => 0
  | .logical => 1
  | .relational => 2
  | .matching => 3
  | .shift => 4
  | .adding => 5
  | .sign => 6
  | .multiplying => 7
  | .miscellaneous => 8

def name : OperatorClass → String
  | .condition => "Condition"
  | .logical => "Logical"
  | .relational => "Relational"
  | .matching => "Matching"
  | .shift => "Shift"
  | .adding => "Adding"
  | .sign => "Sign"
  | .multiplying => "Multiplying"
  | .miscellaneous => "Miscellaneous"

instance : LT OperatorClass := ⟨fun a b => a.rank < b.rank⟩
instance : LE OperatorClass := ⟨fun a b => a.rank ≤ b.rank⟩
instance (a b : OperatorClass) : Decidable (a < b) := Nat.decLt a.rank b.rank
instance (a b : OperatorClass) : Decidable (a ≤ b) := Nat.decLe a.rank b.rank

end OperatorClass

namespace Operator

def all : List Operator :=
  [.and, .or, .nand, .nor, .xor, .xnor, .abs, .not, .minus, .plus, .condition,
    .eq, .ne, .lt, .le, .gt, .ge, .matchEq, .matchNe, .matchLt, .matchLe, .matchGt, .matchGe,
    .sll, .srl, .sla, .sra, .rol, .ror, .concat, .times, .div, .mod, .rem, .pow]

def symbol : Operator → String
  | .and => "and"
  | .or => "or"
  | .nand => "nand"
  | .nor => "nor"
  | .xor => "xor"
  | .xnor => "xnor"
  | .abs => "abs"
  | .not => "not"
  | .minus => "-"
  | .plus => "+"
  | .condition => "??"
  | .eq => "="
  | .ne => "/="
  | .lt => "<"
  | .le => "<="
  | .gt => ">"
  | .ge => ">="
  | .matchEq => "?="
  | .matchNe => "?/="
  | .matchLt => "?<"
  | .matchLe => "?<="
  | .matchGt => "?>"
  | .matchGe => "?>="
  | .sll => "sll"
  | .srl => "srl"
  | .sla => "sla"
  | .sra => "sra"
  | .rol => "rol"
  | .ror => "ror"
  | .concat => "&"
  | .times => "*"
  | .div => "/"
  | .mod => "mod"
  | .rem => "rem"
  | .pow => "**"

def ofSymbol? (text : String) : Option Operator :=
  all.find? (·.symbol = text)

def isUnary : Operator → Bool
  | .abs | .not | .minus | .plus | .condition
  | .and | .or | .nand | .nor | .xor | .xnor => true
  | _ => false

def isBinary : Operator → Bool
  | .abs | .not | .condition => false
  | _ => true

def operatorClass : Operator → OperatorClass
  | .condition => .condition
  | .and | .or | .nand | .nor | .xor | .xnor => .logical
  | .eq | .ne | .lt | .le | .gt | .ge => .relational
  | .matchEq | .matchNe | .matchLt | .matchLe | .matchGt | .matchGe => .matching
  | .sll | .srl | .sla | .sra | .rol | .ror => .shift
  | .plus | .minus | .concat => .adding
  | .times | .div | .mod | .rem => .multiplying
  | .pow | .abs | .not => .miscellaneous

/-- The class of an operator that stands in front of its operand. -/
def unaryClass : Operator → OperatorClass
  | .plus | .minus => .sign
  | .condition => .condition
  | _ => .miscellaneous

def isSign : Operator → Bool
  | .plus | .minus => true
  | _ => false

end Operator

end Vhdl
