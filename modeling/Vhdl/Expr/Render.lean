import Vhdl.Expr

/-! # Names and expressions as text

An operand is put in parentheses where its own operator binds too loosely, and on the right of an
operator also where both bind alike. A unary operator always takes a binary operand in parentheses.
-/

namespace Vhdl

namespace BaseSpecifier

def all : List BaseSpecifier := [.b, .o, .x, .ub, .uo, .ux, .sb, .so, .sx, .d]

def render : BaseSpecifier → String
  | .b => "b"
  | .o => "o"
  | .x => "x"
  | .ub => "ub"
  | .uo => "uo"
  | .ux => "ux"
  | .sb => "sb"
  | .so => "so"
  | .sx => "sx"
  | .d => "d"

def ofName? (text : String) : Option BaseSpecifier :=
  all.find? (·.render = text)

end BaseSpecifier

def Direction.render : Direction → String
  | .ascending => "to"
  | .descending => "downto"

def TypeAttribute.render : TypeAttribute → String
  | .subtype => "subtype"
  | .element => "element"

def AbstractLiteral.render : AbstractLiteral → String
  | .integer value => Nat.repr value
  | .real value => value.render

namespace Literal

/-- A quote inside a string is written twice. -/
def doubleQuotes (text : String) : String :=
  String.ofList (text.toList.flatMap fun c => if c = '"' then ['"', '"'] else [c])

def render : Literal → String
  | .abstract value => value.render
  | .physical value unit => value.render ++ " " ++ unit.text
  | .enumeration ident => ident.text
  | .character value => "'" ++ String.singleton value ++ "'"
  | .string value => "\"" ++ doubleQuotes value ++ "\""
  | .bitString length base value =>
    (match length with
      | some n => Nat.repr n
      | none => "") ++ base.render ++ "\"" ++ value ++ "\""
  | .null => "null"

end Literal

def EnumLiteral.render : EnumLiteral → String
  | .ident name => name.text
  | .character value => "'" ++ String.singleton value ++ "'"

def parenthesize (text : String) : String :=
  "(" ++ text ++ ")"

def commaSeparated (texts : List String) : String :=
  String.intercalate ", " texts

namespace Expr

/-- Does the left operand of `op` need parentheses? -/
def wrapsLeft (op : Operator) : Expr → Bool
  | .binary inner _ _ => inner.operatorClass < op.operatorClass
  | .unary inner _ => inner.unaryClass < op.operatorClass
  | .conditional _ _ _ => true
  | _ => false

/-- Does the right operand of `op` need parentheses? -/
def wrapsRight (op : Operator) : Expr → Bool
  | .binary inner _ _ => inner.operatorClass ≤ op.operatorClass
  | .conditional _ _ _ => true
  | _ => false

/-- Does the operand of the unary `op` need parentheses? -/
def wrapsOperand (op : Operator) : Expr → Bool
  | .binary _ _ _ | .conditional _ _ _ => true
  | .unary inner _ => inner.unaryClass = op.unaryClass
  | _ => false

def isAggregate : Expr → Bool
  | .aggregate _ => true
  | _ => false

def wrapIf (wrap : Bool) (text : String) : String :=
  if wrap then parenthesize text else text

/-- A sign stands directly before its operand. -/
def unaryText (op : Operator) : String :=
  if op.isSign then op.symbol else op.symbol ++ " "

end Expr

mutual

def Name.render : Name → String
  | .simple ident => ident.text
  | .selected base ident => base.render ++ "." ++ ident.text
  | .all base => base.render ++ ".all"
  | .slice base range => base.render ++ parenthesize range.render
  | .attribute base attr none => base.render ++ "'" ++ attr.text
  | .attribute base attr (some arg) => base.render ++ "'" ++ attr.text ++ parenthesize arg.render
  | .call base [] => base.render
  | .call base args => base.render ++ parenthesize (commaSeparated (Assoc.renderAll args))

def Expr.render : Expr → String
  | .binary op lhs rhs =>
    Expr.wrapIf (lhs.wrapsLeft op) lhs.render ++ " " ++ op.symbol ++ " " ++
      Expr.wrapIf (rhs.wrapsRight op) rhs.render
  | .unary op operand =>
    Expr.unaryText op ++ Expr.wrapIf (operand.wrapsOperand op) operand.render
  | .conditional whenTrue condition whenFalse =>
    whenTrue.render ++ " when " ++ condition.render ++ " else " ++ whenFalse.render
  | .aggregate elements => parenthesize (commaSeparated (Element.renderAll elements))
  | .qualified mark operand =>
    mark.render ++ "'" ++ Expr.wrapIf (!operand.isAggregate) operand.render
  | .name name => name.render
  | .literal value => value.render
  | .newQualified mark operand =>
    "new " ++ mark.render ++ "'" ++ Expr.wrapIf (!operand.isAggregate) operand.render
  | .newSubtype indication => "new " ++ indication.render
  | .paren inner => parenthesize inner.render

def Assoc.render : Assoc → String
  | .mk none none => "open"
  | .mk none (some actual) => actual.render
  | .mk (some formal) none => formal.render ++ " => open"
  | .mk (some formal) (some actual) => formal.render ++ " => " ++ actual.render

def Assoc.renderAll : List Assoc → List String
  | [] => []
  | assoc :: rest => assoc.render :: Assoc.renderAll rest

def Element.render : Element → String
  | .positional value => value.render
  | .named choices value =>
    String.intercalate " | " (Choice.renderAll choices) ++ " => " ++ value.render

def Element.renderAll : List Element → List String
  | [] => []
  | element :: rest => element.render :: Element.renderAll rest

def Choice.render : Choice → String
  | .expr value => value.render
  | .range range => range.render
  | .others => "others"

def Choice.renderAll : List Choice → List String
  | [] => []
  | choice :: rest => choice.render :: Choice.renderAll rest

def DiscreteRange.render : DiscreteRange → String
  | .discrete mark none => mark.render
  | .discrete mark (some range) => mark.render ++ " range " ++ range.render
  | .range range => range.render

def DiscreteRange.renderAll : List DiscreteRange → List String
  | [] => []
  | range :: rest => range.render :: DiscreteRange.renderAll rest

def Range.render : Range → String
  | .bounds direction left right =>
    left.render ++ " " ++ direction.render ++ " " ++ right.render
  | .attribute base attr none => base.render ++ "'" ++ attr.text
  | .attribute base attr (some arg) => base.render ++ "'" ++ attr.text ++ parenthesize arg.render

def TypeMark.render : TypeMark → String
  | .mk name none => name.render
  | .mk name (some attr) => name.render ++ "'" ++ attr.render

def Resolution.render : Resolution → String
  | .unresolved => ""
  | .function name => name.render
  | .arrayElement name => parenthesize name.render

def SubtypeIndication.render : SubtypeIndication → String
  | .mk resolution mark constraint =>
    (match resolution with
      | .unresolved => ""
      | .function name => name.render ++ " "
      | .arrayElement name => parenthesize name.render ++ " ") ++ mark.render ++
    (match constraint with
      | none => ""
      | some constraint => constraint.render)

def Constraint.render : Constraint → String
  | .range range => " range " ++ range.render
  | .array ranges element =>
    parenthesize
      (if ranges.isEmpty then "open" else commaSeparated (DiscreteRange.renderAll ranges)) ++
    (match element with
      | none => ""
      | some element => element.render)
  | .record fields => parenthesize (commaSeparated (FieldConstraint.renderAll fields))

def FieldConstraint.render : FieldConstraint → String
  | .mk ident constraint => ident.text ++ constraint.render

def FieldConstraint.renderAll : List FieldConstraint → List String
  | [] => []
  | field :: rest => field.render :: FieldConstraint.renderAll rest

end

def ArrayIndex.render : ArrayIndex → String
  | .unbounded mark => mark.render ++ " range <>"
  | .discrete range => range.render

def RecordElement.render (element : RecordElement) : String :=
  element.ident.text ++ " : " ++ element.indication.render

def InstantiatedUnit.render : InstantiatedUnit → String
  | .component name => "component " ++ name.render
  | .entity name none => "entity " ++ name.render
  | .entity name (some architecture) =>
    "entity " ++ name.render ++ parenthesize architecture.text
  | .configuration name => "configuration " ++ name.render

namespace Instantiation

/-- A map is written even when it associates nothing. -/
def renderMap (keyword : String) : Option (List Assoc) → String
  | none => ""
  | some assocs =>
    " " ++ keyword ++ " map " ++ parenthesize (commaSeparated (assocs.map Assoc.render))

def render (statement : Instantiation) : String :=
  statement.unit.render ++ renderMap "generic" statement.genericMap ++
    renderMap "port" statement.portMap

end Instantiation

end Vhdl
