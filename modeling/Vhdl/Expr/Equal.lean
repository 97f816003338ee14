import Vhdl.Expr

/-! # Equality of names and expressions

Two trees are equal when they have the same shape, equal identifiers and equal values. As a NaN
differs from itself, equality is not reflexive.
-/

namespace Vhdl

instance : BEq AbstractLiteral where
  beq
    | .integer a, .integer b => a == b
    | .real a, .real b => a == b
    | _, _ => false

instance : BEq Literal where
  beq
    | .abstract a, .abstract b => a == b
    | .physical a u, .physical b v => a == b && u == v
    | .enumeration a, .enumeration b => a == b
    | .character a, .character b => a == b
    | .string a, .string b => a == b
    | .bitString m base s, .bitString n base' t => m == n && base == base' && s == t
    | .null, .null => true
    | _, _ => false

instance : BEq EnumLiteral where
  beq
    | .ident a, .ident b => a == b
    | .character a, .character b => a == b
    | _, _ => false

mutual

def Name.beq : Name → Name → Bool
  | .simple a, .simple b => a == b
  | .selected p a, .selected q b => p.beq q && a == b
  | .all p, .all q => p.beq q
  | .slice p r, .slice q s => p.beq q && r.beq s
  | .attribute p a x, .attribute q b y => p.beq q && a == b && Expr.beqOption x y
  | .call p as, .call q bs => p.beq q && Assoc.beqList as bs
  | _, _ => false

def Name.beqOption : Option Name → Option Name → Bool
  | none, none => true
  | some a, some b => a.beq b
  | _, _ => false

def Expr.beq : Expr → Expr → Bool
  | .binary op a b, .binary op' a' b' => op == op' && a.beq a' && b.beq b'
  | .unary op a, .unary op' a' => op == op' && a.beq a'
  | .conditional a b c, .conditional a' b' c' => a.beq a' && b.beq b' && c.beq c'
  | .aggregate as, .aggregate bs => Element.beqList as bs
  | .qualified m a, .qualified n b => m.beq n && a.beq b
  | .name a, .name b => a.beq b
  | .literal a, .literal b => a == b
  | .newQualified m a, .newQualified n b => m.beq n && a.beq b
  | .newSubtype a, .newSubtype b => a.beq b
  | .paren a, .paren b => a.beq b
  | _, _ => false

def Expr.beqOption : Option Expr → Option Expr → Bool
  | none, none => true
  | some a, some b => a.beq b
  | _, _ => false

def Assoc.beq : Assoc → Assoc → Bool
  | .mk f a, .mk g b => Name.beqOption f g && Expr.beqOption a b

def Assoc.beqList : List Assoc → List Assoc → Bool
  | [], [] => true
  | a :: as, b :: bs => a.beq b && Assoc.beqList as bs
  | _, _ => false

def Element.beq : Element → Element → Bool
  | .positional a, .positional b => a.beq b
  | .named cs a, .named ds b => Choice.beqList cs ds && a.beq b
  | _, _ => false

def Element.beqList : List Element → List Element → Bool
  | [], [] => true
  | a :: as, b :: bs => a.beq b && Element.beqList as bs
  | _, _ => false

def Choice.beq : Choice → Choice → Bool
  | .expr a, .expr b => a.beq b
  | .range a, .range b => a.beq b
  | .others, .others => true
  | _, _ => false

def Choice.beqList : List Choice → List Choice → Bool
  | [], [] => true
  | a :: as, b :: bs => a.beq b && Choice.beqList as bs
  | _, _ => false

def DiscreteRange.beq : DiscreteRange → DiscreteRange → Bool
  | .discrete m r, .discrete n s => m.beq n && Range.beqOption r s
  | .range a, .range b => a.beq b
  | _, _ => false

def DiscreteRange.beqList : List DiscreteRange → List DiscreteRange → Bool
  | [], [] => true
  | a :: as, b :: bs => a.beq b && DiscreteRange.beqList as bs
  | _, _ => false

def Range.beq : Range → Range → Bool
  | .bounds d a b, .bounds e a' b' => d == e && a.beq a' && b.beq b'
  | .attribute p a x, .attribute q b y => p.beq q && a == b && Expr.beqOption x y
  | _, _ => false

def Range.beqOption : Option Range → Option Range → Bool
  | none, none => true
  | some a, some b => a.beq b
  | _, _ => false

def TypeMark.beq : TypeMark → TypeMark → Bool
  | .mk a x, .mk b y => a.beq b && x == y

def Resolution.beq : Resolution → Resolution → Bool
  | .unresolved, .unresolved => true
  | .function a, .function b => a.beq b
  | .arrayElement a, .arrayElement b => a.beq b
  | _, _ => false

def SubtypeIndication.beq : SubtypeIndication → SubtypeIndication → Bool
  | .mk r m c, .mk s n d => r.beq s && m.beq n && Constraint.beqOption c d

def Constraint.beq : Constraint → Constraint → Bool
  | .range a, .range b => a.beq b
  | .array as c, .array bs d => DiscreteRange.beqList as bs && Constraint.beqOption c d
  | .record as, .record bs => FieldConstraint.beqList as bs
  | _, _ => false

def Constraint.beqOption : Option Constraint → Option Constraint → Bool
  | none, none => true
  | some a, some b => a.beq b
  | _, _ => false

def FieldConstraint.beq : FieldConstraint → FieldConstraint → Bool
  | .mk a c, .mk b d => a == b && c.beq d

def FieldConstraint.beqList : List FieldConstraint → List FieldConstraint → Bool
  | [], [] => true
  | a :: as, b :: bs => a.beq b && FieldConstraint.beqList as bs
  | _, _ => false

end

instance : BEq Name := ⟨Name.beq⟩
instance : BEq Expr := ⟨Expr.beq⟩
instance : BEq Assoc := ⟨Assoc.beq⟩
instance : BEq Element := ⟨Element.beq⟩
instance : BEq Choice := ⟨Choice.beq⟩
instance : BEq DiscreteRange := ⟨DiscreteRange.beq⟩
instance : BEq Range := ⟨Range.beq⟩
instance : BEq TypeMark := ⟨TypeMark.beq⟩
instance : BEq Resolution := ⟨Resolution.beq⟩
instance : BEq SubtypeIndication := ⟨SubtypeIndication.beq⟩
instance : BEq Constraint := ⟨Constraint.beq⟩

deriving instance BEq for ArrayIndex, RecordElement, InstantiatedUnit, Instantiation

end Vhdl
