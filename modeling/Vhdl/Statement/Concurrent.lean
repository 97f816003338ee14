import Vhdl.Declaration

/-! # Concurrent statements

The statements of architectures, entities, blocks and generate bodies, each with an optional label.
-/

namespace Vhdl

mutual

inductive ConcStmt where
  | mk (label : Option Identifier) (kind : ConcKind)

inductive ConcKind where
  | block (decls : List Decl) (body : List ConcStmt)
  | process (body : List SeqStmt) (doc : Option String)
  | assert (condition : Expr)
  | assign (target : Name) (value : Expr)
  | call (name : Name) (args : List Assoc)
  | instantiation (statement : Instantiation)
  | forGenerate (ident : Identifier) (range : DiscreteRange) (body : GenerateBody)
  | ifGenerate (branches : List IfBranch) (otherwise : Option GenerateBody)
  | caseGenerate (selector : Expr) (alternatives : List CaseBranch)

inductive GenerateBody where
  | mk (label : Option Identifier) (decls : Option (List Decl)) (body : List ConcStmt)

inductive IfBranch where
  | mk (condition : Expr) (body : GenerateBody)

inductive CaseBranch where
  | mk (choices : List Choice) (body : GenerateBody)

end

namespace ConcStmt

def label : ConcStmt → Option Identifier
  | .mk label _ => label

def kind : ConcStmt → ConcKind
  | .mk _ kind => kind

end ConcStmt

/-- Blocks, instantiations and generate statements may only appear with a label. -/
def ConcKind.requiresLabel : ConcKind → Bool
  | .block _ _ | .instantiation _ | .forGenerate _ _ _ | .ifGenerate _ _ | .caseGenerate _ _ => true
  | _ => false

mutual

def ConcStmt.beq : ConcStmt → ConcStmt → Bool
  | .mk l a, .mk m b => l == m && a.beq b

def ConcStmt.beqList : List ConcStmt → List ConcStmt → Bool
  | [], [] => true
  | a :: as, b :: bs => a.beq b && ConcStmt.beqList as bs
  | _, _ => false

def ConcKind.beq : ConcKind → ConcKind → Bool
  | .block ds as, .block es bs => ds == es && ConcStmt.beqList as bs
  | .process as x, .process bs y => as == bs && x == y
  | .assert a, .assert b => a == b
  | .assign n a, .assign m b => n == m && a == b
  | .call n as, .call m bs => n == m && as == bs
  | .instantiation a, .instantiation b => a == b
  | .forGenerate i r a, .forGenerate j s b => i == j && r == s && a.beq b
  | .ifGenerate as none, .ifGenerate bs none => IfBranch.beqList as bs
  | .ifGenerate as (some x), .ifGenerate bs (some y) => IfBranch.beqList as bs && x.beq y
  | .caseGenerate e as, .caseGenerate f bs => e == f && CaseBranch.beqList as bs
  | _, _ => false

def GenerateBody.beq : GenerateBody → GenerateBody → Bool
  | .mk l ds as, .mk m es bs => l == m && ds == es && ConcStmt.beqList as bs

def IfBranch.beq : IfBranch → IfBranch → Bool
  | .mk c a, .mk d b => c == d && a.beq b

def IfBranch.beqList : List IfBranch → List IfBranch → Bool
  | [], [] => true
  | a :: as, b :: bs => a.beq b && IfBranch.beqList as bs
  | _, _ => false

def CaseBranch.beq : CaseBranch → CaseBranch → Bool
  | .mk cs a, .mk ds b => cs == ds && a.beq b

def CaseBranch.beqList : List CaseBranch → List CaseBranch → Bool
  | [], [] => true
  | a :: as, b :: bs => a.beq b && CaseBranch.beqList as bs
  | _, _ => false

end

instance : BEq ConcStmt := ⟨ConcStmt.beq⟩

end Vhdl
