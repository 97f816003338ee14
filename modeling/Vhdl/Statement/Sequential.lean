import Vhdl.Expr.Equal

/-! # Sequential statements

The statements of processes and subprogram bodies, each with an optional label.
-/

namespace Vhdl

/-- What repeats a loop. -/
inductive Iteration where
  | whileTrue (condition : Expr)
  | forEach (ident : Identifier) (range : DiscreteRange)
  deriving BEq

mutual

inductive SeqStmt where
  | mk (label : Option Identifier) (kind : SeqKind)

inductive SeqKind where
  | wait
  | assert (condition : Expr)
  | report (message : Expr)
  | assignVariable (target : Name) (value : Expr)
  | assignSignal (target : Name) (value : Expr)
  | call (name : Name) (args : List Assoc)
  | conditional (branches : List SeqBranch) (otherwise : Option (List SeqStmt))
  | select (selector : Expr) (alternatives : List SeqAlternative)
  | loop (iteration : Option Iteration) (body : List SeqStmt)
  | next (label : Option Identifier) (condition : Option Expr)
  | exit (label : Option Identifier) (condition : Option Expr)
  | returnValue (value : Option Expr)
  | null

inductive SeqBranch where
  | mk (condition : Expr) (body : List SeqStmt)

inductive SeqAlternative where
  | mk (choices : List Choice) (body : List SeqStmt)

end

def SeqStmt.label : SeqStmt → Option Identifier
  | .mk label _ => label

mutual

def SeqStmt.beq : SeqStmt → SeqStmt → Bool
  | .mk l a, .mk m b => l == m && a.beq b

def SeqStmt.beqList : List SeqStmt → List SeqStmt → Bool
  | [], [] => true
  | a :: as, b :: bs => a.beq b && SeqStmt.beqList as bs
  | _, _ => false

def SeqKind.beq : SeqKind → SeqKind → Bool
  | .wait, .wait => true
  | .assert a, .assert b => a == b
  | .report a, .report b => a == b
  | .assignVariable n a, .assignVariable m b => n == m && a == b
  | .assignSignal n a, .assignSignal m b => n == m && a == b
  | .call n as, .call m bs => n == m && as == bs
  | .conditional as none, .conditional bs none => SeqBranch.beqList as bs
  | .conditional as (some x), .conditional bs (some y) =>
    SeqBranch.beqList as bs && SeqStmt.beqList x y
  | .select e as, .select f bs => e == f && SeqAlternative.beqList as bs
  | .loop i as, .loop j bs => i == j && SeqStmt.beqList as bs
  | .next l a, .next m b => l == m && a == b
  | .exit l a, .exit m b => l == m && a == b
  | .returnValue a, .returnValue b => a == b
  | .null, .null => true
  | _, _ => false

def SeqBranch.beq : SeqBranch → SeqBranch → Bool
  | .mk c as, .mk d bs => c == d && SeqStmt.beqList as bs

def SeqBranch.beqList : List SeqBranch → List SeqBranch → Bool
  | [], [] => true
  | a :: as, b :: bs => a.beq b && SeqBranch.beqList as bs
  | _, _ => false

def SeqAlternative.beq : SeqAlternative → SeqAlternative → Bool
  | .mk cs as, .mk ds bs => cs == ds && SeqStmt.beqList as bs

def SeqAlternative.beqList : List SeqAlternative → List SeqAlternative → Bool
  | [], [] => true
  | a :: as, b :: bs => a.beq b && SeqAlternative.beqList as bs
  | _, _ => false

end

instance : BEq SeqStmt := ⟨SeqStmt.beq⟩

end Vhdl
