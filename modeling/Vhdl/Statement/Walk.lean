import Vhdl.Statement.Concurrent

/-! # Walks over statements

A search meets the statements of a list and what is inside them from left to right, outer statements
first. It may skip what is inside a statement or end with success. On its way it keeps the labels
around the statement as a stack.
-/

namespace Vhdl

/-- A statement as a walk meets it. The scope lists the labels of the enclosing blocks, generate
statements and generate alternatives, outermost first. -/
inductive Visit where
  | concurrent (scope : List Identifier) (statement : ConcStmt)
  | sequential (statement : SeqStmt)

/-- What a search decides at a visit. -/
inductive Verdict where
  | descend
  | skip
  | found
  deriving DecidableEq, Repr

/-- A search under way, with the labels around the statement that comes next, outermost first. -/
structure Cursor (σ : Type) where
  state : σ
  scope : List Identifier

namespace Cursor

variable {σ : Type}

/-- Go into a statement or an alternative, and put its label on the stack. -/
def enter (cursor : Cursor σ) : Option Identifier → Cursor σ
  | some label => { cursor with scope := cursor.scope ++ [label] }
  | none => cursor

/-- Leave a statement or an alternative, and take its label from the stack. -/
def leave (cursor : Cursor σ) : Option Identifier → Cursor σ
  | some _ => { cursor with scope := cursor.scope.dropLast }
  | none => cursor

end Cursor

/-- A search from a cursor to the next, which tells whether it ended with success. -/
def Scan (σ : Type) : Type :=
  Cursor σ → Cursor σ × Bool

namespace Scan

variable {σ : Type}

def nothing : Scan σ := fun cursor => (cursor, false)

/-- Search in the second place unless the search in the first one ended with success. -/
def orElse (first second : Scan σ) : Scan σ := fun cursor =>
  match first cursor with
  | (cursor, true) => (cursor, true)
  | (cursor, false) => second cursor

/-- Search inside a statement or an alternative. However the search ends, it is left again. -/
def within (label : Option Identifier) (inside : Scan σ) : Scan σ := fun cursor =>
  match inside (cursor.enter label) with
  | (cursor, found) => (cursor.leave label, found)

/-- Meet a statement, and go on below it unless the judgement is otherwise. -/
def meet (judge : σ → Visit → σ × Verdict) (visit : List Identifier → Visit) (below : Scan σ) :
    Scan σ := fun cursor =>
  match judge cursor.state (visit cursor.scope) with
  | (state, .found) => ({ cursor with state }, true)
  | (state, .skip) => ({ cursor with state }, false)
  | (state, .descend) => below { cursor with state }

end Scan

section Search

variable {σ : Type} (judge : σ → Visit → σ × Verdict)

mutual

def SeqStmt.search : SeqStmt → Scan σ
  | .mk label kind => .meet judge (fun _ => .sequential (.mk label kind)) kind.search

def SeqStmt.searchAll : List SeqStmt → Scan σ
  | [] => .nothing
  | statement :: rest => statement.search.orElse (SeqStmt.searchAll rest)

/-- Search inside a sequential statement. -/
def SeqKind.search : SeqKind → Scan σ
  | .conditional branches none => SeqBranch.searchAll branches
  | .conditional branches (some body) =>
    (SeqBranch.searchAll branches).orElse (SeqStmt.searchAll body)
  | .select _ alternatives => SeqAlternative.searchAll alternatives
  | .loop _ body => SeqStmt.searchAll body
  | _ => .nothing

def SeqBranch.searchAll : List SeqBranch → Scan σ
  | [] => .nothing
  | .mk _ body :: rest => (SeqStmt.searchAll body).orElse (SeqBranch.searchAll rest)

def SeqAlternative.searchAll : List SeqAlternative → Scan σ
  | [] => .nothing
  | .mk _ body :: rest => (SeqStmt.searchAll body).orElse (SeqAlternative.searchAll rest)

end

mutual

def ConcStmt.search : ConcStmt → Scan σ
  | .mk label kind => .meet judge (.concurrent · (.mk label kind)) (kind.search label)

def ConcStmt.searchAll : List ConcStmt → Scan σ
  | [] => .nothing
  | statement :: rest => statement.search.orElse (ConcStmt.searchAll rest)

/-- Search inside a concurrent statement with that label. -/
def ConcKind.search (label : Option Identifier) : ConcKind → Scan σ
  | .block _ body => .within label (ConcStmt.searchAll body)
  | .process body _ => SeqStmt.searchAll judge body
  | .forGenerate _ _ body => .within label body.search
  | .ifGenerate branches none => .within label (IfBranch.searchAll branches)
  | .ifGenerate branches (some body) =>
    .within label ((IfBranch.searchAll branches).orElse body.search)
  | .caseGenerate _ alternatives => .within label (CaseBranch.searchAll alternatives)
  | .assert _ | .assign _ _ | .call _ _ | .instantiation _ => .nothing

def GenerateBody.search : GenerateBody → Scan σ
  | .mk label _ body => .within label (ConcStmt.searchAll body)

def IfBranch.searchAll : List IfBranch → Scan σ
  | [] => .nothing
  | .mk _ body :: rest => body.search.orElse (IfBranch.searchAll rest)

def CaseBranch.searchAll : List CaseBranch → Scan σ
  | [] => .nothing
  | .mk _ body :: rest => body.search.orElse (CaseBranch.searchAll rest)

end

end Search

/-- Search all statements of a list, and tell whether the search ended with success. -/
def searchStatements {σ : Type} (judge : σ → Visit → σ × Verdict) (state : σ)
    (statements : List ConcStmt) : σ × Bool :=
  match ConcStmt.searchAll judge statements ⟨state, []⟩ with
  | (cursor, found) => (cursor.state, found)

/-- The scope of the first concurrent statement with a label of that name. -/
def findLabel? (label : String) (statements : List ConcStmt) : Option (List Identifier) :=
  (searchStatements judge none statements).1
where
  judge (_ : Option (List Identifier)) : Visit → Option (List Identifier) × Verdict
    | .concurrent scope (.mk (some ident) _) =>
      if ident.isNamed label then (some scope, .found) else (none, .descend)
    | _ => (none, .descend)

structure StatementCount where
  processes : Nat := 0
  sequential : Nat := 0
  deriving DecidableEq, Repr

/-- Count the processes and the sequential statements within them. -/
def countStatements (statements : List ConcStmt) : StatementCount :=
  (searchStatements judge {} statements).1
where
  judge (count : StatementCount) : Visit → StatementCount × Verdict
    | .concurrent _ (.mk _ (.process _ _)) =>
      ({ count with processes := count.processes + 1 }, .descend)
    | .concurrent _ _ => (count, .descend)
    | .sequential _ => ({ count with sequential := count.sequential + 1 }, .descend)

/-- An instantiation statement and the labels of the blocks and generate statements around it.
Labels of generate alternatives are left out. -/
structure FoundInstance where
  scope : List Identifier
  label : Option Identifier
  statement : Instantiation

/-- The labels down to the instance, joined by dots. -/
def FoundInstance.path (found : FoundInstance) : String :=
  String.intercalate "." ((found.scope ++ found.label.toList).map Identifier.text)

mutual

def ConcStmt.instances (scope : List Identifier) : ConcStmt → List FoundInstance
  | .mk label kind => kind.instances scope label

def ConcStmt.instancesAll (scope : List Identifier) : List ConcStmt → List FoundInstance
  | [] => []
  | statement :: rest => statement.instances scope ++ ConcStmt.instancesAll scope rest

def ConcKind.instances (scope : List Identifier) (label : Option Identifier) :
    ConcKind → List FoundInstance
  | .instantiation statement => [⟨scope, label, statement⟩]
  | .block _ body => ConcStmt.instancesAll (scope ++ label.toList) body
  | .forGenerate _ _ body => body.instances (scope ++ label.toList)
  | .ifGenerate branches none => IfBranch.instances (scope ++ label.toList) branches
  | .ifGenerate branches (some body) =>
    IfBranch.instances (scope ++ label.toList) branches ++ body.instances (scope ++ label.toList)
  | .caseGenerate _ alternatives => CaseBranch.instances (scope ++ label.toList) alternatives
  | .process _ _ | .assert _ | .assign _ _ | .call _ _ => []

def GenerateBody.instances (scope : List Identifier) : GenerateBody → List FoundInstance
  | .mk _ _ body => ConcStmt.instancesAll scope body

def IfBranch.instances (scope : List Identifier) : List IfBranch → List FoundInstance
  | [] => []
  | .mk _ body :: rest => body.instances scope ++ IfBranch.instances scope rest

def CaseBranch.instances (scope : List Identifier) : List CaseBranch → List FoundInstance
  | [] => []
  | .mk _ body :: rest => body.instances scope ++ CaseBranch.instances scope rest

end

/-- All instantiation statements at any depth, in order. -/
def findInstances (statements : List ConcStmt) : List FoundInstance :=
  ConcStmt.instancesAll [] statements

end Vhdl
