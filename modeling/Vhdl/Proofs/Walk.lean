import Vhdl.Statement.Walk

/-! # The tree of a walk

The statements that a search may meet form a tree, in which every node has its scope. A search goes
through this tree, and whether it ends early or not it leaves the stack of labels as it was.
-/

namespace Vhdl

/-- A visit with the walks of the statements directly below. -/
inductive Walk where
  | node (visit : Visit) (below : List Walk)

mutual

def SeqStmt.walk : SeqStmt → Walk
  | .mk label kind => .node (.sequential (.mk label kind)) kind.walks

def SeqStmt.walks : List SeqStmt → List Walk
  | [] => []
  | statement :: rest => statement.walk :: SeqStmt.walks rest

def SeqKind.walks : SeqKind → List Walk
  | .conditional branches none => SeqBranch.walks branches
  | .conditional branches (some body) => SeqBranch.walks branches ++ SeqStmt.walks body
  | .select _ alternatives => SeqAlternative.walks alternatives
  | .loop _ body => SeqStmt.walks body
  | _ => []

def SeqBranch.walks : List SeqBranch → List Walk
  | [] => []
  | .mk _ body :: rest => SeqStmt.walks body ++ SeqBranch.walks rest

def SeqAlternative.walks : List SeqAlternative → List Walk
  | [] => []
  | .mk _ body :: rest => SeqStmt.walks body ++ SeqAlternative.walks rest

end

mutual

def ConcStmt.walk (scope : List Identifier) : ConcStmt → Walk
  | .mk label kind =>
    .node (.concurrent scope (.mk label kind)) (kind.walks (scope ++ label.toList))

def ConcStmt.walks (scope : List Identifier) : List ConcStmt → List Walk
  | [] => []
  | statement :: rest => statement.walk scope :: ConcStmt.walks scope rest

def ConcKind.walks (inner : List Identifier) : ConcKind → List Walk
  | .block _ body => ConcStmt.walks inner body
  | .process body _ => SeqStmt.walks body
  | .forGenerate _ _ body => body.walks inner
  | .ifGenerate branches none => IfBranch.walks inner branches
  | .ifGenerate branches (some body) => IfBranch.walks inner branches ++ body.walks inner
  | .caseGenerate _ alternatives => CaseBranch.walks inner alternatives
  | .assert _ | .assign _ _ | .call _ _ | .instantiation _ => []

def GenerateBody.walks (scope : List Identifier) : GenerateBody → List Walk
  | .mk label _ body => ConcStmt.walks (scope ++ label.toList) body

def IfBranch.walks (scope : List Identifier) : List IfBranch → List Walk
  | [] => []
  | .mk _ body :: rest => body.walks scope ++ IfBranch.walks scope rest

def CaseBranch.walks (scope : List Identifier) : List CaseBranch → List Walk
  | [] => []
  | .mk _ body :: rest => body.walks scope ++ CaseBranch.walks scope rest

end

mutual

def Walk.visits : Walk → List Visit
  | .node visit below => visit :: Walk.visitsAll below

def Walk.visitsAll : List Walk → List Visit
  | [] => []
  | walk :: rest => walk.visits ++ Walk.visitsAll rest

end

mutual

/-- Search a walk with a state, and tell whether the search ended with success. -/
def Walk.search {σ : Type} (judge : σ → Visit → σ × Verdict) (state : σ) : Walk → σ × Bool
  | .node visit below =>
    match judge state visit with
    | (state, .found) => (state, true)
    | (state, .skip) => (state, false)
    | (state, .descend) => Walk.searchAll judge state below

def Walk.searchAll {σ : Type} (judge : σ → Visit → σ × Verdict) (state : σ) :
    List Walk → σ × Bool
  | [] => (state, false)
  | walk :: rest =>
    match walk.search judge state with
    | (state, true) => (state, true)
    | (state, false) => Walk.searchAll judge state rest

end

namespace Walk

variable {σ : Type} (judge : σ → Visit → σ × Verdict)

theorem searchAll_append (state : σ) (xs ys : List Walk) :
    searchAll judge state (xs ++ ys) = match searchAll judge state xs with
      | (state, true) => (state, true)
      | (state, false) => searchAll judge state ys := by
  induction xs generalizing state with
  | nil => rw [List.nil_append, searchAll]
  | cons walk rest ih =>
    rw [List.cons_append, searchAll, searchAll]
    rcases walk.search judge state with ⟨state, _ | _⟩
    · exact ih state
    · rfl

theorem searchAll_singleton (state : σ) (walk : Walk) :
    searchAll judge state [walk] = walk.search judge state := by
  rw [searchAll]
  rcases walk.search judge state with ⟨state, _ | _⟩ <;> rfl

end Walk

namespace Scan

variable {σ : Type} {judge : σ → Visit → σ × Verdict} {first second : Scan σ}
  {walks others : List Identifier → List Walk}

/-- The scan goes through the walks in the scope of its cursor and ends with the same scope. -/
def Follows (judge : σ → Visit → σ × Verdict) (scan : Scan σ)
    (walks : List Identifier → List Walk) : Prop :=
  ∀ cursor, scan cursor = match Walk.searchAll judge cursor.state (walks cursor.scope) with
    | (state, found) => ({ cursor with state }, found)

theorem follows_nothing : nothing.Follows judge fun _ => [] :=
  fun _ => rfl

theorem Follows.orElse (hf : first.Follows judge walks) (hs : second.Follows judge others) :
    (first.orElse second).Follows judge fun scope => walks scope ++ others scope := by
  intro cursor
  rw [Scan.orElse, hf, Walk.searchAll_append]
  rcases Walk.searchAll judge cursor.state (walks cursor.scope) with ⟨state, _ | _⟩
  · exact hs _
  · rfl

theorem Follows.within (label : Option Identifier) (h : first.Follows judge walks) :
    (Scan.within label first).Follows judge fun scope => walks (scope ++ label.toList) := by
  intro cursor
  rw [Scan.within, h]
  cases label <;> simp [Cursor.enter, Cursor.leave]

theorem Follows.meet (visit : List Identifier → Visit) (h : first.Follows judge walks) :
    (Scan.meet judge visit first).Follows judge
      fun scope => [.node (visit scope) (walks scope)] := by
  intro cursor
  rw [Scan.meet, Walk.searchAll_singleton, Walk.search]
  rcases judge cursor.state (visit cursor.scope) with ⟨state, _ | _ | _⟩
  · exact h _
  · rfl
  · rfl

end Scan

section Search

variable {σ : Type} (judge : σ → Visit → σ × Verdict)

open Scan (Follows follows_nothing)

mutual

theorem SeqStmt.search_follows : (statement : SeqStmt) →
    (statement.search judge).Follows judge fun _ => [statement.walk]
  | .mk label kind => .meet (fun _ => .sequential (.mk label kind)) (SeqKind.search_follows kind)

theorem SeqStmt.searchAll_follows : (statements : List SeqStmt) →
    (SeqStmt.searchAll judge statements).Follows judge fun _ => SeqStmt.walks statements
  | [] => follows_nothing
  | statement :: rest =>
    (SeqStmt.search_follows statement).orElse (SeqStmt.searchAll_follows rest)

theorem SeqKind.search_follows : (kind : SeqKind) →
    (kind.search judge).Follows judge fun _ => kind.walks
  | .conditional branches none => SeqBranch.searchAll_follows branches
  | .conditional branches (some body) =>
    (SeqBranch.searchAll_follows branches).orElse (SeqStmt.searchAll_follows body)
  | .select _ alternatives => SeqAlternative.searchAll_follows alternatives
  | .loop _ body => SeqStmt.searchAll_follows body
  | .wait | .assert _ | .report _ | .assignVariable _ _ | .assignSignal _ _ | .call _ _
  | .next _ _ | .exit _ _ | .returnValue _ | .null => follows_nothing

theorem SeqBranch.searchAll_follows : (branches : List SeqBranch) →
    (SeqBranch.searchAll judge branches).Follows judge fun _ => SeqBranch.walks branches
  | [] => follows_nothing
  | .mk _ body :: rest => (SeqStmt.searchAll_follows body).orElse (SeqBranch.searchAll_follows rest)

theorem SeqAlternative.searchAll_follows : (alternatives : List SeqAlternative) →
    (SeqAlternative.searchAll judge alternatives).Follows judge
      fun _ => SeqAlternative.walks alternatives
  | [] => follows_nothing
  | .mk _ body :: rest =>
    (SeqStmt.searchAll_follows body).orElse (SeqAlternative.searchAll_follows rest)

end

mutual

theorem ConcStmt.search_follows : (statement : ConcStmt) →
    (statement.search judge).Follows judge fun scope => [statement.walk scope]
  | .mk label kind => .meet (.concurrent · (.mk label kind)) (ConcKind.search_follows label kind)

theorem ConcStmt.searchAll_follows : (statements : List ConcStmt) →
    (ConcStmt.searchAll judge statements).Follows judge fun scope => ConcStmt.walks scope statements
  | [] => follows_nothing
  | statement :: rest =>
    (ConcStmt.search_follows statement).orElse (ConcStmt.searchAll_follows rest)

theorem ConcKind.search_follows (label : Option Identifier) : (kind : ConcKind) →
    (kind.search judge label).Follows judge fun scope => kind.walks (scope ++ label.toList)
  | .block _ body => .within label (ConcStmt.searchAll_follows body)
  | .process body _ => SeqStmt.searchAll_follows judge body
  | .forGenerate _ _ body => .within label (GenerateBody.search_follows body)
  | .ifGenerate branches none => .within label (IfBranch.searchAll_follows branches)
  | .ifGenerate branches (some body) =>
    .within label ((IfBranch.searchAll_follows branches).orElse (GenerateBody.search_follows body))
  | .caseGenerate _ alternatives => .within label (CaseBranch.searchAll_follows alternatives)
  | .assert _ | .assign _ _ | .call _ _ | .instantiation _ => follows_nothing

theorem GenerateBody.search_follows : (body : GenerateBody) →
    (body.search judge).Follows judge fun scope => body.walks scope
  | .mk label _ body => .within label (ConcStmt.searchAll_follows body)

theorem IfBranch.searchAll_follows : (branches : List IfBranch) →
    (IfBranch.searchAll judge branches).Follows judge fun scope => IfBranch.walks scope branches
  | [] => follows_nothing
  | .mk _ body :: rest =>
    (GenerateBody.search_follows body).orElse (IfBranch.searchAll_follows rest)

theorem CaseBranch.searchAll_follows : (branches : List CaseBranch) →
    (CaseBranch.searchAll judge branches).Follows judge
      fun scope => CaseBranch.walks scope branches
  | [] => follows_nothing
  | .mk _ body :: rest =>
    (GenerateBody.search_follows body).orElse (CaseBranch.searchAll_follows rest)

end

theorem searchStatements_eq (state : σ) (statements : List ConcStmt) :
    searchStatements judge state statements =
      Walk.searchAll judge state (ConcStmt.walks [] statements) := by
  rw [searchStatements, ConcStmt.searchAll_follows judge statements]

end Search

end Vhdl
