import Mathlib.Data.List.Basic
import Vhdl.Proofs.Walk

/-! # Instantiation statements at any depth

A walk visits every statement that stands in the list or, at any depth, inside its blocks and
generate statements. The instances of a list are the instantiation statements of the walk, in the
order of the visits.
-/

namespace Vhdl

def GenerateBody.statements : GenerateBody → List ConcStmt
  | .mk _ _ body => body

def IfBranch.statements : IfBranch → List ConcStmt
  | .mk _ body => body.statements

def CaseBranch.statements : CaseBranch → List ConcStmt
  | .mk _ body => body.statements

def ConcKind.bodies : ConcKind → List (List ConcStmt)
  | .block _ body => [body]
  | .forGenerate _ _ body => [body.statements]
  | .ifGenerate branches otherwise =>
    branches.map IfBranch.statements ++ otherwise.toList.map GenerateBody.statements
  | .caseGenerate _ alternatives => alternatives.map CaseBranch.statements
  | .process _ _ | .assert _ | .assign _ _ | .call _ _ | .instantiation _ => []

/-- The statement is in the list or, at any depth, inside a block or generate statement of the
list. -/
inductive ConcStmt.Within (statement : ConcStmt) : List ConcStmt → Prop where
  | here {statements : List ConcStmt} : statement ∈ statements → Within statement statements
  | inside {statements body : List ConcStmt} {outer : ConcStmt} : outer ∈ statements →
      body ∈ outer.kind.bodies → Within statement body → Within statement statements

theorem ConcStmt.not_within_nil (statement : ConcStmt) : ¬ statement.Within [] := by
  rintro (hm | ⟨hm, _, _⟩) <;> cases hm

theorem ConcStmt.within_cons_iff {statement head : ConcStmt} {rest : List ConcStmt} :
    statement.Within (head :: rest) ↔ (statement = head ∨
      ∃ body ∈ head.kind.bodies, statement.Within body) ∨ statement.Within rest := by
  constructor
  · rintro (hm | ⟨ho, hb, hw⟩)
    · exact (List.mem_cons.mp hm).imp .inl .here
    · rcases List.mem_cons.mp ho with rfl | ho
      · exact .inl (.inr ⟨_, hb, hw⟩)
      · exact .inr (.inside ho hb hw)
  · rintro ((rfl | ⟨body, hb, hw⟩) | hm | ⟨ho, hb, hw⟩)
    · exact .here List.mem_cons_self
    · exact .inside List.mem_cons_self hb hw
    · exact .here (List.mem_cons_of_mem head hm)
    · exact .inside (List.mem_cons_of_mem head ho) hb hw

def Visit.concurrent? : Visit → Option ConcStmt
  | .concurrent _ statement => some statement
  | .sequential _ => none

def ConcStmt.instance? : ConcStmt → Option (Option Identifier × Instantiation)
  | .mk label (.instantiation statement) => some (label, statement)
  | _ => none

def Walk.statements (walks : List Walk) : List ConcStmt :=
  (Walk.visitsAll walks).filterMap Visit.concurrent?

namespace Walk

@[simp] theorem visitsAll_append (xs ys : List Walk) :
    visitsAll (xs ++ ys) = visitsAll xs ++ visitsAll ys := by
  induction xs with
  | nil => rfl
  | cons x xs ih => rw [List.cons_append, visitsAll, visitsAll, ih, List.append_assoc]

@[simp] theorem statements_nil : statements [] = [] :=
  rfl

@[simp] theorem statements_append (xs ys : List Walk) :
    statements (xs ++ ys) = statements xs ++ statements ys := by
  rw [statements, visitsAll_append, List.filterMap_append]
  rfl

theorem statements_cons (walk : Walk) (rest : List Walk) :
    statements (walk :: rest) = statements [walk] ++ statements rest :=
  statements_append [walk] rest

theorem statements_node (visit : Visit) (below : List Walk) :
    statements [.node visit below] = visit.concurrent?.toList ++ statements below := by
  rw [statements, visitsAll, visits, visitsAll, List.append_nil, List.filterMap_cons]
  cases visit <;> rfl

end Walk

mutual

theorem SeqStmt.statements_walk : (statement : SeqStmt) → Walk.statements [statement.walk] = []
  | .mk label kind => by
    rw [SeqStmt.walk, Walk.statements_node, kind.statements_walks]
    rfl

theorem SeqStmt.statements_walks : (body : List SeqStmt) → Walk.statements (SeqStmt.walks body) = []
  | [] => rfl
  | statement :: rest => by
    rw [SeqStmt.walks, Walk.statements_cons, statement.statements_walk,
      SeqStmt.statements_walks rest, List.nil_append]

theorem SeqKind.statements_walks : (kind : SeqKind) → Walk.statements kind.walks = []
  | .conditional branches none => SeqBranch.statements_walks branches
  | .conditional branches (some body) => by
    rw [SeqKind.walks, Walk.statements_append, SeqBranch.statements_walks branches,
      SeqStmt.statements_walks body, List.nil_append]
  | .select _ alternatives => SeqAlternative.statements_walks alternatives
  | .loop _ body => SeqStmt.statements_walks body
  | .wait | .assert _ | .report _ | .assignVariable _ _ | .assignSignal _ _ | .call _ _
  | .next _ _ | .exit _ _ | .returnValue _ | .null => rfl

theorem SeqBranch.statements_walks :
    (branches : List SeqBranch) → Walk.statements (SeqBranch.walks branches) = []
  | [] => rfl
  | .mk _ body :: rest => by
    rw [SeqBranch.walks, Walk.statements_append, SeqStmt.statements_walks body,
      SeqBranch.statements_walks rest, List.nil_append]

theorem SeqAlternative.statements_walks :
    (alternatives : List SeqAlternative) → Walk.statements (SeqAlternative.walks alternatives) = []
  | [] => rfl
  | .mk _ body :: rest => by
    rw [SeqAlternative.walks, Walk.statements_append, SeqStmt.statements_walks body,
      SeqAlternative.statements_walks rest, List.nil_append]

end

section Within

variable {statement : ConcStmt}

mutual

theorem ConcStmt.mem_statements_walk (scope : List Identifier) : (head : ConcStmt) →
    (statement ∈ Walk.statements [head.walk scope] ↔
      statement = head ∨ ∃ body ∈ head.kind.bodies, statement.Within body)
  | .mk label kind => by
    rw [ConcStmt.walk, Walk.statements_node, List.mem_append, kind.mem_statements_walks]
    exact or_congr_left (by simp [Visit.concurrent?])

theorem ConcStmt.mem_statements_walks (scope : List Identifier) : (statements : List ConcStmt) →
    (statement ∈ Walk.statements (ConcStmt.walks scope statements) ↔ statement.Within statements)
  | [] => by simp [ConcStmt.walks, statement.not_within_nil]
  | head :: rest => by
    rw [ConcStmt.walks, Walk.statements_cons, List.mem_append, head.mem_statements_walk,
      ConcStmt.mem_statements_walks scope rest, ConcStmt.within_cons_iff]

theorem ConcKind.mem_statements_walks (scope : List Identifier) : (kind : ConcKind) →
    (statement ∈ Walk.statements (kind.walks scope) ↔
      ∃ body ∈ kind.bodies, statement.Within body)
  | .block _ body => by
    simp [ConcKind.walks, ConcKind.bodies, ConcStmt.mem_statements_walks scope body]
  | .process body _ => by simp [ConcKind.walks, ConcKind.bodies, SeqStmt.statements_walks]
  | .forGenerate _ _ body => by
    simp [ConcKind.walks, ConcKind.bodies, body.mem_statements_walks scope]
  | .ifGenerate branches none => by
    simp [ConcKind.walks, ConcKind.bodies, IfBranch.mem_statements_walks scope branches]
  | .ifGenerate branches (some body) => by
    simp [ConcKind.walks, ConcKind.bodies, IfBranch.mem_statements_walks scope branches,
      body.mem_statements_walks scope, or_and_right, exists_or]
  | .caseGenerate _ alternatives => by
    simp [ConcKind.walks, ConcKind.bodies, CaseBranch.mem_statements_walks scope alternatives]
  | .assert _ | .assign _ _ | .call _ _ | .instantiation _ => by
    simp [ConcKind.walks, ConcKind.bodies]

theorem GenerateBody.mem_statements_walks (scope : List Identifier) : (body : GenerateBody) →
    (statement ∈ Walk.statements (body.walks scope) ↔ statement.Within body.statements)
  | .mk _ _ body => ConcStmt.mem_statements_walks _ body

theorem IfBranch.mem_statements_walks (scope : List Identifier) : (branches : List IfBranch) →
    (statement ∈ Walk.statements (IfBranch.walks scope branches) ↔
      ∃ branch ∈ branches, statement.Within branch.statements)
  | [] => by simp [IfBranch.walks]
  | .mk _ body :: rest => by
    rw [IfBranch.walks, Walk.statements_append, List.mem_append, body.mem_statements_walks,
      IfBranch.mem_statements_walks scope rest, List.exists_mem_cons_iff]
    rfl

theorem CaseBranch.mem_statements_walks (scope : List Identifier) : (branches : List CaseBranch) →
    (statement ∈ Walk.statements (CaseBranch.walks scope branches) ↔
      ∃ branch ∈ branches, statement.Within branch.statements)
  | [] => by simp [CaseBranch.walks]
  | .mk _ body :: rest => by
    rw [CaseBranch.walks, Walk.statements_append, List.mem_append, body.mem_statements_walks,
      CaseBranch.mem_statements_walks scope rest, List.exists_mem_cons_iff]
    rfl

end

end Within

def FoundInstance.labelled (found : FoundInstance) : Option Identifier × Instantiation :=
  (found.label, found.statement)

mutual

theorem ConcStmt.map_instances (scope inner : List Identifier) : (statement : ConcStmt) →
    (statement.instances scope).map FoundInstance.labelled =
      (Walk.statements [statement.walk inner]).filterMap ConcStmt.instance?
  | .mk label kind => by
    rw [ConcStmt.instances, ConcStmt.walk, Walk.statements_node, List.filterMap_append,
      kind.map_instances scope (inner ++ label.toList) label]
    rfl

theorem ConcStmt.map_instancesAll (scope inner : List Identifier) : (statements : List ConcStmt) →
    (ConcStmt.instancesAll scope statements).map FoundInstance.labelled =
      (Walk.statements (ConcStmt.walks inner statements)).filterMap ConcStmt.instance?
  | [] => rfl
  | statement :: rest => by
    rw [ConcStmt.instancesAll, ConcStmt.walks, Walk.statements_cons, List.map_append,
      List.filterMap_append, statement.map_instances scope inner,
      ConcStmt.map_instancesAll scope inner rest]

theorem ConcKind.map_instances (scope inner : List Identifier) (label : Option Identifier) :
    (kind : ConcKind) → (kind.instances scope label).map FoundInstance.labelled =
      (ConcStmt.mk label kind).instance?.toList ++
        (Walk.statements (kind.walks inner)).filterMap ConcStmt.instance?
  | .instantiation _ => rfl
  | .block _ body => ConcStmt.map_instancesAll _ inner body
  | .forGenerate _ _ body => body.map_instances _ inner
  | .ifGenerate branches none => IfBranch.map_instances _ inner branches
  | .ifGenerate branches (some body) => by
    rw [ConcKind.instances, ConcKind.walks, Walk.statements_append, List.map_append,
      List.filterMap_append, IfBranch.map_instances _ inner branches, body.map_instances _ inner]
    rfl
  | .caseGenerate _ alternatives => CaseBranch.map_instances _ inner alternatives
  | .process body _ => by
    rw [ConcKind.walks, SeqStmt.statements_walks]
    rfl
  | .assert _ | .assign _ _ | .call _ _ => rfl

theorem GenerateBody.map_instances (scope inner : List Identifier) : (body : GenerateBody) →
    (body.instances scope).map FoundInstance.labelled =
      (Walk.statements (body.walks inner)).filterMap ConcStmt.instance?
  | .mk _ _ body => ConcStmt.map_instancesAll scope _ body

theorem IfBranch.map_instances (scope inner : List Identifier) : (branches : List IfBranch) →
    (IfBranch.instances scope branches).map FoundInstance.labelled =
      (Walk.statements (IfBranch.walks inner branches)).filterMap ConcStmt.instance?
  | [] => rfl
  | .mk _ body :: rest => by
    rw [IfBranch.instances, IfBranch.walks, Walk.statements_append, List.map_append,
      List.filterMap_append, body.map_instances scope inner,
      IfBranch.map_instances scope inner rest]

theorem CaseBranch.map_instances (scope inner : List Identifier) : (branches : List CaseBranch) →
    (CaseBranch.instances scope branches).map FoundInstance.labelled =
      (Walk.statements (CaseBranch.walks inner branches)).filterMap ConcStmt.instance?
  | [] => rfl
  | .mk _ body :: rest => by
    rw [CaseBranch.instances, CaseBranch.walks, Walk.statements_append, List.map_append,
      List.filterMap_append, body.map_instances scope inner,
      CaseBranch.map_instances scope inner rest]

end

/-- The instances are the instantiation statements that a walk visits, in the same order. -/
theorem map_findInstances (statements : List ConcStmt) :
    (findInstances statements).map FoundInstance.labelled =
      (Walk.statements (ConcStmt.walks [] statements)).filterMap ConcStmt.instance? :=
  ConcStmt.map_instancesAll [] [] statements

theorem ConcStmt.instance?_eq_some_iff {statement : ConcStmt} {label : Option Identifier}
    {instantiation : Instantiation} : statement.instance? = some (label, instantiation) ↔
      statement = .mk label (.instantiation instantiation) := by
  obtain ⟨label', kind⟩ := statement
  cases kind <;> simp [instance?]

theorem exists_mem_findInstances_iff {statements : List ConcStmt} {P : Instantiation → Prop} :
    (∃ found ∈ findInstances statements, P found.statement) ↔
      ∃ label instantiation, (ConcStmt.mk label (.instantiation instantiation)).Within statements ∧
        P instantiation := by
  have hm : ∀ label instantiation,
      (label, instantiation) ∈ (findInstances statements).map FoundInstance.labelled ↔
        (ConcStmt.mk label (.instantiation instantiation)).Within statements := by
    intro label instantiation
    rw [map_findInstances, List.mem_filterMap]
    simp only [ConcStmt.instance?_eq_some_iff, exists_eq_right, ConcStmt.mem_statements_walks]
  constructor
  · rintro ⟨found, hf, hp⟩
    exact ⟨found.label, found.statement, (hm _ _).mp (List.mem_map_of_mem hf), hp⟩
  · rintro ⟨label, instantiation, hw, hp⟩
    obtain ⟨found, hf, he⟩ := List.mem_map.mp ((hm _ _).mpr hw)
    obtain ⟨rfl, rfl⟩ := Prod.mk.inj he
    exact ⟨found, hf, hp⟩

end Vhdl
