import Vhdl.Proofs.Instances

/-! # Nested statements

Statements stand in lists directly inside other statements, in generate statements with the label of
an alternative. What holds of a list as soon as it holds of the lists inside its statements holds of
every list, and the traversals go through the lists inside a statement from left to right.
-/

namespace Vhdl

def SeqStmt.kind : SeqStmt → SeqKind
  | .mk _ kind => kind

def SeqBranch.body : SeqBranch → List SeqStmt
  | .mk _ body => body

def SeqAlternative.body : SeqAlternative → List SeqStmt
  | .mk _ body => body

def SeqKind.bodies : SeqKind → List (List SeqStmt)
  | .conditional branches otherwise => branches.map SeqBranch.body ++ otherwise.toList
  | .select _ alternatives => alternatives.map SeqAlternative.body
  | .loop _ body => [body]
  | .wait | .assert _ | .report _ | .assignVariable _ _ | .assignSignal _ _ | .call _ _
  | .next _ _ | .exit _ _ | .returnValue _ | .null => []

def GenerateBody.label : GenerateBody → Option Identifier
  | .mk label _ _ => label

def GenerateBody.part (body : GenerateBody) : Option Identifier × List ConcStmt :=
  (body.label, body.statements)

def IfBranch.part : IfBranch → Option Identifier × List ConcStmt
  | .mk _ body => body.part

def CaseBranch.part : CaseBranch → Option Identifier × List ConcStmt
  | .mk _ body => body.part

/-- The statement lists directly inside a block or generate statement, each with the label of its
alternative. -/
def ConcKind.parts : ConcKind → List (Option Identifier × List ConcStmt)
  | .block _ body => [(none, body)]
  | .forGenerate _ _ body => [body.part]
  | .ifGenerate branches otherwise =>
    branches.map IfBranch.part ++ otherwise.toList.map GenerateBody.part
  | .caseGenerate _ alternatives => alternatives.map CaseBranch.part
  | .process _ _ | .assert _ | .assign _ _ | .call _ _ | .instantiation _ => []

def ConcKind.steps : ConcKind → List SeqStmt
  | .process body _ => body
  | _ => []

@[simp] theorem IfBranch.part_snd (branch : IfBranch) : branch.part.2 = branch.statements := by
  cases branch
  rfl

@[simp] theorem CaseBranch.part_snd (branch : CaseBranch) : branch.part.2 = branch.statements := by
  cases branch
  rfl

theorem ConcKind.map_parts (kind : ConcKind) : kind.parts.map Prod.snd = kind.bodies := by
  cases kind <;> simp [parts, bodies, GenerateBody.part, Function.comp_def]

section Induction

theorem GenerateBody.sizeOf_part (body : GenerateBody) : sizeOf body.part.2 < sizeOf body := by
  obtain ⟨label, decls, statements⟩ := body
  simp only [part, GenerateBody.statements, GenerateBody.mk.sizeOf_spec]
  omega

theorem ConcKind.sizeOf_part {kind : ConcKind} {part : Option Identifier × List ConcStmt}
    (h : part ∈ kind.parts) : sizeOf part.2 < sizeOf kind := by
  cases kind with
  | block decls body =>
    obtain rfl := List.mem_singleton.mp h
    simp only [ConcKind.block.sizeOf_spec]
    omega
  | forGenerate ident range body =>
    obtain rfl := List.mem_singleton.mp h
    have hb := body.sizeOf_part
    simp only [ConcKind.forGenerate.sizeOf_spec]
    omega
  | ifGenerate branches otherwise =>
    simp only [ConcKind.ifGenerate.sizeOf_spec]
    rcases List.mem_append.mp h with h | h
    · obtain ⟨⟨condition, body⟩, hm, rfl⟩ := List.mem_map.mp h
      have hs := List.sizeOf_lt_of_mem hm
      have hb := body.sizeOf_part
      simp only [IfBranch.mk.sizeOf_spec] at hs
      simp only [IfBranch.part]
      omega
    · obtain ⟨body, hm, rfl⟩ := List.mem_map.mp h
      obtain rfl := Option.mem_toList.mp hm
      have hb := body.sizeOf_part
      simp only [Option.some.sizeOf_spec]
      omega
  | caseGenerate selector alternatives =>
    obtain ⟨⟨choices, body⟩, hm, rfl⟩ := List.mem_map.mp h
    have hs := List.sizeOf_lt_of_mem hm
    have hb := body.sizeOf_part
    simp only [CaseBranch.mk.sizeOf_spec] at hs
    simp only [CaseBranch.part, ConcKind.caseGenerate.sizeOf_spec]
    omega
  | process | assert | assign | call | instantiation => cases h

theorem ConcStmt.sizeOf_part {statements : List ConcStmt} {statement : ConcStmt}
    (hs : statement ∈ statements) {part : Option Identifier × List ConcStmt}
    (hp : part ∈ statement.kind.parts) : sizeOf part.2 < sizeOf statements := by
  have hs := List.sizeOf_lt_of_mem hs
  have hp := ConcKind.sizeOf_part hp
  obtain ⟨label, kind⟩ := statement
  simp only [ConcStmt.kind, ConcStmt.mk.sizeOf_spec] at hs hp
  omega

/-- What holds of a list if it holds of the lists inside its statements holds of every list. -/
theorem ConcStmt.list_induction {motive : List ConcStmt → Prop}
    (step : ∀ statements, (∀ statement ∈ statements, ∀ part ∈ statement.kind.parts,
      motive part.2) → motive statements) (statements : List ConcStmt) : motive statements :=
  step statements fun statement hs part hp =>
    have := ConcStmt.sizeOf_part hs hp
    ConcStmt.list_induction step part.2
termination_by sizeOf statements

theorem SeqKind.sizeOf_body {kind : SeqKind} {body : List SeqStmt} (h : body ∈ kind.bodies) :
    sizeOf body < sizeOf kind := by
  cases kind with
  | conditional branches otherwise =>
    simp only [SeqKind.conditional.sizeOf_spec]
    rcases List.mem_append.mp h with h | h
    · obtain ⟨⟨condition, body⟩, hm, rfl⟩ := List.mem_map.mp h
      have hs := List.sizeOf_lt_of_mem hm
      simp only [SeqBranch.mk.sizeOf_spec] at hs
      simp only [SeqBranch.body]
      omega
    · obtain rfl := Option.mem_toList.mp h
      simp only [Option.some.sizeOf_spec]
      omega
  | select selector alternatives =>
    obtain ⟨⟨choices, body⟩, hm, rfl⟩ := List.mem_map.mp h
    have hs := List.sizeOf_lt_of_mem hm
    simp only [SeqAlternative.mk.sizeOf_spec] at hs
    simp only [SeqAlternative.body, SeqKind.select.sizeOf_spec]
    omega
  | loop iteration body =>
    obtain rfl := List.mem_singleton.mp h
    simp only [SeqKind.loop.sizeOf_spec]
    omega
  | wait | assert | report | assignVariable | assignSignal | call | next | exit | returnValue
  | null => cases h

theorem SeqStmt.list_induction {motive : List SeqStmt → Prop}
    (step : ∀ statements, (∀ statement ∈ statements, ∀ body ∈ statement.kind.bodies,
      motive body) → motive statements) (statements : List SeqStmt) : motive statements :=
  step statements fun statement hs body hb =>
    have : sizeOf body < sizeOf statements := by
      have hs := List.sizeOf_lt_of_mem hs
      have hb := SeqKind.sizeOf_body hb
      obtain ⟨label, kind⟩ := statement
      simp only [SeqStmt.kind, SeqStmt.mk.sizeOf_spec] at hs hb
      omega
    SeqStmt.list_induction step body
termination_by sizeOf statements

end Induction

section Walks

theorem SeqStmt.walks_eq_map (statements : List SeqStmt) :
    SeqStmt.walks statements = statements.map SeqStmt.walk := by
  induction statements with
  | nil => rfl
  | cons statement rest ih => rw [SeqStmt.walks, ih, List.map_cons]

theorem SeqBranch.walks_eq (branches : List SeqBranch) :
    SeqBranch.walks branches = (branches.map SeqBranch.body).flatMap SeqStmt.walks := by
  induction branches with
  | nil => rfl
  | cons branch rest ih =>
    obtain ⟨condition, body⟩ := branch
    rw [SeqBranch.walks, ih, List.map_cons, List.flatMap_cons]
    rfl

theorem SeqAlternative.walks_eq (alternatives : List SeqAlternative) :
    SeqAlternative.walks alternatives =
      (alternatives.map SeqAlternative.body).flatMap SeqStmt.walks := by
  induction alternatives with
  | nil => rfl
  | cons alternative rest ih =>
    obtain ⟨choices, body⟩ := alternative
    rw [SeqAlternative.walks, ih, List.map_cons, List.flatMap_cons]
    rfl

theorem SeqKind.walks_eq (kind : SeqKind) : kind.walks = kind.bodies.flatMap SeqStmt.walks := by
  cases kind with
  | conditional branches otherwise =>
    cases otherwise with
    | none => simp [walks, bodies, SeqBranch.walks_eq]
    | some body => simp [walks, bodies, SeqBranch.walks_eq]
  | select selector alternatives => exact SeqAlternative.walks_eq alternatives
  | loop iteration body => simp [walks, bodies]
  | wait | assert | report | assignVariable | assignSignal | call | next | exit | returnValue
  | null => rfl

variable (scope : List Identifier)

theorem ConcStmt.walks_eq_map (statements : List ConcStmt) :
    ConcStmt.walks scope statements = statements.map (ConcStmt.walk scope) := by
  induction statements with
  | nil => rfl
  | cons statement rest ih => rw [ConcStmt.walks, ih, List.map_cons]

def partWalks (part : Option Identifier × List ConcStmt) : List Walk :=
  ConcStmt.walks (scope ++ part.1.toList) part.2

theorem GenerateBody.walks_eq (body : GenerateBody) :
    body.walks scope = partWalks scope body.part := by
  cases body
  rfl

theorem IfBranch.walks_eq (branches : List IfBranch) :
    IfBranch.walks scope branches = (branches.map IfBranch.part).flatMap (partWalks scope) := by
  induction branches with
  | nil => rfl
  | cons branch rest ih =>
    obtain ⟨condition, body⟩ := branch
    rw [IfBranch.walks, ih, body.walks_eq, List.map_cons, List.flatMap_cons]
    rfl

theorem CaseBranch.walks_eq (branches : List CaseBranch) :
    CaseBranch.walks scope branches = (branches.map CaseBranch.part).flatMap (partWalks scope) := by
  induction branches with
  | nil => rfl
  | cons branch rest ih =>
    obtain ⟨choices, body⟩ := branch
    rw [CaseBranch.walks, ih, body.walks_eq, List.map_cons, List.flatMap_cons]
    rfl

theorem ConcKind.walks_eq (kind : ConcKind) :
    kind.walks scope = kind.parts.flatMap (partWalks scope) ++ SeqStmt.walks kind.steps := by
  cases kind with
  | block decls body => simp [walks, parts, steps, partWalks, SeqStmt.walks]
  | process body doc => rfl
  | forGenerate ident range body => simp [walks, parts, steps, SeqStmt.walks, GenerateBody.walks_eq]
  | ifGenerate branches otherwise =>
    cases otherwise with
    | none => simp [walks, parts, steps, SeqStmt.walks, IfBranch.walks_eq]
    | some body =>
      simp [walks, parts, steps, SeqStmt.walks, IfBranch.walks_eq, GenerateBody.walks_eq]
  | caseGenerate selector alternatives =>
    simp [walks, parts, steps, SeqStmt.walks, CaseBranch.walks_eq]
  | assert | assign | call | instantiation => rfl

end Walks

section Instances

variable (scope : List Identifier)

def ConcStmt.found? (statement : ConcStmt) : Option FoundInstance :=
  statement.instance?.map fun entry => ⟨scope, entry.1, entry.2⟩

theorem ConcStmt.instancesAll_eq_flatMap (statements : List ConcStmt) :
    ConcStmt.instancesAll scope statements = statements.flatMap (ConcStmt.instances scope) := by
  induction statements with
  | nil => rfl
  | cons statement rest ih => rw [ConcStmt.instancesAll, ih, List.flatMap_cons]

theorem GenerateBody.instances_eq (body : GenerateBody) :
    body.instances scope = ConcStmt.instancesAll scope body.part.2 := by
  cases body
  rfl

theorem IfBranch.instances_eq (branches : List IfBranch) : IfBranch.instances scope branches =
    (branches.map IfBranch.part).flatMap (ConcStmt.instancesAll scope ·.2) := by
  induction branches with
  | nil => rfl
  | cons branch rest ih =>
    obtain ⟨condition, body⟩ := branch
    rw [IfBranch.instances, ih, body.instances_eq, List.map_cons, List.flatMap_cons]
    rfl

theorem CaseBranch.instances_eq (branches : List CaseBranch) : CaseBranch.instances scope branches =
    (branches.map CaseBranch.part).flatMap (ConcStmt.instancesAll scope ·.2) := by
  induction branches with
  | nil => rfl
  | cons branch rest ih =>
    obtain ⟨choices, body⟩ := branch
    rw [CaseBranch.instances, ih, body.instances_eq, List.map_cons, List.flatMap_cons]
    rfl

theorem ConcStmt.instances_eq (statement : ConcStmt) :
    statement.instances scope = (statement.found? scope).toList ++
      statement.kind.parts.flatMap
        (ConcStmt.instancesAll (scope ++ statement.label.toList) ·.2) := by
  obtain ⟨label, kind⟩ := statement
  cases kind with
  | ifGenerate branches otherwise =>
    cases otherwise with
    | none =>
      simp [instances, ConcKind.instances, found?, instance?, ConcStmt.kind, ConcKind.parts,
        IfBranch.instances_eq, ConcStmt.label]
    | some body =>
      simp [instances, ConcKind.instances, found?, instance?, ConcStmt.kind, ConcKind.parts,
        IfBranch.instances_eq, GenerateBody.instances_eq, ConcStmt.label]
  | block | forGenerate | caseGenerate =>
    simp [instances, ConcKind.instances, found?, instance?, ConcStmt.kind, ConcKind.parts,
      GenerateBody.instances_eq, CaseBranch.instances_eq, ConcStmt.label]
  | process | assert | assign | call | instantiation => rfl

end Instances

end Vhdl
