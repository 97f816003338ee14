import Vhdl.Proofs.Scopes

/-! # Searching for a label

The search for a label ends with success exactly if a concurrent statement at some depth has the
label, and it reports the scope of the first such statement in pre-order. No search, whatever it
looks for and wherever it ends, leaves a label on the stack or takes one off that was there before.
-/

namespace Vhdl

open Stmt

def Scan.KeepsScope {σ : Type} (scan : Scan σ) : Prop :=
  ∀ cursor, (scan cursor).1.scope = cursor.scope

theorem Scan.Follows.keepsScope {σ : Type} {judge : σ → Visit → σ × Verdict} {scan : Scan σ}
    {walks : List Identifier → List Walk} (h : scan.Follows judge walks) : scan.KeepsScope := by
  intro cursor
  rw [h cursor]

/-- Searches of statements of either kind, of lists of them and of alternatives keep the scope. -/
structure KeepsScopes {σ : Type} (judge : σ → Visit → σ × Verdict) : Prop where
  concurrent : ∀ statement : ConcStmt, (statement.search judge).KeepsScope
  concurrents : ∀ statements, (ConcStmt.searchAll judge statements).KeepsScope
  alternative : ∀ body : GenerateBody, (body.search judge).KeepsScope
  sequential : ∀ statement : SeqStmt, (statement.search judge).KeepsScope
  sequentials : ∀ statements, (SeqStmt.searchAll judge statements).KeepsScope

theorem keepsScopes {σ : Type} (judge : σ → Visit → σ × Verdict) : KeepsScopes judge where
  concurrent statement := (statement.search_follows judge).keepsScope
  concurrents statements := (ConcStmt.searchAll_follows judge statements).keepsScope
  alternative body := (body.search_follows judge).keepsScope
  sequential statement := (statement.search_follows judge).keepsScope
  sequentials statements := (SeqStmt.searchAll_follows judge statements).keepsScope

def ConcStmt.Bears (statement : ConcStmt) (text : String) : Prop :=
  ∃ label ∈ statement.label, label.isNamed text = true

theorem ConcStmt.bears_iff {statement : ConcStmt} {text : String} :
    statement.Bears text ↔ statement.label.any (·.isNamed text) = true := by
  rw [Bears, Option.any_eq_true]
  simp only [Option.mem_def]

theorem Visit.scopeOf?_eq_some_iff {text : String} {visit : Visit} {scope : List Identifier} :
    visit.scopeOf? text = some scope ↔
      ∃ statement, visit = .concurrent scope statement ∧ statement.Bears text := by
  cases visit with
  | sequential => simp [scopeOf?]
  | concurrent around statement =>
    simp only [scopeOf?, Option.ite_none_right_eq_some, Option.some.injEq, Visit.concurrent.injEq,
      ConcStmt.bears_iff]
    constructor
    · rintro ⟨hb, rfl⟩
      exact ⟨statement, ⟨rfl, rfl⟩, hb⟩
    · rintro ⟨_, ⟨rfl, rfl⟩, hb⟩
      exact ⟨hb, rfl⟩

variable {text : String} {statements : List ConcStmt}

theorem searchStatements_label (text : String) (statements : List ConcStmt) :
    searchStatements (findLabel?.judge text) none statements =
      ((visited statements).findSome? (Visit.scopeOf? text),
        ((visited statements).findSome? (Visit.scopeOf? text)).isSome) := by
  rw [findLabel?_judge, searchStatements_eq, Walk.searchAll_stopAt, visited_eq]

theorem concurrent_mem_visited_iff {scope : List Identifier} {statement : ConcStmt} :
    .concurrent scope statement ∈ visited statements ↔
      ∃ frames, statement.Under frames statements ∧ scope = Frame.labels frames := by
  have hv : .concurrent scope statement ∈ visited statements ↔
      (scope, statement) ∈ (visited statements).filterMap Visit.located? := by
    rw [List.mem_filterMap]
    constructor
    · exact fun hm => ⟨_, hm, rfl⟩
    · rintro ⟨visit, hm, hl⟩
      cases visit with
      | sequential => cases hl
      | concurrent => cases hl; exact hm
  rw [hv, filterMap_located_visited, List.mem_map]
  simp only [Prod.exists, ConcStmt.mem_framed_iff, Prod.mk.injEq]
  constructor
  · rintro ⟨frames, _, hu, rfl, rfl⟩
    exact ⟨frames, hu, rfl⟩
  · rintro ⟨frames, hu, rfl⟩
    exact ⟨frames, statement, hu, rfl, rfl⟩

/-- The scope is that of the first statement with the label among all that a search may be shown. -/
def FirstScope (text : String) (statements : List ConcStmt) (scope : List Identifier) : Prop :=
  ∃ before statement after, visited statements = before ++ .concurrent scope statement :: after ∧
    statement.Bears text ∧ (∃ frames, statement.Under frames statements ∧
      scope = Frame.labels frames) ∧
    ∀ around other, .concurrent around other ∈ before → ¬ other.Bears text

theorem findSome?_scopeOf?_eq_some_iff {scope : List Identifier} :
    (visited statements).findSome? (Visit.scopeOf? text) = some scope ↔
      FirstScope text statements scope := by
  rw [List.findSome?_eq_some_iff, FirstScope]
  simp only [Visit.scopeOf?_eq_some_iff, Option.eq_none_iff_forall_ne_some, ne_eq, not_exists,
    not_and]
  constructor
  · rintro ⟨before, _, after, he, ⟨statement, rfl, hb⟩, hn⟩
    refine ⟨before, statement, after, he, hb, ?_, fun around other hm => ?_⟩
    · exact concurrent_mem_visited_iff.mp (he ▸ List.mem_append_right _ List.mem_cons_self)
    · exact hn _ hm around other rfl
  · rintro ⟨before, statement, after, he, hb, _, hn⟩
    refine ⟨before, _, after, he, ⟨statement, rfl, hb⟩, fun visit hm around other hv => ?_⟩
    exact hn around other (hv ▸ hm)

theorem isSome_findSome?_scopeOf?_iff :
    ((visited statements).findSome? (Visit.scopeOf? text)).isSome = true ↔
      ∃ (frames : List Frame) (statement : ConcStmt),
        statement.Under frames statements ∧ statement.Bears text := by
  rw [List.findSome?_isSome_iff]
  simp only [Option.isSome_iff_exists, Visit.scopeOf?_eq_some_iff]
  constructor
  · rintro ⟨_, hm, scope, statement, rfl, hb⟩
    obtain ⟨frames, hu, _⟩ := concurrent_mem_visited_iff.mp hm
    exact ⟨frames, statement, hu, hb⟩
  · rintro ⟨frames, statement, hu, hb⟩
    exact ⟨_, concurrent_mem_visited_iff.mpr ⟨frames, hu, rfl⟩, _, statement, rfl, hb⟩

/-- A search for a label succeeds if and only if a statement at some depth has it. Exactly then it
gives a scope, which is that of the first such statement in pre-order. All searches keep the stack
of labels, those that end early included. -/
theorem label_search_exact (text : String) (statements : List ConcStmt) :
    ((searchStatements (findLabel?.judge text) none statements).2 = true ↔
      ∃ (frames : List Frame) (statement : ConcStmt),
        statement.Under frames statements ∧ statement.Bears text) ∧
    (searchStatements (findLabel?.judge text) none statements).2 =
      (findLabel? text statements).isSome ∧
    (∀ scope, findLabel? text statements = some scope ↔ FirstScope text statements scope) ∧
    PreOrder (statements.map .concurrent) ((visited statements).map Visit.statement) ∧
    ∀ (σ : Type) (judge : σ → Visit → σ × Verdict), KeepsScopes judge := by
  rw [findLabel?, searchStatements_label]
  refine ⟨isSome_findSome?_scopeOf?_iff, rfl, fun _ => findSome?_scopeOf?_eq_some_iff, ?_,
    fun _ judge => keepsScopes judge⟩
  rw [visited_eq]
  exact (ConcStmt.listing_walks [] statements).preOrder

end Vhdl
