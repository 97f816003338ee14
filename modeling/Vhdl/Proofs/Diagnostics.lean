import Mathlib.Data.List.Basic
import Vhdl.Proofs.LinkErrors

/-! # Codes of diagnostics

Linking reports links that were not found and what the standard does not know. Every later phase of
an analysis has codes of its own, so that a code tells the phase. An internal error says that the
analysis broke one of its own rules; only a collision of keys could give one.
-/

namespace Vhdl

/-- The phases of an analysis that may have something to report. -/
inductive Phase where
  | linking
  | binding
  | cycles
  | topLevel
  | compileOrder
  deriving DecidableEq, Repr

def ErrorCode.phase? : ErrorCode → Option Phase
  | .unresolvedReference | .unresolvedPackageBody | .unresolvedArchitecture
  | .unsupportedStandard => some .linking
  | .unboundComponent | .noArchForEnt => some .binding
  | .circularDependency => some .cycles
  | .noTopLevel | .ambiguousTopLevel => some .topLevel
  | .circularCompileDependency => some .compileOrder
  | _ => none

theorem ErrorCode.phase?_of_isLinkError {code : ErrorCode} (h : code.isLinkError = true) :
    code.phase? = some .linking := by
  cases code <;> first | rfl | cases h

theorem ErrorCode.phase?_eq_cycles_iff {code : ErrorCode} :
    code.phase? = some .cycles ↔ code = .circularDependency := by
  cases code <;> simp [phase?]

theorem ErrorCode.phase?_eq_compileOrder_iff {code : ErrorCode} :
    code.phase? = some .compileOrder ↔ code = .circularCompileDependency := by
  cases code <;> simp [phase?]

namespace Diagnostic

def OfPhase (phase : Phase) (diagnostics : List Diagnostic) : Prop :=
  ∀ diagnostic ∈ diagnostics, diagnostic.code.phase? = some phase

theorem ofPhase_nil (phase : Phase) : OfPhase phase [] :=
  List.forall_mem_nil _

theorem ofPhase_singleton {phase : Phase} {diagnostic : Diagnostic} :
    OfPhase phase [diagnostic] ↔ diagnostic.code.phase? = some phase :=
  List.forall_mem_singleton

theorem foldl_addRelated {α : Type} (place : α → Location × String) (xs : List α)
    (diagnostic : Diagnostic) :
    xs.foldl (fun d x => d.addRelated (place x).1 (place x).2) diagnostic =
      { diagnostic with related := diagnostic.related ++ xs.map place } := by
  induction xs generalizing diagnostic with
  | nil => simp
  | cons x xs ih =>
    rw [List.foldl_cons, ih]
    simp [addRelated]

theorem code_foldl_addRelated {α : Type} (place : α → Location × String) (xs : List α)
    (diagnostic : Diagnostic) :
    (xs.foldl (fun d x => d.addRelated (place x).1 (place x).2) diagnostic).code =
      diagnostic.code := by
  rw [foldl_addRelated]

end Diagnostic

open Diagnostic

theorem Site.bind_report {site : Site} {visibility : Visibility} {found : FoundInstance}
    {diagnostic : Diagnostic} (h : (site.bind visibility found).diagnostic = some diagnostic) :
    diagnostic.location = site.location ∧ diagnostic.code.phase? = some .binding := by
  unfold bind at h
  split at h
  · unfold bindEntity at h
    split at h
    · cases h
      exact ⟨rfl, rfl⟩
    · split at h
      · cases h
      · split at h
        · cases h
        · cases h
          exact ⟨rfl, rfl⟩
  · unfold bindComponent at h
    split at h
    · cases h
    · cases h
      exact ⟨rfl, rfl⟩
  · unfold bindConfiguration at h
    split at h
    · cases h
      exact ⟨rfl, rfl⟩
    · cases h

theorem Store.ofPhase_dependencies {store : Store} (h : store.vertexGraph.2 = [])
    (visibility : UnitId → Visibility) :
    OfPhase .binding (store.dependencies visibility).diagnostics := by
  refine List.forall_mem_append.mpr ⟨?_, fun diagnostic hm => ?_⟩
  · change OfPhase .binding store.vertexGraph.2
    rw [h]
    exact ofPhase_nil _
  · obtain ⟨⟨_, registered⟩, _, hb⟩ := List.mem_flatMap.mp hm
    obtain ⟨binding, hb, hd⟩ := List.mem_filterMap.mp hb
    change binding ∈ store.bindings (visibility registered.id) registered at hb
    unfold bindings at hb
    split at hb
    · obtain ⟨found, _, rfl⟩ := List.mem_map.mp hb
      exact (Site.bind_report hd).2
    · cases hb

theorem DependencyGraph.ofPhase_cycles (graph : DependencyGraph) (store : Store) :
    OfPhase .cycles (graph.cycleDiagnostics store) := by
  intro diagnostic hm
  obtain ⟨cycle, _, hm⟩ := List.mem_flatMap.mp hm
  obtain ⟨unit, _, rfl⟩ := List.mem_map.mp hm
  rw [code_foldl_addRelated fun other => (store.locationOf other, "Part of the cycle")]
  rfl

theorem Hierarchy.ofPhase_topLevel (hierarchy : Hierarchy) :
    OfPhase .topLevel hierarchy.topLevelDiagnostics := by
  unfold topLevelDiagnostics
  split
  · exact ofPhase_nil _
  · split
    · exact ofPhase_singleton.mpr rfl
    · exact ofPhase_nil _
  · rw [ofPhase_singleton, relateCandidates,
      code_foldl_addRelated fun entry : String × UnitVertex =>
        (locationOf entry.1 entry.2, "Candidate")]
    rfl

theorem CompileOrder.ofPhase_cycles (order : CompileOrder) (store : Store) :
    OfPhase .compileOrder (order.cycleDiagnostics store) := by
  intro diagnostic hm
  obtain ⟨cycle, _, hm⟩ := List.mem_filterMap.mp hm
  split at hm
  · cases hm
  · cases hm
    rw [code_foldl_addRelated fun id => (store.documentLocation id, "Part of the cycle")]
    rfl

namespace Store

def visibilityOf (store : Store) (id : UnitId) : Visibility :=
  ((store.linkUnits.find? (·.id = id)).map LinkedUnit.visibility).getD {}

def reports (store : Store) : Phase → List Diagnostic
  | .linking => store.linkUnits.flatMap LinkedUnit.diagnostics
  | .binding => (store.analyze.store.dependencies store.visibilityOf).diagnostics
  | .cycles => store.analyze.analysis.dependency.cycleDiagnostics store.analyze.store
  | .topLevel => store.analyze.analysis.hierarchy.topLevelDiagnostics
  | .compileOrder => store.analyze.analysis.compileOrder.cycleDiagnostics store.analyze.store

variable {store : Store}

theorem diagnostics_analyze (store : Store) : store.analyze.analysis.diagnostics =
    store.reports .linking ++ store.reports .binding ++ store.reports .cycles ++
      store.reports .topLevel ++ store.reports .compileOrder := by
  unfold analyze
  rfl

theorem ofPhase_reports (h : store.analyze.store.vertexGraph.2 = []) (phase : Phase) :
    OfPhase phase (store.reports phase) := by
  cases phase with
  | linking =>
    intro diagnostic hd
    obtain ⟨linked, hm, hd⟩ := List.mem_flatMap.mp hd
    obtain ⟨library, _, kind, _, id, _, unit, _, rfl⟩ := mem_linkUnits_iff.mp hm
    rcases ((store.log_linkUnit library id unit).1 diagnostic hd).code with hc | hc
    · exact ErrorCode.phase?_of_isLinkError hc
    · rw [hc]
      rfl
  | binding => exact ofPhase_dependencies h _
  | cycles => exact store.analyze.analysis.dependency.ofPhase_cycles store.analyze.store
  | topLevel => exact store.analyze.analysis.hierarchy.ofPhase_topLevel
  | compileOrder => exact store.analyze.analysis.compileOrder.ofPhase_cycles store.analyze.store

/-- Without a collision of keys the diagnostics with codes of one phase are those that this phase
reports. -/
theorem filter_diagnostics_analyze (h : store.analyze.store.vertexGraph.2 = []) {phase : Phase}
    {p : Diagnostic → Bool} (hp : ∀ diagnostic, p diagnostic = true →
      diagnostic.code.phase? = some phase) :
    store.analyze.analysis.diagnostics.filter p = (store.reports phase).filter p := by
  have hn : ∀ other, other ≠ phase → (store.reports other).filter p = [] := by
    refine fun other hne => List.filter_eq_nil_iff.mpr fun diagnostic hm hd => hne ?_
    exact Option.some.inj ((ofPhase_reports h other diagnostic hm).symm.trans (hp diagnostic hd))
  rw [diagnostics_analyze]
  simp only [List.filter_append]
  cases phase <;> simp [hn]

theorem filter_code_analyze (h : store.analyze.store.vertexGraph.2 = []) {phase : Phase}
    {code : ErrorCode} (hc : ∀ {other : ErrorCode}, other.phase? = some phase ↔ other = code) :
    store.analyze.analysis.diagnostics.filter (·.code = code) = store.reports phase := by
  have hp : ∀ diagnostic : Diagnostic, decide (diagnostic.code = code) = true →
      diagnostic.code.phase? = some phase := fun _ hd => hc.mpr (of_decide_eq_true hd)
  rw [filter_diagnostics_analyze h hp, List.filter_eq_self]
  intro diagnostic hd
  exact decide_eq_true (hc.mp (ofPhase_reports h phase diagnostic hd))

theorem mem_reports (h : store.analyze.store.vertexGraph.2 = []) {diagnostic : Diagnostic}
    (hd : diagnostic ∈ store.analyze.analysis.diagnostics) {phase : Phase}
    (hp : diagnostic.code.phase? = some phase) : diagnostic ∈ store.reports phase := by
  have hf := filter_diagnostics_analyze h (p := (·.code.phase? = some phase)) fun _ =>
    of_decide_eq_true
  exact List.mem_of_mem_filter (hf ▸ List.mem_filter.mpr ⟨hd, decide_eq_true hp⟩)

theorem filter_diagnosticsFor_analyze (h : store.analyze.store.vertexGraph.2 = []) {phase : Phase}
    {p : Diagnostic → Bool} (hp : ∀ diagnostic, p diagnostic = true →
      diagnostic.code.phase? = some phase) (id : UnitId) :
    (store.analyze.analysis.diagnosticsFor id).filter p =
      ((store.reports phase).filter (·.unit? = some id)).filter p := by
  rw [Analysis.diagnosticsFor, List.filter_comm, filter_diagnostics_analyze h hp, List.filter_comm]

/-- Without a collision of keys an analysis reports no internal error. -/
theorem noneInternal_analyze (h : store.analyze.store.vertexGraph.2 = []) :
    ∀ diagnostic ∈ store.analyze.analysis.diagnostics, diagnostic.code ≠ .internal := by
  have hn : ∀ phase, ∀ diagnostic ∈ store.reports phase, diagnostic.code ≠ .internal := by
    intro phase diagnostic hm hc
    have hp := ofPhase_reports h phase diagnostic hm
    rw [hc] at hp
    cases hp
  rw [diagnostics_analyze]
  simp only [List.forall_mem_append]
  exact ⟨⟨⟨⟨hn _, hn _⟩, hn _⟩, hn _⟩, hn _⟩

end Store

end Vhdl
