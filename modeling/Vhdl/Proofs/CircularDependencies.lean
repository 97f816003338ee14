import Vhdl.Proofs.Components
import Vhdl.Proofs.Roots

/-! # Circular dependencies

A library depends on nothing, so that the components of a dependency graph with more than one vertex
consist of units. Each unit of such a component is reported once, together with all others of the
component.
-/

namespace Vhdl

/-- Groups without a common member have an entry for each member. A filter for one member leaves its
entry. -/
theorem filter_groups_of_nodup {α β : Type} {entry : List α → α → β} {p : β → Bool}
    {groups : List (List α)} (hn : groups.flatten.Nodup) {group : List α} (hg : group ∈ groups)
    {x : α} (hx : x ∈ group)
    (hp : ∀ other ∈ groups, ∀ y ∈ other, p (entry other y) = true ↔ y = x) :
    (groups.flatMap fun group => group.map (entry group)).filter p = [entry group x] := by
  let pairs := groups.flatMap fun group => group.map (Prod.mk group)
  have hmem : ∀ pair ∈ pairs, pair.1 ∈ groups ∧ pair.2 ∈ pair.1 := by
    intro pair hm
    obtain ⟨other, ho, y, hy, rfl⟩ : ∃ other ∈ groups, ∃ y ∈ other, (other, y) = pair := by
      simpa [pairs] using hm
    exact ⟨ho, hy⟩
  have hkeys : pairs.map Prod.snd = groups.flatten := by
    simp [pairs, List.map_flatMap, Function.comp_def]
  have hentries : (groups.flatMap fun group => group.map (entry group)) =
      pairs.flatMap fun pair => [entry pair.1 pair.2] := by
    simp [pairs, List.flatMap_assoc, List.map_eq_flatMap]
  rw [hentries]
  refine filter_flatMap_of_nodup (x := (group, x)) (hkeys ▸ hn) ?_ ?_
  · exact List.mem_flatMap.mpr ⟨group, hg, List.mem_map_of_mem hx⟩
  · intro pair hm other ho
    rw [List.mem_singleton.mp ho]
    exact hp pair.1 (hmem pair hm).1 pair.2 (hmem pair hm).2

namespace DependencyGraph

variable {graph : DependencyGraph} {members : List Nat} {number : Nat} {u v : UnitId}

/-- The second unit is another one, which the first unit reaches and which reaches it. -/
def Entangled (graph : DependencyGraph) (u v : UnitId) : Prop :=
  u ≠ v ∧ ∃ x y, graph.target? x = some (.unit u) ∧ graph.target? y = some (.unit v) ∧
    graph.Reaches x y ∧ graph.Reaches y x

theorem Entangled.symm (h : graph.Entangled u v) : graph.Entangled v u := by
  obtain ⟨hne, x, y, hx, hy, hxy, hyx⟩ := h
  exact ⟨hne.symm, y, x, hy, hx, hyx, hxy⟩

def unitsAmong (graph : DependencyGraph) (members : List Nat) : List UnitId :=
  members.filterMap fun number => (graph.label? number).bind UnitVertex.unit?

theorem label?_bind_unit?_iff :
    (graph.label? number).bind UnitVertex.unit? = some u ↔ graph.target? number = some (.unit u) := by
  rw [target?]
  cases graph.label? number <;> simp [UnitVertex.unit?, Target.unit?_eq_some_iff]

theorem mem_unitsAmong_iff : u ∈ graph.unitsAmong members ↔
    ∃ number ∈ members, graph.target? number = some (.unit u) := by
  simp only [unitsAmong, List.mem_filterMap, label?_bind_unit?_iff]

end DependencyGraph

def Store.circularReport (store : Store) (units : List UnitId) (unit : UnitId) : Diagnostic :=
  { Diagnostic.circularDependency (store.locationOf unit) with
    related := (units.filter (· ≠ unit)).map fun other =>
      (store.locationOf other, "Part of the cycle") }

theorem DependencyGraph.cycleDiagnostics_eq (graph : DependencyGraph) (store : Store) :
    graph.cycleDiagnostics store = (graph.cycles.map graph.unitsAmong).flatMap fun units =>
      units.map (store.circularReport units) := by
  rw [List.flatMap_map, cycleDiagnostics]
  refine List.flatMap_congr fun members _ => List.map_congr_left fun unit _ => ?_
  rw [Diagnostic.foldl_addRelated fun other => (store.locationOf other, "Part of the cycle")]
  rfl

namespace Analysis.Faithful

variable {analysis : Analysis} {store : Store} {members : List Nat} {x y : Nat} {u v : UnitId}

theorem closed (h : analysis.Faithful store) : analysis.dependency.Closed :=
  h.keyed.ends

theorem exists_unit_of_step (h : analysis.Faithful store) (hs : analysis.dependency.Step x y) :
    ∃ u, analysis.dependency.target? x = some (.unit u) := by
  obtain ⟨edge, he, rfl, _⟩ := hs
  obtain ⟨_, _, _, hu⟩ := h.links.sources edge he
  exact hu.exists_target?

theorem exists_unit_of_mem (h : analysis.Faithful store)
    (hm : members ∈ analysis.dependency.cycles) (hx : x ∈ members) :
    ∃ u, analysis.dependency.target? x = some (.unit u) := by
  obtain ⟨y, hy, hne⟩ := h.closed.cyclesExact.exists_ne hm x
  have hc := (h.closed.cyclesExact.mem_iff_components hm hx).mp hy
  obtain ⟨_, hs⟩ := Graph.exists_step hc hne.symm
  exact h.exists_unit_of_step hs

/-- The other units of a cycle are those that a unit of the cycle is entangled with. -/
theorem mem_unitsAmong_iff_entangled (h : analysis.Faithful store)
    (hm : members ∈ analysis.dependency.cycles) (hu : u ∈ analysis.dependency.unitsAmong members) :
    v ∈ analysis.dependency.unitsAmong members ∧ v ≠ u ↔ analysis.dependency.Entangled u v := by
  obtain ⟨x, hx, hxu⟩ := DependencyGraph.mem_unitsAmong_iff.mp hu
  have hcycle := fun y => h.closed.cyclesExact.mem_iff_components hm hx (b := y)
  constructor
  · rintro ⟨hv, hne⟩
    obtain ⟨y, hy, hyv⟩ := DependencyGraph.mem_unitsAmong_iff.mp hv
    exact ⟨hne.symm, x, y, hxu, hyv, (hcycle y).mp hy⟩
  · rintro ⟨hne, z, y, hzu, hyv, hc⟩
    obtain rfl := h.target?_inj hxu hzu
    exact ⟨DependencyGraph.mem_unitsAmong_iff.mpr ⟨y, (hcycle y).mpr hc, hyv⟩, hne.symm⟩

theorem exists_entangled (h : analysis.Faithful store)
    (hm : members ∈ analysis.dependency.cycles) (hu : u ∈ analysis.dependency.unitsAmong members) :
    ∃ v, analysis.dependency.Entangled u v := by
  obtain ⟨x, hx, hxu⟩ := DependencyGraph.mem_unitsAmong_iff.mp hu
  obtain ⟨y, hy, hne⟩ := h.closed.cyclesExact.exists_ne hm x
  obtain ⟨v, hyv⟩ := h.exists_unit_of_mem hm hy
  refine ⟨v, (h.mem_unitsAmong_iff_entangled hm hu).mp
    ⟨DependencyGraph.mem_unitsAmong_iff.mpr ⟨y, hy, hyv⟩, ?_⟩⟩
  rintro rfl
  exact hne (h.target?_inj hyv hxu)

theorem exists_cycle_of_entangled (h : analysis.Faithful store)
    (he : analysis.dependency.Entangled u v) :
    ∃ members ∈ analysis.dependency.cycles, u ∈ analysis.dependency.unitsAmong members := by
  obtain ⟨hne, x, y, hxu, hyv, hc⟩ := he
  have hxy : x ≠ y := by
    rintro rfl
    exact hne (DependencyGraph.unit_unique hxu hyv)
  obtain ⟨members, hm, hx, _⟩ := h.closed.exists_cycle hc hxy
  exact ⟨members, hm, DependencyGraph.mem_unitsAmong_iff.mpr ⟨x, hx, hxu⟩⟩

theorem nodup_unitsAmong (h : analysis.Faithful store) :
    (analysis.dependency.cycles.map analysis.dependency.unitsAmong).flatten.Nodup := by
  unfold DependencyGraph.unitsAmong
  rw [← List.filterMap_flatten]
  refine h.closed.cyclesExact.nodup_flatten.filterMap fun x y u hx hy => ?_
  exact h.target?_inj (DependencyGraph.label?_bind_unit?_iff.mp hx)
    (DependencyGraph.label?_bind_unit?_iff.mp hy)

end Analysis.Faithful

def Analysis.circularFor (analysis : Analysis) (unit : UnitId) : List Diagnostic :=
  (analysis.diagnosticsFor unit).filter (·.code = .circularDependency)

/-- The reports of circular dependencies are exact: a unit has one if it is entangled with another
unit, and never two. It names all units that the unit is entangled with, each one once. -/
structure Analysis.CircularExact (analysis : Analysis) (store : Store) : Prop where
  reported_iff : ∀ unit,
    analysis.circularFor unit ≠ [] ↔ ∃ other, analysis.dependency.Entangled unit other
  once : ∀ unit, (analysis.circularFor unit).length ≤ 1
  located : ∀ diagnostic ∈ analysis.diagnostics, diagnostic.code = .circularDependency →
    ∃ unit, diagnostic.location = store.locationOf unit
  related : ∀ unit, ∀ diagnostic ∈ analysis.circularFor unit, diagnostic.related.Nodup ∧
    ∀ place, place ∈ diagnostic.related ↔ ∃ other, analysis.dependency.Entangled unit other ∧
      place = (store.locationOf other, "Part of the cycle")

namespace Store

variable {store : Store} {units : List UnitId} {unit : UnitId}

theorem unit?_circularReport : (store.circularReport units unit).unit? = some unit :=
  store.unit?_locationOf unit

theorem nodup_related_circularReport (h : units.Nodup) :
    (store.circularReport units unit).related.Nodup := by
  refine (h.filter _).map fun a b he => ?_
  have hu := congrArg Location.unit? (Prod.mk.inj he).1
  rw [unit?_locationOf, unit?_locationOf] at hu
  exact Option.some.inj hu

def circularGroups (store : Store) : List (List UnitId) :=
  store.analyze.analysis.dependency.cycles.map store.analyze.analysis.dependency.unitsAmong

theorem reports_cycles (store : Store) : store.reports .cycles =
    store.circularGroups.flatMap fun units => units.map (store.analyze.store.circularReport units) :=
  DependencyGraph.cycleDiagnostics_eq ..

theorem mem_reports_cycles_iff {diagnostic : Diagnostic} : diagnostic ∈ store.reports .cycles ↔
    ∃ units ∈ store.circularGroups, ∃ unit ∈ units,
      diagnostic = store.analyze.store.circularReport units unit := by
  simp only [reports_cycles, List.mem_flatMap, List.mem_map, eq_comm]

theorem Registry.circularFor_analyze (h : store.Registry) (unit : UnitId) :
    store.analyze.analysis.circularFor unit =
      (store.reports .cycles).filter (·.unit? = some unit) := by
  have hv := congrArg Prod.snd h.analyze.vertexGraph_eq
  rw [Analysis.circularFor, Analysis.diagnosticsFor, List.filter_comm,
    filter_code_analyze hv ErrorCode.phase?_eq_cycles_iff]

theorem Registry.circularFor_of_mem (h : store.Registry) (hg : units ∈ store.circularGroups)
    (hu : unit ∈ units) :
    store.analyze.analysis.circularFor unit =
      [store.analyze.store.circularReport units unit] := by
  rw [h.circularFor_analyze, reports_cycles]
  refine filter_groups_of_nodup h.faithful_analyze.nodup_unitsAmong hg hu ?_
  intro other _ v _
  rw [unit?_circularReport, decide_eq_true_eq, Option.some_inj]

theorem Registry.exists_group (h : store.Registry) {diagnostic : Diagnostic}
    (hd : diagnostic ∈ store.analyze.analysis.circularFor unit) :
    ∃ units ∈ store.circularGroups, unit ∈ units := by
  rw [h.circularFor_analyze, List.mem_filter, mem_reports_cycles_iff] at hd
  obtain ⟨⟨units, hg, other, ho, rfl⟩, hu⟩ := hd
  rw [unit?_circularReport, decide_eq_true_eq, Option.some_inj] at hu
  exact ⟨units, hg, hu ▸ ho⟩

theorem Registry.circularExact_analyze (h : store.Registry) :
    store.analyze.analysis.CircularExact store.analyze.store where
  reported_iff unit := by
    constructor
    · intro hn
      obtain ⟨diagnostic, hd⟩ := List.exists_mem_of_ne_nil _ hn
      obtain ⟨_, hg, hu⟩ := h.exists_group hd
      obtain ⟨members, hm, rfl⟩ := List.mem_map.mp hg
      exact h.faithful_analyze.exists_entangled hm hu
    · rintro ⟨other, he⟩
      obtain ⟨members, hm, hu⟩ := h.faithful_analyze.exists_cycle_of_entangled he
      rw [h.circularFor_of_mem (List.mem_map_of_mem hm) hu]
      simp
  once unit := by
    cases hc : store.analyze.analysis.circularFor unit with
    | nil => simp
    | cons diagnostic rest =>
      obtain ⟨units, hg, hu⟩ := h.exists_group (hc ▸ List.mem_cons_self)
      rw [← hc, h.circularFor_of_mem hg hu, List.length_singleton]
  located diagnostic hd hc := by
    have hm := mem_reports (congrArg Prod.snd h.analyze.vertexGraph_eq) hd
      (ErrorCode.phase?_eq_cycles_iff.mpr hc)
    obtain ⟨_, _, unit, _, rfl⟩ := mem_reports_cycles_iff.mp hm
    exact ⟨unit, rfl⟩
  related unit diagnostic hd := by
    obtain ⟨_, hg, hu⟩ := h.exists_group hd
    rw [h.circularFor_of_mem hg hu, List.mem_singleton] at hd
    have hn := (List.nodup_flatten.mp h.faithful_analyze.nodup_unitsAmong).1 _ hg
    obtain ⟨members, hm, rfl⟩ := List.mem_map.mp hg
    rw [hd]
    refine ⟨nodup_related_circularReport hn, fun place => ?_⟩
    simp only [circularReport, List.mem_map, List.mem_filter, decide_eq_true_eq,
      h.faithful_analyze.mem_unitsAmong_iff_entangled hm hu]
    exact exists_congr fun other => and_congr_right fun _ => eq_comm

end Store

/-- In every graph the cycles are the components with at least two vertices. An analysis therefore
reports a circular dependency at a unit exactly if another unit reaches it and is reached by it, and
the report names all units of which this holds. -/
theorem Design.circular_dependencies_exact :
    (∀ (κ ν ε : Type) [DecidableEq κ] [DecidableEq ε] (graph : Graph κ ν ε),
      graph.Made → graph.CyclesExact) ∧
    ∀ design : Design, design.Reachable → ∃ analysis,
      design.analyze.design.analysis = some analysis ∧
        design.analyze.answer = .ok analysis.diagnostics ∧
        analysis.CircularExact design.analyze.design.store :=
  ⟨fun _ _ _ _ _ _ h => h.closed.cyclesExact,
    fun _ h => ⟨_, rfl, rfl, h.grounded.built.registry.circularExact_analyze⟩⟩

def Graph.braid : Graph String Unit String :=
  let graph := ["a", "b", "c", "d", "e"].foldl (fun graph key => (graph.addVertex key ()).1) empty
  let edges : List (Edge String) :=
    [⟨4, 0, "x"⟩, ⟨2, 0, "x"⟩, ⟨0, 2, "x"⟩, ⟨1, 3, "x"⟩, ⟨1, 3, "y"⟩, ⟨3, 1, "x"⟩, ⟨2, 3, "x"⟩,
      ⟨4, 1, "y"⟩]
  edges.foldl (fun graph edge => (graph.addEdge edge).1) graph

theorem Graph.made_braid : braid.Made := by
  iterate 8 refine .addEdge _ (by decide) (by decide) ?_
  iterate 5 refine .addVertex _ _ ?_
  exact .empty

/-- Three packages in two documents that use each other in a ring, and an entity that uses one of
them. A library clause leads to the library of all four. -/
def Design.wagonUnits : List DesignUnit :=
  let here : Identifier := ⟨"wOrk", by decide +kernel⟩
  let wagon : Identifier := ⟨"wagon", by decide +kernel⟩
  let rim : Identifier := ⟨"rim", by decide +kernel⟩
  let spoke : Identifier := ⟨"spoke", by decide +kernel⟩
  let axle : Identifier := ⟨"axle", by decide +kernel⟩
  let uses (part : Identifier) : ContextItem :=
    .use [{ item := .all (.selected (.simple here) part) }]
  [{ ident := rim
     context := [.library [{ item := wagon }], uses spoke]
     body := .package none [] },
    { ident := spoke, context := [uses axle], body := .package none [] },
    { ident := ⟨"cart", by decide +kernel⟩
      context := [uses rim]
      body := .entity none none [] [] },
    { ident := axle, context := [uses rim], body := .package none [] }]

def Design.wagons : Design :=
  let design := ((withConfig {}).createLibrary "wagon").design
  let design := (design.addDocument { units := wagonUnits.take 2 } ⟨0⟩).design
  (design.addDocument { units := wagonUnits.drop 2 } ⟨0⟩).design

theorem Design.cycles_wagons :
    wagons.store.analyze.analysis.dependency.cycles = [[2, 3, 4]] := by
  let shape : Graph Unit Unit EdgeKind :=
    { vertices := List.replicate 5 ((), ())
      edges := [⟨1, 2, .useClause⟩, ⟨2, 0, .libraryClause⟩, ⟨2, 3, .useClause⟩,
        ⟨3, 4, .useClause⟩, ⟨4, 2, .useClause⟩] }
  have hshape : shape.cycles = [[2, 3, 4]] := by cbv
  rw [← hshape]
  exact Graph.cycles_congr (by decide +kernel) (by decide +kernel)

theorem Design.unitsAmong_wagons :
    wagons.store.analyze.analysis.dependency.unitsAmong [2, 3, 4] =
      [⟨⟨0⟩, 0⟩, ⟨⟨0⟩, 1⟩, ⟨⟨1⟩, 1⟩] := by
  decide +kernel

theorem Design.wagons_circular :
    (Graph.braid.Made ∧ Graph.braid.cycles = [[0, 2], [1, 3]] ∧ Graph.braid.CyclesExact) ∧
    wagons.Reachable ∧
    wagons.store.circularGroups = [[⟨⟨0⟩, 0⟩, ⟨⟨0⟩, 1⟩, ⟨⟨1⟩, 1⟩]] ∧
    ∃ analysis, wagons.analyze.design.analysis = some analysis ∧
      wagons.analyze.answer = .ok analysis.diagnostics ∧
      analysis.CircularExact wagons.analyze.design.store := by
  have hm := Graph.made_braid
  have h : wagons.Reachable :=
    .addDocument _ _ (.addDocument _ _ (.createLibrary _ (.start _)))
  refine ⟨⟨hm, by cbv, circular_dependencies_exact.1 _ _ _ _ hm⟩, h, ?_,
    circular_dependencies_exact.2 _ h⟩
  rw [Store.circularGroups, cycles_wagons, List.map_singleton, unitsAmong_wagons]

end Vhdl
