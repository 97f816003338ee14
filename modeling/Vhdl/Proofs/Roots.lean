import Vhdl.Proofs.InstanceEdges

/-! # Roots of the hierarchy

The hierarchy keeps the entities and architectures of the dependency graph in their order. Its roots
are the architectures and the entities without architectures that nothing else instantiates, neither
by themselves nor, for an architecture, by its entity.
-/

namespace Vhdl

namespace Hierarchy

theorem target?_graphOf (graph : DependencyGraph) (place : Nat) :
    (graphOf graph).target? place = (kept graph)[place]?.bind graph.target? := by
  rw [DependencyGraph.target?, Graph.label?, Graph.vertex?, vertices_graphOf_getElem?]
  cases (kept graph)[place]? <;> rfl

theorem pairwise_roots (graph : DependencyGraph) : (ofDependency graph).roots.Pairwise (· < ·) := by
  unfold ofDependency
  generalize graph.numbered.filter _ = entries
  have hp : entries.zipIdx.Pairwise (·.2 < ·.2) := by
    rw [← List.pairwise_map, List.zipIdx_map_snd]
    exact List.pairwise_lt_range'
  refine hp.filterMap _ fun a b hlt x hx y hy => ?_
  obtain ⟨_, hx⟩ := Option.ite_none_right_eq_some.mp hx
  obtain ⟨_, hy⟩ := Option.ite_none_right_eq_some.mp hy
  rwa [← Option.some.inj hx, ← Option.some.inj hy]

end Hierarchy

namespace Store

def LinkedTo (store : Store) (id entity : UnitId) : Prop :=
  store.HasUnit id fun _ unit =>
    unit.kind = .architecture ∧ unit.primaryTarget = some (.unit entity)

def IsHierarchical (store : Store) (id : UnitId) : Prop :=
  store.HasUnit id fun _ unit => unit.kind = .entity ∨ unit.kind = .architecture

/-- An instance in the architecture binds to the unit, and does not just refer to it. -/
def Instantiates (store : Store) (id target : UnitId) : Prop :=
  ∃ kind, kind.edgeClass = .instantiates ∧ store.InstanceBinds id kind target

/-- The unit can be at the top of a design: it is an architecture that no other one instantiates, or
an entity that has no architectures and is not instantiated. The instances of its entity count as
instances of an architecture. -/
def Top (store : Store) (id : UnitId) : Prop :=
  store.HasUnit id fun own unit => store.config.isPredefined own.name = false ∧
    (unit.kind = .architecture ∧ (∀ other, other ≠ id → ¬ store.Instantiates other id) ∧
        (∀ entity, unit.primaryTarget = some (.unit entity) →
          ∀ other, ¬ store.Instantiates other entity) ∨
      unit.kind = .entity ∧ (∀ other, ¬ store.LinkedTo other id) ∧
        ∀ other, ¬ store.Instantiates other id)

variable {store : Store} {id : UnitId} {P Q : Library → DesignUnit → Prop}

theorem HasUnit.imp (h : store.HasUnit id P) (hi : ∀ own unit, P own unit → Q own unit) :
    store.HasUnit id Q := by
  obtain ⟨library, hm, unit, hu, hp⟩ := h
  exact ⟨library, hm, unit, hu, hi library unit hp⟩

theorem Registry.hasUnit_and (h : store.Registry) (hp : store.HasUnit id P)
    (hq : store.HasUnit id Q) : store.HasUnit id fun own unit => P own unit ∧ Q own unit := by
  obtain ⟨library, hm, unit, hu, hp⟩ := hp
  obtain ⟨_, hm', _, hu', hq⟩ := hq
  obtain ⟨rfl, rfl⟩ := h.library_unique hm hm' hu hu'
  exact ⟨library, hm, unit, hu, hp, hq⟩

theorem Registry.kind_unique (h : store.Registry) {kind other : UnitKind}
    (hp : store.HasUnit id fun _ unit => unit.kind = kind)
    (hq : store.HasUnit id fun _ unit => unit.kind = other) : kind = other := by
  obtain ⟨_, _, _, _, hx, hy⟩ := h.hasUnit_and hp hq
  exact hx.symm.trans hy

theorem Registry.vertex_cases (h : store.Registry) {key : String} {vertex : UnitVertex}
    (hv : (key, vertex) ∈ store.vertices) :
    (vertex.kind = .library ∧ ∃ library, vertex.target = .library library) ∨
      ∃ id, vertex.target = .unit id ∧ store.HasUnit id fun own unit =>
        vertex.kind = .unit unit.kind ∧ vertex.predefined = store.config.isPredefined own.name := by
  rcases h.mem_vertices.mp hv with ⟨library, _, he⟩ | ⟨registered, hr, he⟩
  · cases he
    exact .inl ⟨rfl, library.id, rfl⟩
  · obtain ⟨hm, _, hu⟩ := h.registered?_iff.mp hr
    cases he
    exact .inr ⟨registered.id, rfl, registered.library, hm, registered.unit, hu, rfl, rfl⟩

end Store

/-- The graphs of an analysis say exactly what the linked units and their instances say. -/
structure Analysis.Faithful (analysis : Analysis) (store : Store) : Prop where
  settled : store.Settled
  vertices : analysis.dependency.vertices = store.vertices
  keyed : analysis.dependency.Keyed
  links : analysis.dependency.LinksExact store
  instances : analysis.InstancesExact store
  hierarchy : analysis.hierarchy = .ofDependency analysis.dependency

theorem Store.Registry.faithful_analyze {store : Store} (h : store.Registry) :
    store.analyze.analysis.Faithful store.analyze.store where
  settled := h.settled_analyze
  vertices := by
    rw [dependency_analyze]
    exact h.analyze.vertices_dependencies _
  keyed := h.keyed_analyze
  links := h.linksExact_analyze
  instances := h.instancesExact_analyze
  hierarchy := store.hierarchy_analyze

theorem DesignUnit.mem_architecture_slot_iff {unit : DesignUnit} {target : Target} :
    (.entityImplementation, some target) ∈ unit.slots ↔
      unit.kind = .architecture ∧ unit.primaryTarget = some target := by
  simp only [mem_slots_iff, List.mem_append, mem_implemented_iff]
  constructor
  · rintro ((hr | ⟨hk, ht, _⟩) | ⟨_, _, he⟩)
    · cases edgeClass_of_mem_references hr
    · exact ⟨hk, ht⟩
    · cases he
  · rintro ⟨hk, ht⟩
    exact .inl (.inr ⟨hk, ht, trivial⟩)

theorem EdgeKind.isLinked_of_instantiates {kind : EdgeKind} (h : kind.edgeClass = .instantiates) :
    kind.isLinked = false := by
  cases kind <;> first | rfl | cases h

namespace Store

variable {store : Store} {id entity : UnitId}

theorem Top.isHierarchical (h : store.Top id) : store.IsHierarchical id :=
  h.imp fun _ _ ⟨_, hx⟩ => hx.elim (fun ha => .inr ha.1) fun he => .inl he.1

theorem LinkedTo.architecture (h : store.LinkedTo id entity) :
    store.HasUnit id fun _ unit => unit.kind = .architecture :=
  h.imp fun _ _ hl => hl.1

theorem Instantiates.architecture {target : UnitId} (h : store.Instantiates id target) :
    store.HasUnit id fun _ unit => unit.kind = .architecture := by
  obtain ⟨_, _, hb⟩ := h
  exact hb.imp fun _ _ hl => hl.1

theorem Settled.entity_of_linkedTo (h : store.Settled) (hl : store.LinkedTo id entity)
    {P : Library → Prop} (hp : store.HasUnit id fun own _ => P own) :
    store.HasUnit entity fun own unit => P own ∧ unit.kind = .entity := by
  obtain ⟨library, hm, unit, hu, ⟨hk, ht⟩, hp⟩ := h.registry.hasUnit_and hl hp
  obtain ⟨_, _, found, hf, he, _⟩ := (h.primaryTarget_iff hm hu hk).mp ht
  exact ⟨library, hm, found, hf, hp, he⟩

theorem Settled.linkedTo_entity (h : store.Settled) (hl : store.LinkedTo id entity) :
    store.HasUnit entity fun _ unit => unit.kind = .entity :=
  (h.entity_of_linkedTo hl (hl.imp fun _ _ _ => trivial)).imp fun _ _ he => he.2

theorem Settled.ne_of_entity (h : store.Settled)
    (ha : store.HasUnit id fun _ unit => unit.kind = .architecture)
    (he : store.HasUnit entity fun _ unit => unit.kind = .entity) : id ≠ entity := by
  rintro rfl
  cases h.registry.kind_unique ha he

/-- The two ways to be at the top differ in what holds of every entity or of every architecture. -/
theorem Settled.top_iff (h : store.Settled) {library : Library} {unit : DesignUnit}
    (hm : library ∈ store.libraries) (hu : store.unitIn? library.id id = some unit)
    (hk : unit.kind = .entity ∨ unit.kind = .architecture) :
    store.Top id ↔ store.config.isPredefined library.name = false ∧
      ((∀ other, ¬ store.LinkedTo other id) ∧ ¬ ∃ other, other ≠ id ∧ store.Instantiates other id) ∧
      ∀ entity, store.LinkedTo id entity → ∀ other, ¬ store.Instantiates other entity := by
  constructor
  · rintro ⟨_, hm', _, hu', hp, hx⟩
    obtain ⟨rfl, rfl⟩ := h.registry.library_unique hm hm' hu hu'
    rcases hx with ⟨ha, hn, ho⟩ | ⟨he, hl, hn⟩
    · refine ⟨hp, ⟨fun other hl => ?_, fun ⟨other, hne, hi⟩ => hn other hne hi⟩,
        fun entity hl => ?_⟩
      · exact h.ne_of_entity ⟨library, hm, unit, hu, ha⟩ (h.linkedTo_entity hl) rfl
      · obtain ⟨_, hm', _, hu', _, ht⟩ := hl
        obtain ⟨_, rfl⟩ := h.registry.library_unique hm hm' hu hu'
        exact ho entity ht
    · refine ⟨hp, ⟨hl, fun ⟨other, _, hi⟩ => hn other hi⟩, fun entity hl => ?_⟩
      exact (h.ne_of_entity hl.architecture ⟨library, hm, unit, hu, he⟩ rfl).elim
  · rintro ⟨hp, ⟨hl, hn⟩, ho⟩
    refine ⟨library, hm, unit, hu, hp, ?_⟩
    rcases hk with he | ha
    · have hne : ∀ other, store.Instantiates other id → other ≠ id := fun other hi =>
        h.ne_of_entity hi.architecture ⟨library, hm, unit, hu, he⟩
      exact .inr ⟨he, hl, fun other hi => hn ⟨other, hne other hi, hi⟩⟩
    · exact .inl ⟨ha, fun other hne hi => hn ⟨other, hne, hi⟩,
        fun entity ht => ho entity ⟨library, hm, unit, hu, ha, ht⟩⟩

end Store

theorem DependencyGraph.IsUnit.exists_target? {graph : DependencyGraph} {store : Store}
    {number : Nat} {library : LibraryId} {kind : UnitKind}
    (h : graph.IsUnit store number library kind) :
    ∃ id, graph.target? number = some (.unit id) := by
  obtain ⟨vertex, id, _, hl, _, ht, _⟩ := h
  exact ⟨id, by rw [target?, hl, Option.map_some, ht]⟩

namespace Analysis.Faithful

variable {analysis : Analysis} {store : Store} {number : Nat} {id : UnitId}

theorem target?_inj (h : analysis.Faithful store) {a b : Nat} {target : Target}
    (ha : analysis.dependency.target? a = some target)
    (hb : analysis.dependency.target? b = some target) : a = b :=
  h.settled.registry.target?_inj h.vertices ha hb

theorem isInstantiated_iff (h : analysis.Faithful store)
    (ht : analysis.dependency.target? number = some (.unit id)) :
    analysis.dependency.isInstantiated number = true ↔
      ∃ other, other ≠ id ∧ store.Instantiates other id := by
  rw [DependencyGraph.isInstantiated_iff_edges]
  constructor
  · rintro ⟨⟨source, _, kind⟩, he, rfl, hc⟩
    have hk := EdgeKind.isLinked_of_instantiates hc
    obtain ⟨other, _, hs, _⟩ := h.instances.ends _ he hk
    obtain ⟨hne, hb⟩ := (h.instances.edge_iff kind hk other id).mp ⟨source, _, hs, ht, he⟩
    exact ⟨other, hne.symm, kind, hc, hb⟩
  · rintro ⟨other, hne, kind, hc, hb⟩
    have hk := EdgeKind.isLinked_of_instantiates hc
    obtain ⟨_, _, _, hd, he⟩ := (h.instances.edge_iff kind hk other id).mpr ⟨hne.symm, hb⟩
    exact ⟨_, he, h.target?_inj hd ht, hc⟩

theorem connects_linkedTo_iff (h : analysis.Faithful store) {a b : UnitId} :
    analysis.dependency.Connects .entityImplementation (.unit a) (.unit b) ↔
      store.LinkedTo a b := by
  constructor
  · rintro ⟨source, destination, hs, hd, he⟩
    obtain ⟨_, _, unit, _, hx, hy, hu, hm⟩ := (h.links.edge_iff _ _ _ rfl).mp he
    obtain rfl := DependencyGraph.unit_unique hx hs
    obtain rfl := Option.some.inj (hy.symm.trans hd)
    obtain ⟨library, hl, hin⟩ := h.settled.registry.exists_library hu
    exact ⟨library, hl, unit, hin, DesignUnit.mem_architecture_slot_iff.mp hm⟩
  · intro hl
    have hne := h.settled.ne_of_entity hl.architecture (h.settled.linkedTo_entity hl)
    obtain ⟨library, hm, unit, hu, hk⟩ := hl
    have hslot := DesignUnit.mem_architecture_slot_iff.mpr hk
    have hunit := Store.unit?_of_unitIn? hu
    obtain ⟨⟨source, hs⟩, destination, hd⟩ := h.links.complete a unit _ _ hunit hslot
    refine ⟨source, destination, hs, hd, (h.links.edge_iff _ _ _ rfl).mpr
      ⟨fun he => hne ?_, a, unit, .unit b, hs, hd, hunit, hslot⟩⟩
    rw [he] at hs
    exact DependencyGraph.unit_unique hs hd

theorem linkedTo_of_edge (h : analysis.Faithful store) {source destination : Nat}
    (he : ⟨source, destination, .entityImplementation⟩ ∈ analysis.dependency.edges) :
    ∃ a b, analysis.dependency.target? source = some (.unit a) ∧
      analysis.dependency.target? destination = some (.unit b) ∧ store.LinkedTo a b := by
  obtain ⟨_, _, hs, hd⟩ := h.links.implementations _ he _ _ rfl
  obtain ⟨a, ha⟩ := hs.exists_target?
  obtain ⟨b, hb⟩ := hd.exists_target?
  exact ⟨a, b, ha, hb, h.connects_linkedTo_iff.mp ⟨source, destination, ha, hb, he⟩⟩

/-- Entities and architectures have no part in the implementation of packages. -/
theorem weight_of_implements (h : analysis.Faithful store) {edge : Edge EdgeKind}
    (he : edge ∈ analysis.dependency.edges) (hc : edge.weight.edgeClass = .implements)
    (hend : analysis.dependency.target? edge.source = some (.unit id) ∨
      analysis.dependency.target? edge.target = some (.unit id))
    (hid : store.IsHierarchical id) :
    edge.weight = .entityImplementation := by
  have hne : ∀ {place : Nat} {library : Library} {kind : UnitKind}, library ∈ store.libraries →
      analysis.dependency.IsUnit store place library.id kind →
      analysis.dependency.target? place = some (.unit id) →
      kind = .entity ∨ kind = .architecture := by
    rintro place library kind hm ⟨vertex, other, unit, hl, _, ht, hu, rfl⟩ hp
    rw [DependencyGraph.target?, hl, Option.map_some, ht] at hp
    obtain rfl := Target.unit.inj (Option.some.inj hp)
    obtain ⟨_, hm', _, hu', hk⟩ := hid
    obtain ⟨rfl, rfl⟩ := h.settled.registry.library_unique hm hm' hu hu'
    exact hk
  cases hw : edge.weight with
  | entityImplementation => rfl
  | packageImplementation =>
    obtain ⟨library, hm, hs, ht⟩ := h.links.implementations edge he _ _ (by rw [hw]; rfl)
    rcases hend with hp | hp
    · rcases hne hm hs hp with hk | hk <;> cases hk
    · rcases hne hm ht hp with hk | hk <;> cases hk
  | _ =>
    rw [hw] at hc
    cases hc

theorem implementations_eq_nil_iff (h : analysis.Faithful store)
    (ht : analysis.dependency.target? number = some (.unit id))
    (hid : store.IsHierarchical id) :
    analysis.dependency.implementations number = [] ↔ ∀ other, ¬ store.LinkedTo other id := by
  rw [List.eq_nil_iff_forall_not_mem]
  simp only [DependencyGraph.mem_implementations_iff]
  constructor
  · intro hn other hl
    obtain ⟨source, destination, _, hd, he⟩ := h.connects_linkedTo_iff.mpr hl
    exact hn source ⟨_, he, rfl, h.target?_inj hd ht, rfl⟩
  · rintro hn _ ⟨⟨source, _, kind⟩, he, rfl, rfl, hc⟩
    obtain rfl : kind = _ := h.weight_of_implements he hc (.inr ht) hid
    obtain ⟨other, _, _, hd, hl⟩ := h.linkedTo_of_edge he
    obtain rfl := DependencyGraph.unit_unique hd ht
    exact hn other hl

theorem implemented?_free_iff (h : analysis.Faithful store)
    (ht : analysis.dependency.target? number = some (.unit id))
    (hid : store.IsHierarchical id) :
    (∀ owner, analysis.dependency.implemented? number = some owner →
        ¬ analysis.dependency.isInstantiated owner = true) ↔
      ∀ entity, store.LinkedTo id entity → ∀ other, ¬ store.Instantiates other entity := by
  constructor
  · intro hn entity hl other hi
    obtain ⟨source, destination, hs, hd, he⟩ := h.connects_linkedTo_iff.mpr hl
    obtain rfl := h.target?_inj hs ht
    refine hn destination (h.keyed.implemented?_eq_some_iff.mpr ⟨_, he, rfl, rfl, rfl⟩) ?_
    exact (h.isInstantiated_iff hd).mpr
      ⟨other, h.settled.ne_of_entity hi.architecture (h.settled.linkedTo_entity hl), hi⟩
  · intro hn owner ho hi
    obtain ⟨⟨_, _, kind⟩, he, rfl, rfl, hc⟩ := h.keyed.implemented?_eq_some_iff.mp ho
    obtain rfl : kind = _ := h.weight_of_implements he hc (.inl ht) hid
    obtain ⟨_, entity, hs, hd, hl⟩ := h.linkedTo_of_edge he
    obtain rfl := DependencyGraph.unit_unique hs ht
    obtain ⟨other, _, hi⟩ := (h.isInstantiated_iff hd).mp hi
    exact hn entity hl other hi

theorem vertex_cases (h : analysis.Faithful store) {key : String} {vertex : UnitVertex}
    (hv : analysis.dependency.vertices[number]? = some (key, vertex)) :
    (vertex.kind = .library ∧ ∃ library, vertex.target = .library library) ∨
      ∃ id, vertex.target = .unit id ∧ store.HasUnit id fun own unit =>
        vertex.kind = .unit unit.kind ∧ vertex.predefined = store.config.isPredefined own.name :=
  h.settled.registry.vertex_cases (h.vertices ▸ List.mem_of_getElem? hv)

theorem hasUnit_of_vertex (h : analysis.Faithful store) {key : String} {vertex : UnitVertex}
    (hv : analysis.dependency.vertices[number]? = some (key, vertex))
    (ht : vertex.target = .unit id) : store.HasUnit id fun own unit =>
      vertex.kind = .unit unit.kind ∧ vertex.predefined = store.config.isPredefined own.name := by
  rcases h.vertex_cases hv with ⟨_, _, hl⟩ | ⟨_, hx, hu⟩
  · cases hl.symm.trans ht
  · exact Target.unit.inj (hx.symm.trans ht) ▸ hu

theorem mem_kept_iff (h : analysis.Faithful store) :
    number ∈ Hierarchy.kept analysis.dependency ↔
      ∃ id, analysis.dependency.target? number = some (.unit id) ∧ store.IsHierarchical id := by
  simp only [Hierarchy.mem_kept_iff, DependencyGraph.target?_eq_some_iff]
  constructor
  · rintro ⟨key, vertex, hv, hh⟩
    rcases h.vertex_cases hv with ⟨hk, _⟩ | ⟨id, ht, hu⟩
    · simp [Hierarchy.isHierarchical, hk] at hh
    · exact ⟨id, ⟨key, vertex, hv, ht⟩, hu.imp fun own unit hx => by
        simpa [Hierarchy.isHierarchical, hx.1] using hh⟩
  · rintro ⟨id, ⟨key, vertex, hv, ht⟩, hid⟩
    obtain ⟨_, _, unit, _, ⟨hk, _⟩, hid⟩ :=
      h.settled.registry.hasUnit_and (h.hasUnit_of_vertex hv ht) hid
    exact ⟨key, vertex, hv, by simpa [Hierarchy.isHierarchical, hk] using hid⟩

/-- The vertex of an entity or architecture is a root if the unit can be at the top. -/
theorem isRoot_iff (h : analysis.Faithful store) {key : String} {vertex : UnitVertex}
    (hv : analysis.dependency.vertices[number]? = some (key, vertex))
    (ht : analysis.dependency.target? number = some (.unit id)) (hid : store.IsHierarchical id) :
    Hierarchy.isRoot analysis.dependency number vertex = true ↔ store.Top id := by
  have hx : vertex.target = .unit id := by
    simpa [DependencyGraph.target?, Graph.label?, Graph.vertex?, hv] using ht
  obtain ⟨library, hl, unit, hu, ⟨_, hp⟩, hk⟩ :=
    h.settled.registry.hasUnit_and (h.hasUnit_of_vertex hv hx) hid
  rw [DependencyGraph.isRoot_iff_edges, h.implementations_eq_nil_iff ht hid,
    h.isInstantiated_iff ht, h.implemented?_free_iff ht hid, hp, h.settled.top_iff hl hu hk]

end Analysis.Faithful

/-- The roots of the hierarchy are exact: they are the vertices of the units that can be at the top,
each of which has a vertex. They are listed without repetition in the order of the vertices, which
is that of the dependency graph. -/
structure Analysis.RootsExact (analysis : Analysis) (store : Store) : Prop where
  mem_iff : ∀ place, place ∈ analysis.hierarchy.roots ↔
    ∃ id, analysis.hierarchy.graph.target? place = some (.unit id) ∧ store.Top id
  complete : ∀ id, store.Top id → ∃ place, analysis.hierarchy.graph.target? place = some (.unit id)
  sorted : analysis.hierarchy.roots.Pairwise (· < ·)
  order : analysis.hierarchy.graph.vertices.Sublist analysis.dependency.vertices

namespace Analysis.Faithful

variable {analysis : Analysis} {store : Store}

theorem target?_hierarchy (h : analysis.Faithful store) (place : Nat) :
    analysis.hierarchy.graph.target? place =
      (Hierarchy.kept analysis.dependency)[place]?.bind analysis.dependency.target? := by
  rw [h.hierarchy]
  exact Hierarchy.target?_graphOf _ place

theorem exists_place (h : analysis.Faithful store) {id : UnitId} (hid : store.IsHierarchical id) :
    ∃ place, analysis.hierarchy.graph.target? place = some (.unit id) := by
  have ⟨_, _, _, hu, _⟩ := hid
  obtain ⟨number, ht⟩ :=
    h.settled.registry.exists_unit_target? h.vertices (Store.unit?_of_unitIn? hu)
  obtain ⟨place, hp⟩ := List.mem_iff_getElem?.mp (h.mem_kept_iff.mpr ⟨id, ht, hid⟩)
  exact ⟨place, by rw [h.target?_hierarchy, hp, Option.bind_some, ht]⟩

theorem rootsExact (h : analysis.Faithful store) : analysis.RootsExact store where
  mem_iff place := by
    rw [h.target?_hierarchy, h.hierarchy, Hierarchy.mem_roots_iff]
    constructor
    · rintro ⟨number, key, vertex, hp, hv, hr⟩
      obtain ⟨id, ht, hid⟩ := h.mem_kept_iff.mp (List.mem_of_getElem? hp)
      exact ⟨id, by rw [hp, Option.bind_some, ht], (h.isRoot_iff hv ht hid).mp hr⟩
    · rintro ⟨id, hb, htop⟩
      obtain ⟨number, hp, ht⟩ := Option.bind_eq_some_iff.mp hb
      obtain ⟨key, vertex, hv, _⟩ := DependencyGraph.target?_eq_some_iff.mp ht
      exact ⟨number, key, vertex, hp, hv, (h.isRoot_iff hv ht htop.isHierarchical).mpr htop⟩
  complete _ htop := h.exists_place htop.isHierarchical
  sorted := h.hierarchy ▸ Hierarchy.pairwise_roots _
  order := by
    rw [h.hierarchy]
    exact Hierarchy.vertices_graphOf analysis.dependency ▸ List.filter_sublist

end Analysis.Faithful

/-- After an analysis of a reachable design the roots of the hierarchy are exactly the architectures
and entities at the top. -/
theorem Design.Reachable.roots_exact {design : Design} (h : design.Reachable) :
    ∃ analysis, design.analyze.design.analysis = some analysis ∧
      analysis.RootsExact design.analyze.design.store :=
  ⟨_, rfl, h.grounded.built.registry.faithful_analyze.rootsExact⟩

/-- An entity that is instantiated by name with its two architectures, an entity without
architectures, an architecture that instantiates itself, and one whose entity is missing. The first
library is predefined. -/
def Design.engineUnits : List DesignUnit :=
  let piston : Identifier := ⟨"piston", by decide +kernel⟩
  let crank : Identifier := ⟨"crank", by decide +kernel⟩
  let shaft : Identifier := ⟨"shaft", by decide +kernel⟩
  let wheel : Identifier := ⟨"wheel", by decide +kernel⟩
  let unlabelled (unit : InstantiatedUnit) : ConcStmt := .mk none (.instantiation { unit })
  [{ ident := wheel, body := .entity none none [] [] },
    { ident := piston, body := .entity none none [] [] },
    { ident := ⟨"short", by decide +kernel⟩, body := .architecture { item := piston } [] [] },
    { ident := ⟨"long", by decide +kernel⟩, body := .architecture { item := piston } [] [] },
    { ident := shaft, body := .entity none none [] [] },
    { ident := crank, body := .entity none none [] [] },
    { ident := wheel
      body := .architecture { item := crank } []
        [.mk none (.block [] [unlabelled (.component (.simple piston))]),
          unlabelled (.entity (.simple crank) (some wheel))] },
    { ident := ⟨"orphan", by decide +kernel⟩, body := .architecture { item := wheel } [] [] }]

def Design.engines : Design :=
  let design := ((withConfig {}).createLibrary "ieee").design
  let design := (design.createLibrary "garage").design
  let design := (design.addDocument { units := engineUnits.take 1 } ⟨0⟩).design
  (design.addDocument { units := engineUnits.drop 1 } ⟨1⟩).design

theorem Design.engines_roots : engines.Reachable ∧
    (engines.analyze.design.analysis.map fun analysis =>
      (analysis.hierarchy.roots, analysis.hierarchy.rootKeys)) =
      some ([4, 6, 7], ["garage.shaft", "garage.crank(wheel)", "garage.wheel(orphan)"]) ∧
    ∃ analysis, engines.analyze.design.analysis = some analysis ∧
      analysis.RootsExact engines.analyze.design.store :=
  have h : engines.Reachable :=
    .addDocument _ _ (.addDocument _ _ (.createLibrary _ (.createLibrary _ (.start _))))
  ⟨h, by decide +kernel, h.roots_exact⟩

end Vhdl
