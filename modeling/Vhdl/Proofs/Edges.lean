import Vhdl.Proofs.KeyedGraph

/-! # Edges of the dependency graph

There is an edge wherever a unit depends on another unit or on a library, and there are no other
edges. By their keys the edges are those that the linked units and the bindings of their instances
tell.
-/

namespace Vhdl

namespace Graph

variable {κ ν ε : Type} [DecidableEq ε] {graph : Graph κ ν ε} {edge new : Edge ε}

theorem mem_edges_addEdge : edge ∈ (graph.addEdge new).1.edges ↔
    edge ∈ graph.edges ∨ edge = new ∧ new.source ≠ new.target := by
  unfold addEdge
  split
  · next hl => simp [hl]
  · next hl =>
    split
    · next hm =>
      have hn : new ∈ graph.edges := by simpa using hm
      exact ⟨.inl, fun h => h.elim id fun he => he.1 ▸ hn⟩
    · simp [hl]

end Graph

namespace DependencyGraph

variable {graph : DependencyGraph} {edge : Edge EdgeKind}

/-- The edge is that of a dependence from a vertex to another one that the target has. -/
def Realizes (graph : DependencyGraph) (edge : Edge EdgeKind) (entry : Nat × Dependence) : Prop :=
  edge.source = entry.1 ∧ graph.vertexOf? entry.2.target = some edge.target ∧
    edge.weight = entry.2.kind ∧ edge.source ≠ edge.target

theorem mem_edges_link {source : Nat} {dependence : Dependence} :
    edge ∈ (graph.link source dependence.target dependence.kind).edges ↔
      edge ∈ graph.edges ∨ graph.Realizes edge (source, dependence) := by
  unfold link Realizes
  obtain ⟨s, t, w⟩ := edge
  cases graph.vertexOf? dependence.target with
  | none => simp
  | some target =>
    simp only [Graph.mem_edges_addEdge, Edge.mk.injEq, Option.some.injEq]
    refine or_congr_right ⟨?_, ?_⟩
    · rintro ⟨⟨rfl, rfl, rfl⟩, hn⟩
      exact ⟨rfl, rfl, rfl, hn⟩
    · rintro ⟨rfl, rfl, rfl, hn⟩
      exact ⟨⟨rfl, rfl, rfl⟩, hn⟩

theorem mem_edges_addDependences {entries : List (Nat × Dependence)} :
    edge ∈ (graph.addDependences entries).edges ↔
      edge ∈ graph.edges ∨ ∃ entry ∈ entries, graph.Realizes edge entry := by
  unfold addDependences
  induction entries generalizing graph with
  | nil => simp
  | cons entry rest ih =>
    have hr : ∀ other, (graph.link entry.1 entry.2.target entry.2.kind).Realizes edge other ↔
        graph.Realizes edge other := by
      intro other
      unfold Realizes vertexOf?
      rw [vertices_link]
    rw [List.foldl_cons, ih, mem_edges_link, List.exists_mem_cons_iff, or_assoc]
    simp only [hr]

end DependencyGraph

namespace Store

variable {store : Store} {graph : DependencyGraph} {id : UnitId} {place : Nat} {key : String}
  {target : Target}

def places (store : Store) : List (String × Target) :=
  store.vertices.map fun entry => (entry.1, entry.2.target)

theorem Registry.place_unique (h : store.Registry) {other : Nat} {key' : String}
    (hp : store.places[place]? = some (key, target))
    (ho : store.places[other]? = some (key', target)) : place = other := by
  have hn : (store.places.map Prod.snd).Nodup := by
    rw [places, List.map_map]
    exact h.nodup_targets
  have hp' : (store.places.map Prod.snd)[place]? = some target := by
    rw [List.getElem?_map, hp, Option.map_some]
  have ho' : (store.places.map Prod.snd)[other]? = some target := by
    rw [List.getElem?_map, ho, Option.map_some]
  exact (List.getElem?_inj (List.getElem?_eq_some_iff.mp hp').1 hn).mp (hp'.trans ho'.symm)

theorem Registry.mem_items_of_place (h : store.Registry)
    (hp : store.places[place]? = some (key, target)) : (key, target) ∈ store.items :=
  h.mem_vertices_iff.mp (List.mem_of_getElem? hp)

theorem Registry.exists_place (h : store.Registry) (hm : (key, target) ∈ store.items) :
    ∃ place : Nat, store.places[place]? = some (key, target) :=
  List.mem_iff_getElem?.mp (h.mem_vertices_iff.mpr hm)

theorem keyOf?_eq_some_iff (hv : graph.vertices = store.vertices) :
    graph.keyOf? place = some key ↔ ∃ target, store.places[place]? = some (key, target) := by
  rw [Graph.keyOf?, Graph.vertex?, hv, places, List.getElem?_map]
  cases store.vertices[place]? with
  | none => simp
  | some entry => simp [Prod.ext_iff]

theorem Registry.vertexOf?_eq_some_iff (h : store.Registry) (hv : graph.vertices = store.vertices) :
    graph.vertexOf? target = some place ↔ ∃ key, store.places[place]? = some (key, target) := by
  have hof : ∀ place, graph.vertexOf? target = some place →
      ∃ key, store.places[place]? = some (key, target) := by
    intro place hp
    rw [DependencyGraph.vertexOf?, hv] at hp
    obtain ⟨hlt, ht, _⟩ := List.findIdx?_eq_some_iff_getElem.mp hp
    have ht : store.vertices[place].2.target = target := by simpa using ht
    exact ⟨store.vertices[place].1, by
      rw [places, List.getElem?_map, List.getElem?_eq_getElem hlt, Option.map_some, ht]⟩
  refine ⟨hof place, ?_⟩
  rintro ⟨key, hp⟩
  cases hf : graph.vertexOf? target with
  | none =>
    rw [DependencyGraph.vertexOf?, hv, List.findIdx?_eq_none_iff] at hf
    obtain ⟨entry, he, hx⟩ := List.mem_map.mp (List.mem_of_getElem? hp)
    have hne := hf entry he
    simp [(Prod.mk.inj hx).2] at hne
  | some found =>
    obtain ⟨key', hf⟩ := hof found hf
    rw [h.place_unique hf hp]

theorem mem_graph_units_iff (hv : graph.vertices = store.vertices) :
    (place, id) ∈ graph.units ↔ ∃ key, store.places[place]? = some (key, .unit id) := by
  simp only [DependencyGraph.units, List.mem_filterMap, Option.map_eq_some_iff, Prod.mk.injEq]
  constructor
  · rintro ⟨⟨number, key, vertex⟩, hm, unit, hu, rfl, rfl⟩
    have hx := DependencyGraph.mem_numbered_iff.mp hm
    rw [hv] at hx
    refine ⟨key, ?_⟩
    have ht : vertex.target = .unit unit := by
      unfold UnitVertex.unit? Target.unit? at hu
      split at hu
      · next found he => rw [he, Option.some.inj hu]
      · cases hu
    rw [places, List.getElem?_map, hx, Option.map_some, ht]
  · rintro ⟨key, hp⟩
    rw [places, List.getElem?_map, Option.map_eq_some_iff] at hp
    obtain ⟨⟨key', vertex⟩, hx, he⟩ := hp
    obtain ⟨rfl, ht⟩ := Prod.mk.inj he
    rw [← hv] at hx
    exact ⟨(place, key', vertex), DependencyGraph.mem_numbered_iff.mpr hx, id, by
      rw [UnitVertex.unit?, ht, Target.unit?], rfl, rfl⟩

theorem Registry.key_of_place (h : store.Registry) {registered : RegisteredUnit}
    (hr : store.registered? id = some registered)
    (hp : store.places[place]? = some (key, .unit id)) : key = registered.key := by
  rcases mem_items_iff.mp (h.mem_items_of_place hp) with ⟨_, _, he⟩ | ⟨other, ho, he⟩
  · cases (Prod.mk.inj he).2
  · obtain ⟨rfl, ht⟩ := Prod.mk.inj he
    obtain rfl := Target.unit.inj ht
    rw [Option.some.inj (ho.symm.trans hr)]

def dependencesOf (store : Store) (visibility : Visibility) (registered : RegisteredUnit) :
    List Dependence :=
  registered.unit.references ++
    registered.unit.implemented .architecture .entityImplementation ++
    registered.unit.implemented .packageBody .packageImplementation ++
    (store.bindings visibility registered).flatMap Binding.dependences

def placedUnits (store : Store) : List (Nat × RegisteredUnit) :=
  (DependencyGraph.units { vertices := store.vertices }).filterMap fun (place, id) =>
    (store.registered? id).map fun registered => (place, registered)

def collect (store : Store) (dependences : RegisteredUnit → List Dependence) :
    List (Nat × Dependence) :=
  store.placedUnits.flatMap fun (place, registered) =>
    (dependences registered).map fun dependence => (place, dependence)

theorem Registry.mem_placedUnits_iff (h : store.Registry) {registered : RegisteredUnit} :
    (place, registered) ∈ store.placedUnits ↔ store.registered? registered.id = some registered ∧
      store.places[place]? = some (registered.key, .unit registered.id) := by
  simp only [placedUnits, List.mem_filterMap, Option.map_eq_some_iff, Prod.mk.injEq]
  constructor
  · rintro ⟨⟨source, id⟩, hm, found, hr, rfl, rfl⟩
    obtain ⟨key, hp⟩ := (mem_graph_units_iff rfl).mp hm
    obtain rfl := (registered?_eq_some_iff.mp hr).1
    exact ⟨hr, h.key_of_place hr hp ▸ hp⟩
  · rintro ⟨hr, hp⟩
    exact ⟨(place, registered.id), (mem_graph_units_iff rfl).mpr ⟨_, hp⟩, registered, hr, rfl, rfl⟩

theorem mem_collect_iff {dependences : RegisteredUnit → List Dependence}
    {entry : Nat × Dependence} : entry ∈ store.collect dependences ↔
      ∃ registered, (entry.1, registered) ∈ store.placedUnits ∧
        entry.2 ∈ dependences registered := by
  obtain ⟨place, dependence⟩ := entry
  simp only [collect, List.mem_flatMap, List.mem_map, Prod.mk.injEq]
  constructor
  · rintro ⟨⟨source, registered⟩, hm, d, hd, rfl, rfl⟩
    exact ⟨registered, hm, hd⟩
  · rintro ⟨registered, hm, hd⟩
    exact ⟨(place, registered), hm, dependence, hd, rfl, rfl⟩

theorem Registry.graph_dependencies (h : store.Registry) (visibility : UnitId → Visibility) :
    (store.dependencies visibility).graph =
      DependencyGraph.addDependences { vertices := store.vertices }
        (store.collect (·.unit.references) ++
          store.collect (·.unit.implemented .architecture .entityImplementation) ++
          store.collect (·.unit.implemented .packageBody .packageImplementation) ++
          store.collect fun registered =>
            (store.bindings (visibility registered.id) registered).flatMap
              Binding.dependences) := by
  unfold dependencies
  rw [h.vertexGraph_eq]
  rfl

theorem Registry.mem_edges_iff (h : store.Registry) (visibility : UnitId → Visibility)
    {edge : Edge EdgeKind} : edge ∈ (store.dependencies visibility).graph.edges ↔
      ∃ registered, store.registered? registered.id = some registered ∧
        store.places[edge.source]? = some (registered.key, .unit registered.id) ∧
        ∃ dependence ∈ store.dependencesOf (visibility registered.id) registered,
          edge.weight = dependence.kind ∧ dependence.target ≠ .unit registered.id ∧
          ∃ key, store.places[edge.target]? = some (key, dependence.target) := by
  rw [h.graph_dependencies, DependencyGraph.mem_edges_addDependences]
  simp only [List.not_mem_nil, false_or, List.mem_append, mem_collect_iff, ← exists_or,
    ← and_or_left, h.mem_placedUnits_iff, DependencyGraph.Realizes,
    h.vertexOf?_eq_some_iff (rfl : Graph.vertices { vertices := store.vertices } = _),
    dependencesOf]
  constructor
  · rintro ⟨⟨place, dependence⟩, ⟨registered, ⟨hr, hp⟩, hd⟩, hs, ⟨key, ht⟩, hw, hne⟩
    obtain rfl : edge.source = place := hs
    refine ⟨registered, hr, hp, dependence, hd, hw, fun he => hne ?_, key, ht⟩
    exact h.place_unique hp (he ▸ ht)
  · rintro ⟨registered, hr, hp, dependence, hd, hw, hne, key, ht⟩
    refine ⟨(edge.source, dependence), ⟨registered, ⟨hr, hp⟩, hd⟩, rfl, ⟨key, ht⟩, hw,
      fun he => hne ?_⟩
    rw [he] at hp
    exact (Prod.mk.inj (Option.some.inj (ht.symm.trans hp))).2

/-- The edges by keys: a unit with the key of the source depends on what has the key of the
target. -/
theorem Registry.mem_edgeKeys_iff (h : store.Registry) (visibility : UnitId → Visibility)
    {source target : String} {kind : EdgeKind} :
    (source, target, kind) ∈ (store.dependencies visibility).graph.edgeKeys ↔
      ∃ registered, store.registered? registered.id = some registered ∧ registered.key = source ∧
        ∃ dependence ∈ store.dependencesOf (visibility registered.id) registered,
          dependence.kind = kind ∧ dependence.target ≠ .unit registered.id ∧
          (target, dependence.target) ∈ store.items := by
  have hv := h.vertices_dependencies visibility
  rw [DependencyGraph.mem_edgeKeys_iff]
  simp only [h.mem_edges_iff, keyOf?_eq_some_iff hv]
  constructor
  · rintro ⟨edge, ⟨registered, hr, hp, dependence, hd, hw, hne, key, ht⟩, ⟨_, hs⟩, ⟨_, ht'⟩, rfl⟩
    obtain ⟨rfl, _⟩ := Prod.mk.inj (Option.some.inj (hp.symm.trans hs))
    obtain ⟨rfl, _⟩ := Prod.mk.inj (Option.some.inj (ht.symm.trans ht'))
    exact ⟨registered, hr, rfl, dependence, hd, hw.symm, hne, h.mem_items_of_place ht⟩
  · rintro ⟨registered, hr, rfl, dependence, hd, rfl, hne, hm⟩
    have hi : (registered.key, .unit registered.id) ∈ store.items :=
      mem_items_iff.mpr (.inr ⟨registered, hr, rfl⟩)
    obtain ⟨s, hs⟩ := h.exists_place hi
    obtain ⟨t, ht⟩ := h.exists_place hm
    exact ⟨⟨s, t, dependence.kind⟩, ⟨registered, hr, hs, dependence, hd, rfl, hne, target, ht⟩,
      ⟨_, hs⟩, ⟨_, ht⟩, rfl⟩

end Store

section Kinds

variable {unit : DesignUnit} {dependence : Dependence}

theorem DesignUnit.edgeClass_of_mem_references (h : dependence ∈ unit.references) :
    dependence.kind.edgeClass = .references := by
  simp only [references, List.mem_append, List.mem_map] at h
  rcases h with ((⟨_, _, rfl⟩ | ⟨_, _, rfl⟩) | ⟨_, _, rfl⟩) | h
  iterate 3 rfl
  split at h
  · obtain ⟨_, _, rfl⟩ := List.mem_map.mp h
    rfl
  · cases h

theorem DesignUnit.mem_implemented_iff {kind : UnitKind} {edge : EdgeKind} :
    dependence ∈ unit.implemented kind edge ↔ unit.kind = kind ∧
      unit.primaryTarget = some dependence.target ∧ dependence.kind = edge := by
  obtain ⟨target, weight⟩ := dependence
  unfold implemented
  split
  · next hk =>
    simp only [List.mem_map, Option.mem_toList, Dependence.mk.injEq, hk, true_and]
    constructor
    · rintro ⟨_, ht, rfl, rfl⟩
      exact ⟨ht, rfl⟩
    · rintro ⟨ht, rfl⟩
      exact ⟨target, ht, rfl, rfl⟩
  · next hk => simp [hk]

/-- The kinds of edges that links in slots make. The other kinds are those of instances. -/
def EdgeKind.isLinked : EdgeKind → Bool
  | .libraryClause | .useClause | .contextReference | .configurationEntity
  | .entityImplementation | .packageImplementation => true
  | .configurationReference | .entityInstantiation | .componentInstantiation
  | .configurationInstantiation => false

theorem EdgeKind.isLinked_of_implements {kind : EdgeKind} (h : kind.edgeClass = .implements) :
    kind.isLinked = true := by
  cases kind <;> first | rfl | cases h

theorem Site.isLinked_of_mem_bind {site : Site} {visibility : Visibility} {found : FoundInstance}
    (h : dependence ∈ (site.bind visibility found).dependences) :
    dependence.kind.isLinked = false := by
  unfold bind at h
  split at h
  · unfold bindEntity at h
    split at h
    · cases h
    · split at h
      · obtain rfl := List.mem_singleton.mp h
        rfl
      · split at h <;>
        · obtain rfl := List.mem_singleton.mp h
          rfl
  · unfold bindComponent at h
    split at h
    · obtain rfl := List.mem_singleton.mp h
      rfl
    · cases h
  · unfold bindConfiguration at h
    split at h
    · cases h
    · rcases List.mem_cons.mp h with rfl | h
      · rfl
      · obtain ⟨_, _, rfl⟩ := List.mem_map.mp h
        rfl

end Kinds

namespace Store

variable {store : Store} {registered : RegisteredUnit} {dependence : Dependence}

theorem isLinked_of_mem_bindings {visibility : Visibility} {binding : Binding}
    (hb : binding ∈ store.bindings visibility registered) (h : dependence ∈ binding.dependences) :
    dependence.kind.isLinked = false := by
  unfold bindings at hb
  split at hb
  · obtain ⟨found, _, rfl⟩ := List.mem_map.mp hb
    exact Site.isLinked_of_mem_bind h
  · cases hb

theorem primaryTarget_of_implements {visibility : Visibility}
    (h : dependence ∈ store.dependencesOf visibility registered)
    (hc : dependence.kind.edgeClass = .implements) :
    registered.unit.primaryTarget = some dependence.target := by
  simp only [dependencesOf, List.mem_append, List.mem_flatMap] at h
  rcases h with ((h | h) | h) | ⟨binding, hb, h⟩
  · cases (DesignUnit.edgeClass_of_mem_references h).symm.trans hc
  · exact (DesignUnit.mem_implemented_iff.mp h).2.1
  · exact (DesignUnit.mem_implemented_iff.mp h).2.1
  · cases (isLinked_of_mem_bindings hb h).symm.trans (EdgeKind.isLinked_of_implements hc)

theorem Registry.keyed_dependencies (h : store.Registry) (visibility : UnitId → Visibility) :
    (store.dependencies visibility).graph.Keyed := by
  have hv := h.vertices_dependencies visibility
  have hlt : ∀ {place : Nat} {item : String × Target}, store.places[place]? = some item →
      place < (store.dependencies visibility).graph.numVertices := by
    intro place item hp
    have hl := (List.getElem?_eq_some_iff.mp hp).1
    rwa [places, List.length_map, ← hv] at hl
  refine ⟨?_, fun edge he => ?_, fun e he f hf hs hce hcf => ?_⟩
  · have hp := h.vertices_perm.map Prod.fst
    rw [List.map_map, map_items] at hp
    rw [hv]
    exact hp.nodup_iff.mpr h.nodup_keys
  · obtain ⟨_, _, hp, _, _, _, _, _, ht⟩ := (h.mem_edges_iff visibility).mp he
    exact ⟨hlt hp, hlt ht⟩
  · obtain ⟨r, hr, hp, d, hd, hw, _, _, ht⟩ := (h.mem_edges_iff visibility).mp he
    obtain ⟨q, hq, hp', d', hd', hw', _, _, ht'⟩ := (h.mem_edges_iff visibility).mp hf
    rw [hs] at hp
    obtain rfl := h.registered_eq_of_key hr hq
      (Prod.mk.inj (Option.some.inj (hp.symm.trans hp'))).1
    have hx := primaryTarget_of_implements hd (hw ▸ hce)
    have hy := primaryTarget_of_implements hd' (hw' ▸ hcf)
    rw [Option.some.inj (hx.symm.trans hy)] at ht
    exact h.place_unique ht ht'

theorem Registry.mem_vertices (h : store.Registry) {entry : String × UnitVertex} :
    entry ∈ store.vertices ↔
      (∃ library ∈ store.libraries,
        entry = (library.ident.normalized, library.vertex store.config)) ∨
      ∃ registered, store.registered? registered.id = some registered ∧
        entry = (registered.key,
          registered.vertex (store.config.isPredefined registered.library.name)) := by
  simp only [vertices, List.mem_flatMap, List.mem_cons, List.mem_map, List.mem_filterMap,
    List.mem_eraseDups]
  constructor
  · rintro ⟨library, hm, rfl | ⟨registered, ⟨id, hi, hr⟩, rfl⟩⟩
    · exact .inl ⟨library, hm, rfl⟩
    · obtain ⟨unit, hu⟩ := (mem_vertexOrder_iff (h.holds_mem hm)).mp hi
      obtain rfl := (registered?_eq_some_iff.mp hr).1
      obtain ⟨hl, _, hu'⟩ := h.registered?_iff.mp hr
      obtain ⟨rfl, _⟩ := h.library_unique hl hm hu' hu
      exact .inr ⟨registered, hr, rfl⟩
  · rintro (⟨library, hm, rfl⟩ | ⟨registered, hr, rfl⟩)
    · exact ⟨library, hm, .inl rfl⟩
    · obtain ⟨hm, _, hu⟩ := h.registered?_iff.mp hr
      exact ⟨registered.library, hm, .inr ⟨registered, ⟨registered.id,
        (mem_vertexOrder_iff (h.holds_mem hm)).mpr ⟨_, hu⟩, hr⟩, rfl⟩⟩

theorem Registry.mem_vertexKinds_iff (h : store.Registry) (visibility : UnitId → Visibility)
    {key : String} {kind : VertexKind} {predefined : Bool} :
    (key, kind, predefined) ∈ (store.dependencies visibility).graph.vertexKinds ↔
      (∃ library ∈ store.libraries, key = library.ident.normalized ∧ kind = .library ∧
        predefined = store.config.isPredefined library.name) ∨
      ∃ registered, store.registered? registered.id = some registered ∧ key = registered.key ∧
        kind = .unit registered.unit.kind ∧
        predefined = store.config.isPredefined registered.library.name := by
  rw [DependencyGraph.vertexKinds, h.vertices_dependencies visibility, List.mem_map]
  constructor
  · rintro ⟨entry, he, hx⟩
    rcases h.mem_vertices.mp he with ⟨library, hm, rfl⟩ | ⟨registered, hr, rfl⟩
    · cases hx
      exact .inl ⟨library, hm, rfl, rfl, rfl⟩
    · cases hx
      exact .inr ⟨registered, hr, rfl, rfl, rfl⟩
  · rintro (⟨library, hm, rfl, rfl, rfl⟩ | ⟨registered, hr, rfl, rfl, rfl⟩)
    · exact ⟨_, h.mem_vertices.mpr (.inl ⟨library, hm, rfl⟩), rfl⟩
    · exact ⟨_, h.mem_vertices.mpr (.inr ⟨registered, hr, rfl⟩), rfl⟩

end Store

end Vhdl
