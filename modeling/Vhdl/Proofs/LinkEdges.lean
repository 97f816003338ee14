import Vhdl.Proofs.SameContent

/-! # Edges of links

Every link in a slot of a unit makes an edge to the vertex of its target, except that a unit has no
edge to itself. There are no other edges of these kinds, none is repeated, and none leaves a
library.
-/

namespace Vhdl

/-- No edge is repeated, and none is a loop. -/
structure Graph.Simple {κ ν ε : Type} (graph : Graph κ ν ε) : Prop where
  nodup : graph.edges.Nodup
  loopless : ∀ edge ∈ graph.edges, edge.source ≠ edge.target

theorem Graph.Simple.addEdge {κ ν ε : Type} [DecidableEq ε] {graph : Graph κ ν ε} (h : graph.Simple)
    (edge : Edge ε) : (graph.addEdge edge).1.Simple := by
  unfold Graph.addEdge
  split
  · exact h
  · next hl =>
    split
    · exact h
    · next hn =>
      have hn : edge ∉ graph.edges := by simpa using hn
      refine ⟨h.nodup.append (List.nodup_singleton edge) ?_, fun other ho => ?_⟩
      · rintro other ho he
        exact hn (List.mem_singleton.mp he ▸ ho)
      · rcases List.mem_append.mp ho with ho | ho
        · exact h.loopless other ho
        · exact List.mem_singleton.mp ho ▸ hl

/-- The kinds of the units that an implementation goes from and to. -/
def EdgeKind.implementation? : EdgeKind → Option (UnitKind × UnitKind)
  | .entityImplementation => some (.architecture, .entity)
  | .packageImplementation => some (.packageBody, .package)
  | _ => none

namespace DependencyGraph

variable {graph : DependencyGraph}

theorem simple_link (h : graph.Simple) (source : Nat) (target : Target) (kind : EdgeKind) :
    (graph.link source target kind).Simple := by
  unfold link
  split
  · exact h.addEdge _
  · exact h

theorem simple_addDependences (h : graph.Simple) (entries : List (Nat × Dependence)) :
    (graph.addDependences entries).Simple := by
  unfold addDependences
  induction entries generalizing graph with
  | nil => exact h
  | cons entry rest ih => exact ih (simple_link h ..)

def target? (graph : DependencyGraph) (number : Nat) : Option Target :=
  (graph.label? number).map UnitVertex.target

theorem target?_eq_some_iff {number : Nat} {target : Target} :
    graph.target? number = some target ↔ ∃ key vertex,
      graph.vertices[number]? = some (key, vertex) ∧ vertex.target = target := by
  rw [target?, Graph.label?, Graph.vertex?]
  cases graph.vertices[number]? with
  | none => simp
  | some entry => simp [Prod.ext_iff]

theorem unit_unique {number : Nat} {a b : UnitId} (ha : graph.target? number = some (.unit a))
    (hb : graph.target? number = some (.unit b)) : a = b :=
  Target.unit.inj (Option.some.inj (ha.symm.trans hb))

def IsUnit (graph : DependencyGraph) (store : Store) (number : Nat) (library : LibraryId)
    (kind : UnitKind) : Prop :=
  ∃ vertex id unit, graph.label? number = some vertex ∧ vertex.kind = .unit kind ∧
    vertex.target = .unit id ∧ store.unitIn? library id = some unit ∧ unit.kind = kind

end DependencyGraph

namespace DesignUnit

variable {unit : DesignUnit} {kind : EdgeKind} {target : Target}

theorem mem_named_slots_iff {α : Type} {names : List (Linked α)} {label : EdgeKind} :
    (kind, some target) ∈ names.map (fun name => (label, name.target)) ↔
      (⟨target, kind⟩ : Dependence) ∈ (names.filterMap Linked.target).map (⟨·, label⟩) := by
  simp only [List.mem_map, List.mem_filterMap, Prod.mk.injEq, Dependence.mk.injEq]
  constructor
  · rintro ⟨name, hn, rfl, ht⟩
    exact ⟨target, ⟨name, hn, ht⟩, rfl, rfl⟩
  · rintro ⟨_, ⟨name, hn, ht⟩, rfl, rfl⟩
    exact ⟨name, hn, rfl, ht⟩

theorem mem_slots_iff : (kind, some target) ∈ unit.slots ↔
    ⟨target, kind⟩ ∈ unit.references ++ unit.implemented .architecture .entityImplementation ++
      unit.implemented .packageBody .packageImplementation := by
  have hp : (kind, some target) ∈ unit.body.primarySlot?.toList ↔
      ⟨target, kind⟩ ∈ (if unit.kind = .configuration then
          unit.primaryTarget.toList.map (Dependence.mk · .configurationEntity) else []) ++
        unit.implemented .architecture .entityImplementation ++
        unit.implemented .packageBody .packageImplementation := by
    obtain ⟨ident, context, body, doc⟩ := unit
    cases body <;>
      simp [UnitBody.primarySlot?, implemented, DesignUnit.kind, UnitBody.kind, primaryTarget,
        UnitBody.primaryTarget, eq_comm, and_comm]
  simp only [slots, references, List.mem_append, mem_named_slots_iff, hp, or_assoc]

end DesignUnit

namespace Store

variable {store : Store} {graph : DependencyGraph} {own : Library} {id : UnitId}
  {unit : DesignUnit} {kind : EdgeKind} {target : Target} {number : Nat}

theorem mem_dependencesOf_iff {visibility : Visibility} {registered : RegisteredUnit}
    (hk : kind.isLinked = true) : ⟨target, kind⟩ ∈ store.dependencesOf visibility registered ↔
      (kind, some target) ∈ registered.unit.slots := by
  rw [DesignUnit.mem_slots_iff]
  refine List.mem_append.trans (or_iff_left fun hm => ?_)
  obtain ⟨binding, hb, hd⟩ := List.mem_flatMap.mp hm
  cases (isLinked_of_mem_bindings hb hd).symm.trans hk

theorem target?_eq_some_iff (hv : graph.vertices = store.vertices) :
    graph.target? number = some target ↔ ∃ key, store.places[number]? = some (key, target) := by
  simp only [DependencyGraph.target?_eq_some_iff, hv, places, List.getElem?_map,
    Option.map_eq_some_iff, Prod.exists, Prod.mk.injEq]
  constructor
  · rintro ⟨key, vertex, hx, ht⟩
    exact ⟨key, key, vertex, hx, rfl, ht⟩
  · rintro ⟨_, key, vertex, hx, _, ht⟩
    exact ⟨key, vertex, hx, ht⟩

/-- An edge joins distinct vertices, of which the first is that of a unit that depends on what the
second stands for. -/
theorem Registry.edge_iff_dependence (h : store.Registry) (visibility : UnitId → Visibility)
    (hv : graph = (store.dependencies visibility).graph) {source destination : Nat} :
    ⟨source, destination, kind⟩ ∈ graph.edges ↔ source ≠ destination ∧ ∃ registered target,
      graph.target? source = some (.unit registered.id) ∧ graph.target? destination = some target ∧
        store.registered? registered.id = some registered ∧
        ⟨target, kind⟩ ∈ store.dependencesOf (visibility registered.id) registered := by
  subst hv
  simp only [h.mem_edges_iff, target?_eq_some_iff (h.vertices_dependencies visibility)]
  constructor
  · rintro ⟨registered, hr, hs, ⟨target, weight⟩, hd, rfl, hne, key, ht⟩
    refine ⟨fun he => hne ?_, registered, target, ⟨_, hs⟩, ⟨key, ht⟩, hr, hd⟩
    rw [he] at hs
    exact (Prod.mk.inj (Option.some.inj (ht.symm.trans hs))).2
  · rintro ⟨hne, registered, target, ⟨key, hs⟩, ⟨key', ht⟩, hr, hd⟩
    obtain rfl := h.key_of_place hr hs
    refine ⟨registered, hr, hs, ⟨target, kind⟩, hd, rfl, fun he => hne ?_, key', ht⟩
    obtain rfl : target = .unit registered.id := he
    exact h.place_unique hs ht

theorem Registry.mem_linked_edges_iff (h : store.Registry) (visibility : UnitId → Visibility)
    (hv : graph = (store.dependencies visibility).graph) (hk : kind.isLinked = true)
    {source destination : Nat} : ⟨source, destination, kind⟩ ∈ graph.edges ↔
      source ≠ destination ∧ ∃ id unit target, graph.target? source = some (.unit id) ∧
        graph.target? destination = some target ∧ store.unit? id = some unit ∧
        (kind, some target) ∈ unit.slots := by
  rw [h.edge_iff_dependence visibility hv]
  refine and_congr_right fun _ => ?_
  simp only [mem_dependencesOf_iff hk]
  constructor
  · rintro ⟨registered, target, hs, ht, hr, hm⟩
    exact ⟨registered.id, registered.unit, target, hs, ht,
      unit?_of_unitIn? (h.registered?_iff.mp hr).2.2, hm⟩
  · rintro ⟨id, unit, target, hs, ht, hu, hm⟩
    obtain ⟨library, hl, hin⟩ := h.exists_library hu
    obtain ⟨document, hr⟩ := h.exists_registered? hl hin
    exact ⟨⟨id, library, document, unit⟩, target, hs, ht, hr, hm⟩

theorem Registry.simple_dependencies (h : store.Registry) (visibility : UnitId → Visibility) :
    (store.dependencies visibility).graph.Simple := by
  rw [h.graph_dependencies]
  exact DependencyGraph.simple_addDependences ⟨List.nodup_nil, by simp⟩ _

theorem Registry.isUnit_of_target? (h : store.Registry) (hv : graph.vertices = store.vertices)
    (ht : graph.target? number = some (.unit id)) {owner : LibraryId}
    (hu : store.unitIn? owner id = some unit) : graph.IsUnit store number owner unit.kind := by
  obtain ⟨vertex, hl, ht⟩ := Option.map_eq_some_iff.mp ht
  obtain ⟨⟨key, vertex⟩, hx, rfl⟩ := Option.map_eq_some_iff.mp hl
  rw [Graph.vertex?, hv] at hx
  refine ⟨vertex, id, unit, hl, ?_, ht, hu, rfl⟩
  rcases h.mem_vertices.mp (List.mem_of_getElem? hx) with ⟨other, _, he⟩ | ⟨registered, hr, he⟩
  · rw [(Prod.mk.inj he).2] at ht
    cases ht
  · obtain ⟨_, rfl⟩ := Prod.mk.inj he
    obtain rfl := Target.unit.inj ht
    obtain ⟨_, rfl⟩ := unitIn?_unique (h.registered?_iff.mp hr).2.2 hu
    rfl

theorem Registry.isUnit_source (h : store.Registry) (visibility : UnitId → Visibility)
    (hg : graph = (store.dependencies visibility).graph) {edge : Edge EdgeKind}
    (he : edge ∈ graph.edges) :
    ∃ library ∈ store.libraries, ∃ kind, graph.IsUnit store edge.source library.id kind := by
  subst hg
  have hv := h.vertices_dependencies visibility
  obtain ⟨registered, hr, hs, _⟩ := (h.mem_edges_iff visibility).mp he
  obtain ⟨hm, _, hu⟩ := h.registered?_iff.mp hr
  exact ⟨registered.library, hm, _,
    h.isUnit_of_target? hv ((target?_eq_some_iff hv).mpr ⟨_, hs⟩) hu⟩

def HasItem (store : Store) (target : Target) : Prop :=
  ∃ key, (key, target) ∈ store.items

theorem Registry.hasItem_of_unit? (h : store.Registry) (hu : store.unit? id = some unit) :
    store.HasItem (.unit id) := by
  obtain ⟨library, hm, hin⟩ := h.exists_library hu
  obtain ⟨document, hr⟩ := h.exists_registered? hm hin
  exact ⟨_, mem_items_iff.mpr (.inr ⟨⟨id, library, document, unit⟩, hr, rfl⟩)⟩

theorem hasItem_of_denotes (hm : own ∈ store.libraries) {name : String} {owner : LibraryId}
    (hd : store.Denotes own name owner) : store.HasItem (.library owner) := by
  have hi : ∀ library ∈ store.libraries, store.HasItem (.library library.id) := fun library hm =>
    ⟨_, mem_items_iff.mpr (.inl ⟨library, hm, rfl⟩)⟩
  unfold Denotes at hd
  split at hd
  · exact hd ▸ hi own hm
  · obtain ⟨library, hm, rfl, _⟩ := hd
    exact hi library hm

theorem Registry.hasItem_of_declares (h : store.Registry) {owner : LibraryId} {kind : UnitKind}
    {name : String} (hd : store.Declares owner kind name id) : store.HasItem (.unit id) := by
  obtain ⟨unit, hu, _⟩ := hd
  exact h.hasItem_of_unit? (unit?_of_unitIn? hu)

theorem Registry.hasItem_of_selected (h : store.Registry) {kind : UnitKind}
    {segments : List Identifier} (hd : store.SelectedDenotes own kind segments target) :
    store.HasItem target := by
  cases hd with
  | mk _ hd => exact h.hasItem_of_declares hd

theorem Registry.hasItem_of_use (h : store.Registry) (hm : own ∈ store.libraries)
    {segments : List Identifier} (hd : store.UseDenotes own segments target) :
    store.HasItem target := by
  cases hd with
  | library hd => exact hasItem_of_denotes hm hd
  | package hd => exact h.hasItem_of_selected hd
  | visible hd => exact h.hasItem_of_declares hd

theorem Registry.hasItem_of_entity (h : store.Registry) {segments : List Identifier}
    (hd : store.EntityDenotes own segments target) : store.HasItem target := by
  cases hd with
  | simple hd => exact h.hasItem_of_declares hd
  | selected hd => exact h.hasItem_of_selected hd

/-- A sound link to a primary unit is to the entity of a configuration or to what the unit
implements. -/
theorem LinksSound.primary (hl : store.LinksSound own unit)
    (hp : (kind, some target) ∈ unit.body.primarySlot?.toList) :
    (kind = .configurationEntity ∧ ∃ segments, store.EntityDenotes own segments target) ∨
      ∃ expected name id, kind.implementation? = some (unit.kind, expected) ∧ target = .unit id ∧
        store.Declares own.id expected name id := by
  unfold DesignUnit.kind
  cases hb : unit.body with
  | configuration entity uses block =>
    rw [hb] at hp
    obtain ⟨rfl, ht⟩ := Prod.mk.inj (List.mem_singleton.mp hp)
    obtain ⟨segments, _, hd⟩ := hl.configuration entity uses block hb target ht.symm
    exact .inl ⟨rfl, segments, hd⟩
  | architecture entity decls statements =>
    rw [hb] at hp
    obtain ⟨rfl, ht⟩ := Prod.mk.inj (List.mem_singleton.mp hp)
    obtain ⟨id, rfl, hd⟩ := (hl.architecture entity decls statements hb target).mp ht.symm
    exact .inr ⟨.entity, _, id, rfl, rfl, hd⟩
  | packageBody package decls =>
    rw [hb] at hp
    obtain ⟨rfl, ht⟩ := Prod.mk.inj (List.mem_singleton.mp hp)
    obtain ⟨id, rfl, hd⟩ := (hl.packageBody package decls hb target).mp ht.symm
    exact .inr ⟨.package, _, id, rfl, rfl, hd⟩
  | _ =>
    rw [hb] at hp
    cases hp

theorem LinksSound.hasItem (hl : store.LinksSound own unit) (h : store.Registry)
    (hm : own ∈ store.libraries) (hs : (kind, some target) ∈ unit.slots) :
    store.HasItem target := by
  simp only [DesignUnit.slots, List.mem_append, List.mem_map, Prod.mk.injEq] at hs
  rcases hs with ((⟨name, hn, _, ht⟩ | ⟨name, hn, _, ht⟩) | ⟨name, hn, _, ht⟩) | hp
  · obtain ⟨_, rfl, hd⟩ := hl.libraries name hn target ht
    exact hasItem_of_denotes hm hd
  · obtain ⟨_, _, _, hd⟩ := hl.uses name hn target ht
    exact h.hasItem_of_use hm hd
  · obtain ⟨_, _, hd⟩ := hl.contexts name hn target ht
    exact h.hasItem_of_selected hd
  · rcases hl.primary hp with ⟨_, _, hd⟩ | ⟨_, _, _, _, rfl, hd⟩
    · exact h.hasItem_of_entity hd
    · exact h.hasItem_of_declares hd

theorem LinksSound.declares (hl : store.LinksSound own unit)
    (hs : (kind, some target) ∈ unit.slots) {source expected : UnitKind}
    (hk : kind.implementation? = some (source, expected)) :
    unit.kind = source ∧ ∃ name id, target = .unit id ∧ store.Declares own.id expected name id := by
  simp only [DesignUnit.slots, List.mem_append, List.mem_map, Prod.mk.injEq] at hs
  rcases hs with ((⟨_, _, rfl, _⟩ | ⟨_, _, rfl, _⟩) | ⟨_, _, rfl, _⟩) | hp
  iterate 3 cases hk
  rcases hl.primary hp with ⟨rfl, _⟩ | ⟨_, name, id, hk', rfl, hd⟩
  · cases hk
  · obtain ⟨rfl, rfl⟩ := Prod.mk.inj (Option.some.inj (hk'.symm.trans hk))
    exact ⟨rfl, name, id, rfl, hd⟩

/-- An implementation goes from a secondary unit to the primary unit in its library. -/
theorem Registry.isUnit_implementation (h : store.Registry) {edge : Edge EdgeKind}
    (he : edge ∈ store.analyze.analysis.dependency.edges) {source expected : UnitKind}
    (hk : edge.weight.implementation? = some (source, expected)) :
    ∃ library ∈ store.analyze.store.libraries,
      store.analyze.analysis.dependency.IsUnit store.analyze.store edge.source library.id source ∧
        store.analyze.analysis.dependency.IsUnit store.analyze.store edge.target library.id
          expected := by
  have hg := store.dependency_analyze
  have hv := congrArg Graph.vertices hg |>.trans (h.analyze.vertices_dependencies _)
  have hlinked : edge.weight.isLinked = true := by
    revert hk
    cases edge.weight <;> first | exact fun _ => rfl | exact nofun
  obtain ⟨_, id, unit, target, hs, ht, hu, hm⟩ :=
    (h.analyze.mem_linked_edges_iff store.visibilityOf hg hlinked).mp he
  obtain ⟨library, hmem, hin⟩ := h.analyze.exists_library hu
  obtain ⟨rfl, name, primary, rfl, found, hf, rfl, _⟩ :=
    (h.linksSound_analyze hmem hin).declares hm hk
  exact ⟨library, hmem, h.analyze.isUnit_of_target? hv hs hin, h.analyze.isUnit_of_target? hv ht hf⟩

theorem Registry.exists_target? (h : store.Registry) (hv : graph.vertices = store.vertices)
    (hi : store.HasItem target) : ∃ number, graph.target? number = some target := by
  obtain ⟨key, hi⟩ := hi
  obtain ⟨number, hp⟩ := h.exists_place hi
  exact ⟨number, (target?_eq_some_iff hv).mpr ⟨key, hp⟩⟩

theorem Registry.exists_unit_target? (h : store.Registry) (hv : graph.vertices = store.vertices)
    (hu : store.unit? id = some unit) : ∃ number, graph.target? number = some (.unit id) :=
  h.exists_target? hv (h.hasItem_of_unit? hu)

end Store

/-- The edges of links are exact: they are those of the links in the slots of units, each link has
the vertices of its edge, no edge is repeated or a loop, none leaves a library, and implementations
stay in one library. -/
structure DependencyGraph.LinksExact (graph : DependencyGraph) (store : Store) : Prop where
  edge_iff : ∀ source destination kind, kind.isLinked = true →
    (⟨source, destination, kind⟩ ∈ graph.edges ↔ source ≠ destination ∧
      ∃ id unit target, graph.target? source = some (.unit id) ∧
        graph.target? destination = some target ∧ store.unit? id = some unit ∧
        (kind, some target) ∈ unit.slots)
  complete : ∀ id unit kind target, store.unit? id = some unit → (kind, some target) ∈ unit.slots →
    (∃ source, graph.target? source = some (.unit id)) ∧
      ∃ destination, graph.target? destination = some target
  simple : graph.Simple
  sources : ∀ edge ∈ graph.edges, ∃ library ∈ store.libraries, ∃ kind,
    graph.IsUnit store edge.source library.id kind
  implementations : ∀ edge ∈ graph.edges, ∀ source target,
    edge.weight.implementation? = some (source, target) →
      ∃ library ∈ store.libraries, graph.IsUnit store edge.source library.id source ∧
        graph.IsUnit store edge.target library.id target

theorem Store.Registry.linksExact_analyze {store : Store} (h : store.Registry) :
    store.analyze.analysis.dependency.LinksExact store.analyze.store := by
  have hg := store.dependency_analyze
  have hv := congrArg Graph.vertices hg |>.trans (h.analyze.vertices_dependencies _)
  refine ⟨fun _ _ _ hk => h.analyze.mem_linked_edges_iff _ hg hk,
    fun id unit kind target hu hs => ?_, hg ▸ h.analyze.simple_dependencies _,
    fun _ he => h.analyze.isUnit_source _ hg he, fun _ he _ _ hk => h.isUnit_implementation he hk⟩
  obtain ⟨library, hm, hin⟩ := h.analyze.exists_library hu
  have hi := (h.linksSound_analyze hm hin).hasItem h.analyze hm hs
  exact ⟨h.analyze.exists_unit_target? hv hu, h.analyze.exists_target? hv hi⟩

/-- After an analysis of a reachable design the edges of clauses and implementations are exactly
those of the links in its units. -/
theorem Design.Reachable.link_edges_exact {design : Design} (h : design.Reachable) :
    ∃ analysis, design.analyze.design.analysis = some analysis ∧
      analysis.dependency.LinksExact design.analyze.design.store :=
  ⟨_, rfl, h.grounded.built.registry.linksExact_analyze⟩

/-- A package that uses itself, an entity that uses the package twice, and units that implement or
configure them. -/
def Design.loomUnits : List DesignUnit :=
  let here : Identifier := ⟨"WORk", by decide +kernel⟩
  let mill : Identifier := ⟨"mill", by decide +kernel⟩
  let thread : Identifier := ⟨"thread", by decide +kernel⟩
  let loom : Identifier := ⟨"loom", by decide +kernel⟩
  let selected (first second : Identifier) : Name := .selected (.simple first) second
  [{ ident := thread, body := .packageBody none [] },
    { ident := thread
      context := [.library [{ item := mill }], .use [{ item := .all (selected mill thread) }]]
      body := .package none [] },
    { ident := loom
      context := [.use [{ item := .all (selected here thread) }, { item := selected mill thread }]]
      body := .entity none none [] [] },
    { ident := ⟨"weave", by decide +kernel⟩, body := .architecture { item := loom } [] [] },
    { ident := ⟨"pattern", by decide +kernel⟩
      body := .configuration { item := selected here loom } [] none }]

def Design.looms : Design :=
  ((((withConfig {}).createLibrary "mill").design).addDocument { units := loomUnits } ⟨0⟩).design

theorem Design.looms_link_edges : looms.Reachable ∧
    ((looms.analyze.design.store.units .all).map fun registered => registered.unit.slots) =
      [[(.packageImplementation, some (.unit ⟨⟨0⟩, 1⟩))],
        [(.libraryClause, some (.library ⟨0⟩)), (.useClause, some (.unit ⟨⟨0⟩, 1⟩))],
        [(.useClause, some (.unit ⟨⟨0⟩, 1⟩)), (.useClause, some (.unit ⟨⟨0⟩, 1⟩))],
        [(.entityImplementation, some (.unit ⟨⟨0⟩, 2⟩))],
        [(.configurationEntity, some (.unit ⟨⟨0⟩, 2⟩))]] ∧
    (looms.analyze.design.analysis.map fun analysis => analysis.dependency.edgeKeys) =
      some [("mill.pattern", "mill.loom", .configurationEntity),
        ("mill.loom", "mill.thread", .useClause), ("mill.thread", "mill", .libraryClause),
        ("mill.loom(weave)", "mill.loom", .entityImplementation),
        ("mill.thread(body)", "mill.thread", .packageImplementation)] ∧
    ∃ analysis, looms.analyze.design.analysis = some analysis ∧
      analysis.dependency.LinksExact looms.analyze.design.store :=
  have h : looms.Reachable := .addDocument _ _ (.createLibrary _ (.start _))
  ⟨h, by decide +kernel, by decide +kernel, h.link_edges_exact⟩

end Vhdl
