import Vhdl.Proofs.Tree

/-! # The derived hierarchy

The hierarchy is the part of a dependency graph that concerns entities and architectures. It has the
edges of their implementations as they are and the edges of instances turned round. Both ends of
such an edge are kept, and two edges do not become equal when they are turned, so that each of them
is there once and in its order.
-/

namespace Vhdl

namespace Graph

variable {κ ν ε : Type}

def joined (graph : Graph κ ν ε) (edge : Edge ε) : Option (κ × ν) × Option (κ × ν) × ε :=
  (graph.vertex? edge.source, graph.vertex? edge.target, edge.weight)

theorem edges_foldl_addEdge [DecidableEq ε] {graph : Graph κ ν ε} {edges : List (Edge ε)}
    (hn : (graph.edges ++ edges).Nodup) (hl : ∀ edge ∈ edges, edge.source ≠ edge.target) :
    (edges.foldl (fun graph edge => (graph.addEdge edge).1) graph).edges =
      graph.edges ++ edges := by
  induction edges generalizing graph with
  | nil => simp
  | cons edge rest ih =>
    rw [List.forall_mem_cons] at hl
    have hnew : edge ∉ graph.edges := fun hm =>
      (List.nodup_append.mp hn).2.2 edge hm edge List.mem_cons_self rfl
    have hadd : (graph.addEdge edge).1.edges = graph.edges ++ [edge] := by
      simp [addEdge, hl.1, hnew]
    rw [List.append_cons] at hn ⊢
    rw [List.foldl_cons, ih (hadd ▸ hn) hl.2, hadd]

end Graph

namespace Hierarchy

variable {graph : DependencyGraph} {edge other : Edge EdgeKind}

/-- Different dependencies stay different, since the kind of an edge tells its direction. -/
theorem edgeOf?_inj {derived : Edge EdgeKind} (he : edgeOf? graph edge = some derived)
    (ho : edgeOf? graph other = some derived) : edge = other := by
  obtain ⟨a, b, _⟩ := edge
  obtain ⟨c, d, _⟩ := other
  obtain ⟨rfl, he⟩ := edgeOf?_eq_some_iff.mp he
  obtain ⟨rfl, ho⟩ := edgeOf?_eq_some_iff.mp ho
  rcases he with ⟨hc, hs, ht⟩ | ⟨hc, hs, ht⟩
  · rcases ho with ⟨_, hs', ht'⟩ | ⟨hc', _, _⟩
    · cases hs.symm.trans hs'
      cases ht.symm.trans ht'
      rfl
    · cases hc.symm.trans hc'
  · rcases ho with ⟨hc', _, _⟩ | ⟨_, hs', ht'⟩
    · cases hc.symm.trans hc'
    · cases hs.symm.trans hs'
      cases ht.symm.trans ht'
      rfl

theorem edges_graphOf (h : graph.Simple) :
    (graphOf graph).edges = graph.edges.filterMap (edgeOf? graph) := by
  refine Graph.edges_foldl_addEdge (h.nodup.filterMap fun a b e ha hb => edgeOf?_inj ha hb) ?_
  intro derived hd hloop
  obtain ⟨edge, he, hx⟩ := List.mem_filterMap.mp hd
  obtain ⟨source, target, kind⟩ := derived
  obtain rfl : source = target := hloop
  have hends : edge.source = edge.target := by
    rcases (edgeOf?_eq_some_iff.mp hx).2 with ⟨_, hs, ht⟩ | ⟨_, hs, ht⟩
    · exact Option.some.inj (hs.symm.trans ht)
    · exact Option.some.inj (hs.symm.trans ht)
  exact h.loopless edge he hends

theorem vertex?_graphOf {place number : Nat} (hp : (kept graph)[place]? = some number) :
    (graphOf graph).vertex? place = graph.vertex? number := by
  rw [Graph.vertex?, vertices_graphOf_getElem?, hp, Option.bind_some, Graph.vertex?]

/-- What becomes of a dependency by its kind: an implementation of an entity stays as it is, and an
instance is turned round. -/
def turned? (edge : Edge EdgeKind) : Option (Edge EdgeKind) :=
  match edge.weight with
  | .entityImplementation => some edge
  | .entityInstantiation | .componentInstantiation | .configurationInstantiation =>
    some ⟨edge.target, edge.source, edge.weight⟩
  | .libraryClause | .useClause | .contextReference | .configurationEntity
  | .configurationReference | .packageImplementation => none

theorem turned?_eq_some_iff : turned? edge = some other ↔
    edge.weight = .entityImplementation ∧ edge = other ∨
      edge.weight.edgeClass = .instantiates ∧
        ⟨edge.target, edge.source, edge.weight⟩ = other := by
  unfold turned?
  cases hw : edge.weight <;> simp [EdgeKind.edgeClass]

end Hierarchy

theorem Store.Settled.isHierarchical_of_instantiates {store : Store} {id target : UnitId}
    (h : store.Settled) (hi : store.Instantiates id target) :
    store.IsHierarchical id ∧ store.IsHierarchical target := by
  refine ⟨hi.architecture.imp fun _ _ => .inr, ?_⟩
  obtain ⟨kind, hk, _, _, _, _, _, _, _, _, hb⟩ := hi
  obtain ⟨unit, hu, hx⟩ := h.isBindable hb
  obtain ⟨library, hm, hin⟩ := h.registry.exists_library hu
  have hne : kind ≠ .configurationReference := by
    rintro rfl
    cases hk
  rw [if_neg hne] at hx
  exact ⟨library, hm, unit, hin, hx⟩

namespace Analysis.Faithful

variable {analysis : Analysis} {store : Store} {edge turned : Edge EdgeKind}

theorem mem_kept_of_turned? (h : analysis.Faithful store) (he : edge ∈ analysis.dependency.edges)
    (ht : Hierarchy.turned? edge = some turned) :
    edge.source ∈ Hierarchy.kept analysis.dependency ∧
      edge.target ∈ Hierarchy.kept analysis.dependency := by
  simp only [h.mem_kept_iff]
  rcases Hierarchy.turned?_eq_some_iff.mp ht with ⟨hw, _⟩ | ⟨hc, _⟩
  · obtain ⟨source, destination, _⟩ := edge
    obtain rfl : _ = EdgeKind.entityImplementation := hw
    obtain ⟨a, b, ha, hb, hl⟩ := h.linkedTo_of_edge he
    exact ⟨⟨a, ha, hl.architecture.imp fun _ _ => .inr⟩,
      b, hb, (h.settled.linkedTo_entity hl).imp fun _ _ => .inl⟩
  · have hk := EdgeKind.isLinked_of_instantiates hc
    obtain ⟨a, b, ha, hb⟩ := h.instances.ends edge he hk
    obtain ⟨_, hi⟩ := (h.instances.edge_iff _ hk a b).mp ⟨_, _, ha, hb, he⟩
    obtain ⟨hx, hy⟩ := h.settled.isHierarchical_of_instantiates ⟨_, hc, hi⟩
    exact ⟨⟨a, ha, hx⟩, b, hb, hy⟩

/-- Between the labels of its ends, the edge that stands for a dependency is the dependency or its
reverse. -/
theorem map_joined_edgeOf? (h : analysis.Faithful store)
    (he : edge ∈ analysis.dependency.edges) :
    (Hierarchy.edgeOf? analysis.dependency edge).map
        (Hierarchy.graphOf analysis.dependency).joined =
      (Hierarchy.turned? edge).map analysis.dependency.joined := by
  cases ht : Hierarchy.turned? edge with
  | none =>
    rw [Option.map_none, Option.map_eq_none_iff, Option.eq_none_iff_forall_ne_some]
    rintro ⟨source, target, kind⟩ hx
    obtain ⟨rfl, ⟨hc, hs, _⟩ | ⟨hc, _⟩⟩ := Hierarchy.edgeOf?_eq_some_iff.mp hx
    · -- The body of a package is not kept.
      obtain ⟨id, hid, hh⟩ := h.mem_kept_iff.mp (List.mem_of_getElem? hs)
      have hw := h.weight_of_implements he hc (.inl hid) hh
      cases ht.symm.trans (Hierarchy.turned?_eq_some_iff.mpr (.inl ⟨hw, rfl⟩))
    · cases ht.symm.trans (Hierarchy.turned?_eq_some_iff.mpr (.inr ⟨hc, rfl⟩))
  | some turned =>
    obtain ⟨hs, hd⟩ := h.mem_kept_of_turned? he ht
    obtain ⟨m, hm⟩ := List.mem_iff_getElem?.mp hs
    obtain ⟨n, hn⟩ := List.mem_iff_getElem?.mp hd
    rw [Option.map_some]
    rcases Hierarchy.turned?_eq_some_iff.mp ht with ⟨hw, rfl⟩ | ⟨hc, rfl⟩
    · have hc : edge.weight.edgeClass = .implements := by
        rw [hw]
        rfl
      rw [Hierarchy.edgeOf?_eq_some_iff.mpr ⟨rfl, .inl ⟨hc, hm, hn⟩⟩, Option.map_some,
        Graph.joined, Graph.joined, Hierarchy.vertex?_graphOf hm, Hierarchy.vertex?_graphOf hn]
    · rw [Hierarchy.edgeOf?_eq_some_iff.mpr ⟨rfl, .inr ⟨hc, hm, hn⟩⟩, Option.map_some,
        Graph.joined, Graph.joined, Hierarchy.vertex?_graphOf hm, Hierarchy.vertex?_graphOf hn]

end Analysis.Faithful

/-- The hierarchy of an analysis is the part of its dependency graph that concerns entities and
architectures. Their vertices are kept as they are and in their order, the edges of their
implementations and of instances are all there in their order, those of instances turned round, and
there are no others. The keys tell the vertices apart, so that an edge is known by its labels. -/
structure Analysis.HierarchyDerived (analysis : Analysis) : Prop where
  derived : analysis.hierarchy = .ofDependency analysis.dependency
  vertices : analysis.hierarchy.graph.vertices = analysis.dependency.vertices.filter fun entry =>
    entry.2.kind = .unit .entity ∨ entry.2.kind = .unit .architecture
  edges : analysis.hierarchy.graph.edges.map analysis.hierarchy.graph.joined =
    (analysis.dependency.edges.filterMap Hierarchy.turned?).map analysis.dependency.joined
  nodup : analysis.hierarchy.graph.edges.Nodup
  closed : analysis.hierarchy.graph.Closed
  keys : (analysis.hierarchy.graph.vertices.map Prod.fst).Nodup

theorem Analysis.Faithful.hierarchyDerived {analysis : Analysis} {store : Store}
    (h : analysis.Faithful store) : analysis.HierarchyDerived := by
  have hg : analysis.hierarchy.graph = Hierarchy.graphOf analysis.dependency := by
    rw [h.hierarchy]
    rfl
  have hv := Hierarchy.vertices_graphOf analysis.dependency
  have he := Hierarchy.edges_graphOf h.links.simple
  refine ⟨h.hierarchy, ?_, ?_, ?_, h.hierarchy ▸ Hierarchy.closed_ofDependency _, ?_⟩
  · rw [hg, hv]
    refine List.filter_congr fun entry _ => ?_
    simp [Hierarchy.isHierarchical]
  · rw [hg, he, List.map_filterMap, List.map_filterMap]
    exact List.filterMap_congr fun edge hm => h.map_joined_edgeOf? hm
  · rw [hg, he]
    exact h.links.simple.nodup.filterMap fun _ _ _ ha hb => Hierarchy.edgeOf?_inj ha hb
  · rw [hg, hv]
    exact h.keyed.keys.sublist (List.filter_sublist.map _)

/-- After an analysis of a reachable design the hierarchy has exactly the entities and
architectures, their implementations, and their instances turned round. -/
theorem Design.Reachable.hierarchy_derived {design : Design} (h : design.Reachable) :
    ∃ analysis, design.analyze.design.analysis = some analysis ∧ analysis.HierarchyDerived :=
  ⟨_, rfl, h.grounded.built.registry.faithful_analyze.hierarchyDerived⟩

/-- A package with its body, and an entity with two architectures, one of which has instances of
another entity or its architecture in each of the three ways. -/
def Design.forgeUnits : List DesignUnit :=
  let here : Identifier := ⟨"WoRk", by decide +kernel⟩
  let alloy : Identifier := ⟨"alloy", by decide +kernel⟩
  let anvil : Identifier := ⟨"anvil", by decide +kernel⟩
  let iron : Identifier := ⟨"iron", by decide +kernel⟩
  let order : Identifier := ⟨"commission", by decide +kernel⟩
  let smithy : Identifier := ⟨"smithy", by decide +kernel⟩
  let unlabelled (unit : InstantiatedUnit) : ConcStmt := .mk none (.instantiation { unit })
  [{ ident := alloy, body := .packageBody none [] },
    { ident := alloy, body := .package none [] },
    { ident := order
      body := .configuration { item := .selected (.simple here) anvil } [] (some (.simple iron)) },
    { ident := ⟨"hearth", by decide +kernel⟩
      body := .architecture { item := smithy } []
        [unlabelled (.component (.simple anvil)),
          unlabelled (.configuration (.simple order)),
          unlabelled (.entity (.selected (.simple here) anvil) (some iron)),
          unlabelled (.component (.simple anvil))] },
    { ident := ⟨"sketch", by decide +kernel⟩, body := .architecture { item := smithy } [] [] },
    { ident := smithy
      context := [.use [{ item := .all (.selected (.simple here) alloy) }]]
      body := .entity none none [] [] },
    { ident := iron, body := .architecture { item := anvil } [] [] },
    { ident := anvil, body := .entity none none [] [] }]

def Design.forges : Design :=
  let design := ((withConfig {}).createLibrary "foundry").design
  (design.addDocument { units := forgeUnits } ⟨0⟩).design

theorem Design.forges_hierarchy : forges.Reachable ∧
    (forges.analyze.design.analysis.map fun analysis => analysis.dependency.edgeKeys) =
      some [("foundry.commission", "foundry.anvil", .configurationEntity),
        ("foundry.smithy", "foundry.alloy", .useClause),
        ("foundry.smithy(hearth)", "foundry.smithy", .entityImplementation),
        ("foundry.smithy(sketch)", "foundry.smithy", .entityImplementation),
        ("foundry.anvil(iron)", "foundry.anvil", .entityImplementation),
        ("foundry.alloy(body)", "foundry.alloy", .packageImplementation),
        ("foundry.smithy(hearth)", "foundry.anvil", .componentInstantiation),
        ("foundry.smithy(hearth)", "foundry.commission", .configurationReference),
        ("foundry.smithy(hearth)", "foundry.anvil(iron)", .configurationInstantiation),
        ("foundry.smithy(hearth)", "foundry.anvil(iron)", .entityInstantiation)] ∧
    (forges.analyze.design.analysis.map fun analysis => analysis.hierarchy.graph.edgeKeys) =
      some [("foundry.smithy(hearth)", "foundry.smithy", .entityImplementation),
        ("foundry.smithy(sketch)", "foundry.smithy", .entityImplementation),
        ("foundry.anvil(iron)", "foundry.anvil", .entityImplementation),
        ("foundry.anvil", "foundry.smithy(hearth)", .componentInstantiation),
        ("foundry.anvil(iron)", "foundry.smithy(hearth)", .configurationInstantiation),
        ("foundry.anvil(iron)", "foundry.smithy(hearth)", .entityInstantiation)] ∧
    ∃ analysis, forges.analyze.design.analysis = some analysis ∧ analysis.HierarchyDerived :=
  have h : forges.Reachable := .addDocument _ _ (.createLibrary _ (.start _))
  ⟨h, by decide +kernel, by decide +kernel, h.hierarchy_derived⟩

end Vhdl
