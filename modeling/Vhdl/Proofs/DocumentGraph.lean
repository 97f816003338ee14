import Vhdl.Proofs.DocumentCycles

/-! # The graph of documents

The dependencies between units are taken one by one, and one of them adds an edge between its
documents if it is the first one that joins them. The graph therefore has one edge for each two
documents of which the one requires the other, with the units of the first such dependency. Its
vertices are the documents themselves, whatever their names are.
-/

namespace Vhdl

def DependencyGraph.Crosses (graph : DependencyGraph) (edge : Edge EdgeKind)
    (document other : DocumentId) : Prop :=
  ∃ u v : UnitId, (graph.label? edge.source).bind UnitVertex.unit? = some u ∧
    (graph.label? edge.target).bind UnitVertex.unit? = some v ∧
    u.document = document ∧ v.document = other

/-- The keys are those of the first edge from a unit of the one document to a unit of the other. -/
def DependencyGraph.FirstCrossing (graph : DependencyGraph) (document other : DocumentId)
    (label : CompileEdge) : Prop :=
  ∃ before edge after, graph.edges = before ++ edge :: after ∧
    graph.Crosses edge document other ∧
    (∀ earlier ∈ before, ¬ graph.Crosses earlier document other) ∧
    graph.keyOf? edge.source = some label.sourceUnit ∧
    graph.keyOf? edge.target = some label.targetUnit

namespace CompileOrder

variable {store : Store} {dependency : DependencyGraph}

theorem any_ofEdge?_iff {edge : Edge EdgeKind} {source target : Nat} :
    (ofEdge? dependency edge).any (·.joins source target) = true ↔
      dependency.Crosses edge ⟨source⟩ ⟨target⟩ := by
  simp only [Option.any_eq_true, Edge.joins_iff]
  exact exists_ofEdge?_iff

theorem keyOf?_of_ofEdge? {edge : Edge EdgeKind} {projected : Edge CompileEdge}
    (h : ofEdge? dependency edge = some projected) :
    dependency.keyOf? edge.source = some projected.weight.sourceUnit ∧
      dependency.keyOf? edge.target = some projected.weight.targetUnit := by
  simp only [ofEdge?, Option.bind_eq_bind, Option.bind_eq_some_iff, Option.pure_def,
    Option.some.injEq] at h
  obtain ⟨x, hx, y, hy, _, _, _, _, rfl⟩ := h
  simp [Graph.keyOf?, hx, hy]

/-- An edge between documents has the units of the first dependency that crosses from the one to
the other. -/
theorem firstCrossing_of_mem {edge : Edge CompileEdge}
    (h : edge ∈ (ofDependency store dependency).graph.edges) :
    dependency.FirstCrossing ⟨edge.source⟩ ⟨edge.target⟩ edge.weight := by
  have hfind := ((firsts_ofDependency.mem_iff edge).mp h).2
  rw [List.find?_filterMap, Option.bind_eq_some_iff] at hfind
  obtain ⟨first, hfirst, hproj⟩ := hfind
  obtain ⟨hcross, before, after, hsplit, hbefore⟩ := List.find?_eq_some_iff_append.mp hfirst
  refine ⟨before, first, after, hsplit, any_ofEdge?_iff.mp hcross, fun earlier hm hc => ?_,
    keyOf?_of_ofEdge? hproj⟩
  exact absurd (any_ofEdge?_iff.mpr hc) (by simpa using hbefore earlier hm)

theorem vertices_eq_mapIdx : (ofDependency store dependency).graph.vertices =
    store.documents.mapIdx fun index document => (⟨index⟩, document.displayName index) := by
  rw [vertices_ofDependency, Store.numberedDocuments, List.map_map, List.mapIdx_eq_zipIdx_map]
  rfl

theorem vertexOf?_ofDependency {id : DocumentId} {vertex : Nat} :
    (ofDependency store dependency).vertexOf? id = some vertex ↔
      vertex = id.index ∧ store.HasDocument id := by
  rw [vertexOf?, Graph.vertexId?, vertices_eq_mapIdx, List.findIdx?_eq_some_iff_getElem]
  simp only [List.length_mapIdx, List.getElem_mapIdx, decide_eq_true_eq]
  constructor
  · rintro ⟨hlt, rfl, _⟩
    exact ⟨rfl, _, List.getElem?_eq_getElem hlt⟩
  · rintro ⟨rfl, document, hd⟩
    refine ⟨(List.getElem?_eq_some_iff.mp hd).1, rfl, fun earlier hlt he => ?_⟩
    exact Nat.ne_of_lt hlt (congrArg DocumentId.index he)

/-- The graph of documents says which documents require each other, and by which units. Documents
are told apart by their numbers. -/
structure GraphExact (order : CompileOrder) (store : Store) (dependency : DependencyGraph) :
    Prop where
  vertices : order.graph.vertices =
    store.documents.mapIdx fun index document => (⟨index⟩, document.displayName index)
  found_iff : ∀ id vertex, order.vertexOf? id = some vertex ↔
    vertex = id.index ∧ store.HasDocument id
  closed : order.graph.Closed
  edge_iff : ∀ document other, (∃ label, ⟨document.index, other.index, label⟩ ∈ order.graph.edges) ↔
    document ≠ other ∧ ∃ edge ∈ dependency.edges, dependency.Crosses edge document other
  unique : order.graph.edges.Pairwise fun a b => ¬ (a.source = b.source ∧ a.target = b.target)
  first : ∀ edge ∈ order.graph.edges,
    dependency.FirstCrossing ⟨edge.source⟩ ⟨edge.target⟩ edge.weight

theorem graphExact_ofDependency (h : (ofDependency store dependency).graph.Closed) :
    (ofDependency store dependency).GraphExact store dependency := by
  refine ⟨vertices_eq_mapIdx, fun _ _ => vertexOf?_ofDependency, h, fun document other => ?_,
    firsts_ofDependency.unique, fun _ => firstCrossing_of_mem⟩
  refine Iff.trans ?_ (@mem_successors_ofDependency store dependency _ _)
  rw [Graph.mem_successors_iff]
  constructor
  · rintro ⟨label, hm⟩
    exact ⟨_, hm, rfl, rfl⟩
  · rintro ⟨⟨source, target, label⟩, hm, hs, ht⟩
    cases hs
    cases ht
    exact ⟨label, hm⟩

end CompileOrder

namespace Design

/-- The graph of documents of every analyzed design is exact. -/
theorem Reachable.document_graph_exact {design : Design} {analysis : Analysis}
    (h : design.Reachable) (ha : design.analysis = some analysis) :
    analysis.compileOrder.GraphExact design.store analysis.dependency := by
  obtain ⟨store, hb, hs, rfl⟩ := h.grounded.analyzed analysis ha
  rw [hs]
  exact CompileOrder.graphExact_ofDependency hb.registry.represents_compileOrder.closed

/-- Two documents with the same name, of which the first one requires the other by two of its units
after a dependency on a library and one within the document. -/
def orchard : Design :=
  let here : Identifier := ⟨"worK", by decide +kernel⟩
  let apple : Identifier := ⟨"apple", by decide +kernel⟩
  let cherry : Identifier := ⟨"cherry", by decide +kernel⟩
  let pear : Identifier := ⟨"pear", by decide +kernel⟩
  let uses (part : Identifier) : ContextItem :=
    .use [{ item := .all (.selected (.simple here) part) }]
  let package (ident : Identifier) (context : List ContextItem) : DesignUnit :=
    { ident, context, body := .package none [] }
  let fruits : List DesignUnit :=
    [package apple [.library [{ item := ⟨"orchard", by decide +kernel⟩ }]],
      package ⟨"plum", by decide +kernel⟩ [uses apple, uses pear],
      package ⟨"quince", by decide +kernel⟩ [uses cherry]]
  let design := ((withConfig {}).createLibrary "orchard").design
  let design := (design.addDocument
    { path := some (.ofString "<virtual 1>"), units := fruits } ⟨0⟩).design
  (design.addDocument { units := [package cherry [], package pear []] } ⟨0⟩).design

theorem orchard_document_graph : orchard.analyze.design.Reachable ∧
    ∃ analysis, orchard.analyze.design.analysis = some analysis ∧
      analysis.compileOrder.graph.vertices = [(⟨0⟩, "<virtual 1>"), (⟨1⟩, "<virtual 1>")] ∧
      analysis.compileOrder.graph.edges = [⟨0, 1, ⟨"orchard.plum", "orchard.pear"⟩⟩] ∧
      analysis.compileOrder.GraphExact orchard.analyze.design.store analysis.dependency := by
  have h : orchard.analyze.design.Reachable :=
    .analyze (.addDocument _ _ (.addDocument _ _ (.createLibrary _ (.start _))))
  exact ⟨h, orchard.store.analyze.analysis, rfl, by decide +kernel, by decide +kernel,
    h.document_graph_exact rfl⟩

end Design

end Vhdl
