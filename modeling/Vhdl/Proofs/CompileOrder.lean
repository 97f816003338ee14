import Vhdl.Proofs.Scheduling
import Vhdl.Proofs.Vertices

/-! # Compile order

The graph of documents has an edge wherever a unit depends on a unit of another document. It comes
from the first such dependency, and later ones between the same documents add nothing. The compile
order lists all documents as early as their dependencies allow, and there is none only if no order
of the documents respects the dependencies.
-/

namespace Vhdl

section Firsts

variable {ε : Type}

def Edge.joins (source target : Nat) (edge : Edge ε) : Bool :=
  edge.source = source && edge.target = target

theorem Edge.joins_iff {source target : Nat} {edge : Edge ε} :
    edge.joins source target = true ↔ edge.source = source ∧ edge.target = target := by
  simp [joins]

/-- Of the edges that were taken, those that lead to another vertex are kept, but for each two
vertices only the first one. -/
structure Firsts (taken kept : List (Edge ε)) : Prop where
  mem_iff : ∀ edge, edge ∈ kept ↔ edge.source ≠ edge.target ∧
    taken.find? (·.joins edge.source edge.target) = some edge
  unique : kept.Pairwise fun a b => ¬ (a.source = b.source ∧ a.target = b.target)

namespace Firsts

variable {taken kept : List (Edge ε)} {edge : Edge ε} {source target : Nat}

theorem nil : Firsts ([] : List (Edge ε)) [] := ⟨by simp, .nil⟩

theorem find?_eq_none_iff (h : Firsts taken kept) (hne : source ≠ target) :
    taken.find? (·.joins source target) = none ↔
      ∀ old ∈ kept, ¬ (old.source = source ∧ old.target = target) := by
  constructor
  · rintro hnone old ho ⟨rfl, rfl⟩
    cases hnone.symm.trans ((h.mem_iff old).mp ho).2
  · intro hall
    by_contra hsome
    obtain ⟨old, hfind⟩ := Option.ne_none_iff_exists'.mp hsome
    obtain ⟨rfl, rfl⟩ := Edge.joins_iff.mp (List.find?_some hfind)
    exact hall old ((h.mem_iff old).mpr ⟨hne, hfind⟩) ⟨rfl, rfl⟩

theorem exists_mem_iff (h : Firsts taken kept) :
    (∃ edge ∈ kept, edge.source = source ∧ edge.target = target) ↔
      source ≠ target ∧ ∃ edge ∈ taken, edge.source = source ∧ edge.target = target := by
  constructor
  · rintro ⟨edge, hm, rfl, rfl⟩
    obtain ⟨hne, hfind⟩ := (h.mem_iff edge).mp hm
    exact ⟨hne, edge, List.mem_of_find?_eq_some hfind, rfl, rfl⟩
  · rintro ⟨hne, edge, hm, hends⟩
    by_contra hall
    push Not at hall
    have hnone := (h.find?_eq_none_iff hne).mpr fun old ho he => hall old ho he.1 he.2
    exact List.find?_eq_none.mp hnone edge hm (Edge.joins_iff.mpr hends)

theorem find?_concat : (taken ++ [edge]).find? (·.joins source target) =
    (taken.find? (·.joins source target)).or
      (if edge.source = source ∧ edge.target = target then some edge else none) := by
  rw [List.find?_append, List.find?_singleton]
  simp only [Edge.joins_iff]

theorem skip (h : Firsts taken kept) (hskip : edge.source ≠ edge.target →
      ∃ old ∈ kept, old.source = edge.source ∧ old.target = edge.target) :
    Firsts (taken ++ [edge]) kept := by
  refine ⟨fun other => (h.mem_iff other).trans (and_congr_right fun hne => ?_), h.unique⟩
  rw [find?_concat]
  split_ifs with hends
  · obtain ⟨hsource, htarget⟩ := hends
    rw [← hsource, ← htarget] at hne ⊢
    obtain ⟨old, ho, hs, ht⟩ := hskip hne
    have hsome := ((h.mem_iff old).mp ho).2
    rw [hs, ht] at hsome
    rw [hsome, Option.some_or]
  · rw [Option.or_none]

theorem add (h : Firsts taken kept) (hne : edge.source ≠ edge.target)
    (hnew : ∀ old ∈ kept, ¬ (old.source = edge.source ∧ old.target = edge.target)) :
    Firsts (taken ++ [edge]) (kept ++ [edge]) := by
  refine ⟨fun other => ?_, ?_⟩
  · rw [List.mem_append, List.mem_singleton, find?_concat]
    split_ifs with hends
    · obtain ⟨hsource, htarget⟩ := hends
      have hold : other ∉ kept := fun ho => hnew other ho ⟨hsource.symm, htarget.symm⟩
      rw [← hsource, ← htarget, (h.find?_eq_none_iff hne).mpr hnew, Option.none_or,
        or_iff_right hold, Option.some.injEq, eq_comm (a := other)]
      exact (and_iff_right hne).symm
    · have hother : other ≠ edge := by
        rintro rfl
        exact hends ⟨rfl, rfl⟩
      rw [or_iff_left hother, Option.or_none, h.mem_iff]
  · refine List.pairwise_append.mpr ⟨h.unique, List.pairwise_singleton _ _, ?_⟩
    intro old ho other hother
    rw [List.mem_singleton.mp hother]
    exact hnew old ho

end Firsts

end Firsts

/-- Some unit of the first document depends on a unit of the second one, which is another
document. -/
def DependencyGraph.Requires (graph : DependencyGraph) (document other : DocumentId) : Prop :=
  document ≠ other ∧ ∃ edge ∈ graph.edges, ∃ u v : UnitId,
    (graph.label? edge.source).bind UnitVertex.unit? = some u ∧
    (graph.label? edge.target).bind UnitVertex.unit? = some v ∧
    u.document = document ∧ v.document = other

def Store.HasDocument (store : Store) (id : DocumentId) : Prop :=
  ∃ document, store.document? id = some document

namespace CompileOrder

variable {store : Store} {dependency : DependencyGraph} {source target : Nat}

theorem vertices_addFirst (graph : Graph DocumentId String CompileEdge) (edge : Edge CompileEdge) :
    (addFirst graph edge).vertices = graph.vertices := by
  unfold addFirst
  split
  · rfl
  · exact Graph.vertices_addEdge graph edge

theorem vertices_foldl_addFirst (edges : List (Edge CompileEdge))
    (graph : Graph DocumentId String CompileEdge) :
    (edges.foldl addFirst graph).vertices = graph.vertices := by
  induction edges generalizing graph with
  | nil => rfl
  | cons edge rest ih => exact (ih _).trans (vertices_addFirst graph edge)

theorem addFirst_cases (graph : Graph DocumentId String CompileEdge) (edge : Edge CompileEdge) :
    ((addFirst graph edge).edges = graph.edges ∧ (edge.source ≠ edge.target →
      ∃ old ∈ graph.edges, old.source = edge.source ∧ old.target = edge.target)) ∨
    (addFirst graph edge).edges = graph.edges ++ [edge] ∧ edge.source ≠ edge.target ∧
      ∀ old ∈ graph.edges, ¬ (old.source = edge.source ∧ old.target = edge.target) := by
  have hhas : graph.hasEdge edge.source edge.target = true ↔
      ∃ old ∈ graph.edges, old.source = edge.source ∧ old.target = edge.target := by
    simp [Graph.hasEdge]
  by_cases hh : graph.hasEdge edge.source edge.target = true
  · exact .inl ⟨by rw [addFirst, if_pos hh], fun _ => hhas.mp hh⟩
  · rw [addFirst, if_neg hh, Graph.addEdge]
    rw [hhas] at hh
    by_cases hl : edge.source = edge.target
    · exact .inl ⟨by rw [if_pos hl], fun hne => absurd hl hne⟩
    · have hnew : graph.edges.contains edge = false := by
        rw [List.contains_eq_mem, decide_eq_false_iff_not]
        exact fun hm => hh ⟨edge, hm, rfl, rfl⟩
      rw [if_neg hl, hnew]
      exact .inr ⟨rfl, hl, fun old ho hends => hh ⟨old, ho, hends⟩⟩

theorem firsts_addFirst {graph : Graph DocumentId String CompileEdge}
    {taken : List (Edge CompileEdge)} (h : Firsts taken graph.edges) (edge : Edge CompileEdge) :
    Firsts (taken ++ [edge]) (addFirst graph edge).edges := by
  rcases addFirst_cases graph edge with ⟨he, hskip⟩ | ⟨he, hne, hnew⟩
  · rw [he]
    exact h.skip hskip
  · rw [he]
    exact h.add hne hnew

theorem firsts_foldl (edges taken : List (Edge CompileEdge))
    {graph : Graph DocumentId String CompileEdge} (h : Firsts taken graph.edges) :
    Firsts (taken ++ edges) (edges.foldl addFirst graph).edges := by
  induction edges generalizing taken graph with
  | nil => rwa [List.append_nil]
  | cons edge rest ih =>
    rw [List.append_cons]
    exact ih _ (firsts_addFirst h edge)

theorem firsts_ofDependency : Firsts (dependency.edges.filterMap (ofEdge? dependency))
    (ofDependency store dependency).graph.edges :=
  firsts_foldl _ [] .nil

theorem exists_ofEdge?_iff {edge : Edge EdgeKind} :
    (∃ projected, ofEdge? dependency edge = some projected ∧ projected.source = source ∧
      projected.target = target) ↔ ∃ u v : UnitId,
      (dependency.label? edge.source).bind UnitVertex.unit? = some u ∧
      (dependency.label? edge.target).bind UnitVertex.unit? = some v ∧
      u.document = ⟨source⟩ ∧ v.document = ⟨target⟩ := by
  simp only [ofEdge?, Graph.label?, Option.bind_eq_bind, Option.bind_eq_some_iff,
    Option.map_eq_some_iff, Option.pure_def, Option.some.injEq]
  constructor
  · rintro ⟨_, ⟨x, hx, y, hy, u, hu, v, hv, rfl⟩, rfl, rfl⟩
    exact ⟨u, v, ⟨_, ⟨x, hx, rfl⟩, hu⟩, ⟨_, ⟨y, hy, rfl⟩, hv⟩, rfl, rfl⟩
  · rintro ⟨u, v, ⟨_, ⟨x, hx, rfl⟩, hu⟩, ⟨_, ⟨y, hy, rfl⟩, hv⟩, hs, ht⟩
    exact ⟨_, ⟨x, hx, y, hy, u, hu, v, hv, rfl⟩, congrArg DocumentId.index hs,
      congrArg DocumentId.index ht⟩

/-- The edges of documents are the dependencies between units of different documents. -/
theorem mem_successors_ofDependency :
    target ∈ (ofDependency store dependency).graph.successors source ↔
      dependency.Requires ⟨source⟩ ⟨target⟩ := by
  rw [Graph.mem_successors_iff, firsts_ofDependency.exists_mem_iff]
  simp only [List.mem_filterMap, DependencyGraph.Requires, ne_eq, DocumentId.mk.injEq]
  refine and_congr_right fun _ => ⟨?_, ?_⟩
  · rintro ⟨projected, ⟨edge, he, hp⟩, hs⟩
    exact ⟨edge, he, exists_ofEdge?_iff.mp ⟨projected, hp, hs⟩⟩
  · rintro ⟨edge, he, hu⟩
    obtain ⟨projected, hp, hs⟩ := exists_ofEdge?_iff.mpr hu
    exact ⟨projected, ⟨edge, he, hp⟩, hs⟩

theorem vertices_ofDependency : (ofDependency store dependency).graph.vertices =
    store.numberedDocuments.map fun (id, document) => (id, document.displayName id.index) :=
  vertices_foldl_addFirst _ _

theorem numVertices_ofDependency :
    (ofDependency store dependency).graph.numVertices = store.documents.length := by
  simp [Graph.numVertices, vertices_ofDependency, Store.numberedDocuments]

theorem keyOf?_ofDependency {id : Nat} (h : id < store.documents.length) :
    (ofDependency store dependency).graph.keyOf? id = some ⟨id⟩ := by
  simp [Graph.keyOf?, Graph.vertex?, vertices_ofDependency, Store.numberedDocuments, h]

def documentEquiv : Nat ≃ DocumentId where
  toFun := DocumentId.mk
  invFun := DocumentId.index
  left_inv _ := rfl
  right_inv _ := rfl

/-- The order is an arrangement in which the earliest document that is eligible always comes next.
There is none only if there is no arrangement. No counter is ever below zero. -/
structure Exact (order : CompileOrder) (documents : DocumentId → Prop)
    (requires : DocumentId → DocumentId → Prop) : Prop where
  arrangement : ∀ listed, order.order = .ok listed → Arrangement documents requires listed
  least : ∀ listed, order.order = .ok listed → ∀ before document after,
    listed = before ++ document :: after → Eligible documents requires before document ∧
      ∀ other, Eligible documents requires before other → document.index ≤ other.index
  error_iff : (∃ diagnostic, order.order = .error diagnostic) ↔
    ¬ ∃ listed, Arrangement documents requires listed
  nonneg : ∀ progress, Progress.Reached order.graph progress → ∀ count ∈ progress.pending, 0 ≤ count

def final (order : CompileOrder) : Progress :=
  (Progress.start order.graph).run order.graph

theorem reached_final (order : CompileOrder) : Progress.Reached order.graph order.final :=
  Progress.Reached.run .refl

/-- The outcome is decided by how many documents are listed in the end. -/
theorem order_cases {order : CompileOrder}
    (hk : ∀ id < order.graph.numVertices, order.graph.keyOf? id = some ⟨id⟩)
    (hv : Progress.Valid order.graph order.final) :
    (order.order = .ok (order.final.listed.map documentEquiv) ∧
      order.final.listed.length = order.graph.numVertices) ∨
    order.final.listed.length ≠ order.graph.numVertices ∧
      ∃ diagnostic, order.order = .error diagnostic := by
  have hl : order.final.listed.filterMap order.graph.keyOf? =
      order.final.listed.map documentEquiv := by
    rw [← List.filterMap_eq_map]
    exact List.filterMap_congr fun id hm => hk id (hv.listed_zero id hm).1
  unfold CompileOrder.order
  dsimp only
  rw [← final, hl, List.length_map]
  split
  · next h => exact .inl ⟨rfl, h⟩
  · next h => exact .inr ⟨h, _, rfl⟩

section Exact

variable {order : CompileOrder} {documents : DocumentId → Prop}
  {requires : DocumentId → DocumentId → Prop}
  (hn : ∀ id, documents ⟨id⟩ ↔ id < order.graph.numVertices)
  (hr : ∀ source target, requires ⟨source⟩ ⟨target⟩ ↔ target ∈ order.graph.successors source)

include hn hr

theorem arrangement_iff {listed : List Nat} :
    Arrangement documents requires (listed.map documentEquiv) ↔
      Arrangement (· < order.graph.numVertices)
        (fun source target => target ∈ order.graph.successors source) listed := by
  rw [arrangement_map, ← funext₂ fun source target => propext (hr source target),
    ← funext fun id => propext (hn id)]
  rfl

theorem eligible_iff {before : List Nat} {id : Nat} :
    Eligible documents requires (before.map documentEquiv) (documentEquiv id) ↔
      Progress.CanFollow order.graph before id := by
  rw [eligible_map, Progress.CanFollow, ← funext₂ fun source target => propext (hr source target),
    ← funext fun id => propext (hn id)]
  rfl

/-- Each document of the order is the earliest one that can follow those before it. -/
theorem least_of_valid {progress : Progress} (hv : Progress.Valid order.graph progress)
    {before after : List DocumentId} {document : DocumentId}
    (he : progress.listed.map documentEquiv = before ++ document :: after) :
    Eligible documents requires before document ∧
      ∀ other, Eligible documents requires before other → document.index ≤ other.index := by
  obtain ⟨xs, ys, hx, rfl, hy⟩ := List.map_eq_append_iff.mp he
  obtain ⟨id, zs, rfl, rfl, rfl⟩ := List.map_eq_cons_iff.mp hy
  obtain ⟨hf, hl⟩ := hv.least xs id zs hx
  refine ⟨(eligible_iff hn hr).mpr hf, fun other ho => ?_⟩
  exact hl other.index ((eligible_iff hn hr).mp ho)

theorem exact_of_graph (hk : ∀ id < order.graph.numVertices, order.graph.keyOf? id = some ⟨id⟩)
    (hb : ∀ a b, requires a b → documents a) : order.Exact documents requires := by
  have hc : ∀ edge ∈ order.graph.edges, edge.source < order.graph.numVertices := fun edge he =>
    (hn _).mp (hb _ _ ((hr _ _).mpr (Graph.mem_successors_iff.mpr ⟨edge, he, rfl, rfl⟩)))
  have hv := order.reached_final.valid hc
  have hp : ∀ progress, Progress.Reached order.graph progress →
      ∀ count ∈ progress.pending, 0 ≤ count := fun _ hp _ hm => (hp.valid hc).nonneg hm
  rcases order_cases hk hv with ⟨ho, hl⟩ | ⟨hl, diagnostic, ho⟩
  · have ha := (arrangement_iff hn hr).mpr (hv.arrangement hc hl)
    refine ⟨fun listed h => ?_, fun listed h before document after he => ?_, ?_, hp⟩
    · cases ho.symm.trans h
      exact ha
    · cases ho.symm.trans h
      exact least_of_valid hn hr hv he
    · refine iff_of_false ?_ (not_not_intro ⟨_, ha⟩)
      rintro ⟨_, h⟩
      cases ho.symm.trans h
  · refine ⟨fun listed h => ?_, fun listed h => ?_, ?_, hp⟩
    · cases ho.symm.trans h
    · cases ho.symm.trans h
    · refine iff_of_true ⟨diagnostic, ho⟩ ?_
      rintro ⟨listed, ha⟩
      have hm : (listed.map DocumentId.index).map documentEquiv = listed :=
        List.map_map.trans (List.map_id listed)
      rw [← hm, arrangement_iff hn hr] at ha
      exact hl (hv.length_listed (Progress.step?_run ..) ha)

end Exact

theorem exact_ofDependency
    (hb : ∀ a b, dependency.Requires a b → store.HasDocument a) :
    (ofDependency store dependency).Exact store.HasDocument dependency.Requires := by
  refine exact_of_graph (fun id => ?_) (fun _ _ => mem_successors_ofDependency.symm)
    (fun id hlt => keyOf?_ofDependency (numVertices_ofDependency ▸ hlt)) hb
  rw [numVertices_ofDependency]
  exact ⟨fun ⟨_, hd⟩ => (List.getElem?_eq_some_iff.mp hd).1,
    fun hlt => ⟨_, List.getElem?_eq_getElem hlt⟩⟩

end CompileOrder

namespace Store

variable {store : Store}

theorem Registry.hasDocument (h : store.Registry) {graph : DependencyGraph}
    (hv : graph.vertices = store.vertices) {vertex : Nat} {id : UnitId}
    (hu : (graph.label? vertex).bind UnitVertex.unit? = some id) :
    store.HasDocument id.document := by
  simp only [Graph.label?, Graph.vertex?, hv, Option.bind_eq_some_iff, Option.map_eq_some_iff] at hu
  obtain ⟨_, ⟨entry, he, rfl⟩, hu⟩ := hu
  have hm := h.mem_vertices_iff.mp (List.mem_map_of_mem (List.mem_of_getElem? he))
  rcases mem_items_iff.mp hm with ⟨library, _, hi⟩ | ⟨registered, hr, hi⟩
  · rw [UnitVertex.unit?, (Prod.mk.inj hi).2] at hu
    cases hu
  · rw [UnitVertex.unit?, (Prod.mk.inj hi).2] at hu
    cases hu
    exact ⟨_, (h.registered?_iff.mp hr).2.1⟩

theorem Registry.exact_compileOrder (h : store.Registry) :
    store.analyze.analysis.compileOrder.Exact store.analyze.store.HasDocument
      store.analyze.analysis.dependency.Requires := by
  refine CompileOrder.exact_ofDependency ?_
  rintro a b ⟨_, edge, _, u, v, hu, _, rfl, _⟩
  exact h.analyze.hasDocument (h.analyze.vertices_dependencies _) hu

end Store

/-- The compile order of every analyzed design is exact. -/
theorem Design.Reachable.compileOrder_exact {design : Design} {analysis : Analysis}
    (h : design.Reachable) (ha : design.analysis = some analysis) :
    analysis.compileOrder.Exact design.store.HasDocument analysis.dependency.Requires := by
  obtain ⟨store, hb, hs, rfl⟩ := h.grounded.analyzed analysis ha
  rw [hs]
  exact hb.registry.exact_compileOrder

def Design.lateEntity : Design :=
  let adder : Identifier := ⟨"adder", by decide +kernel⟩
  let entity (ident : Identifier) : DesignUnit := { ident, body := .entity none none [] [] }
  let architecture : DesignUnit :=
    { ident := ⟨"fast", by decide +kernel⟩, body := .architecture { item := adder } [] [] }
  let design := ((withConfig {}).createLibrary "lib").design
  let design := (design.addDocument { units := [architecture] } ⟨0⟩).design
  let design := (design.addDocument { units := [entity adder] } ⟨0⟩).design
  (design.addDocument { units := [entity ⟨"clock", by decide +kernel⟩] } ⟨0⟩).design

theorem Design.lateEntity_graph : lateEntity.store.analyze.analysis.compileOrder =
    ⟨{ vertices := [(⟨0⟩, "<virtual 0>"), (⟨1⟩, "<virtual 1>"), (⟨2⟩, "<virtual 2>")]
       edges := [⟨0, 1, ⟨"lib.adder(fast)", "lib.adder"⟩⟩] }⟩ :=
  congrArg₂ (fun vertices edges => CompileOrder.mk ⟨vertices, edges⟩)
    (by decide +kernel : lateEntity.store.analyze.analysis.compileOrder.graph.vertices = _)
    (by decide +kernel : lateEntity.store.analyze.analysis.compileOrder.graph.edges = _)

theorem Design.lateEntity_compileOrder : lateEntity.analyze.design.Reachable ∧
    ∃ analysis, lateEntity.analyze.design.analysis = some analysis ∧
      analysis.compileOrder.order.toOption = some [⟨1⟩, ⟨0⟩, ⟨2⟩] ∧
      analysis.compileOrder.Exact lateEntity.analyze.design.store.HasDocument
        analysis.dependency.Requires := by
  have h : lateEntity.analyze.design.Reachable :=
    .analyze (.addDocument _ _ (.addDocument _ _ (.addDocument _ _ (.createLibrary _ (.start _)))))
  refine ⟨h, lateEntity.store.analyze.analysis, rfl, ?_, h.compileOrder_exact rfl⟩
  rw [lateEntity_graph]
  cbv

end Vhdl
