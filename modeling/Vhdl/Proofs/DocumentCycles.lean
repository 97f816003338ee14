import Vhdl.Proofs.CircularDependencies
import Vhdl.Proofs.CompileOrder

/-! # Cycles of documents

What is left over when no document can be listed any more holds a cycle, because each document there
waits for another one. There is therefore no compile order exactly if some documents depend on each
other, and then each group of such documents is reported. Units of different documents that depend
on each other put their documents into one group.
-/

namespace Vhdl

/-- No item of an arrangement requires itself, not even through others. -/
theorem Arrangement.idxOf_lt_of_transGen {α : Type} [DecidableEq α] {items : α → Prop}
    {requires : α → α → Prop} {order : List α} (h : Arrangement items requires order) {x y : α}
    (hr : Relation.TransGen requires x y) : order.idxOf y < order.idxOf x := by
  induction hr with
  | single hs => exact h.before _ _ hs
  | tail _ hs ih => exact Nat.lt_trans (h.before _ _ hs) ih

theorem forall₂_filterMap {α β : Type} {r : α → β → Prop} {f : α → Option β} {xs : List α}
    (h : ∀ x ∈ xs, ∃ y, f x = some y ∧ r x y) : List.Forall₂ r xs (xs.filterMap f) := by
  induction xs with
  | nil => exact .nil
  | cons x xs ih =>
    obtain ⟨⟨y, hy, hr⟩, hrest⟩ := List.forall_mem_cons.mp h
    rw [List.filterMap_cons_some hy]
    exact .cons hr (ih hrest)

theorem Graph.Closed.lt_of_mem_cycle {κ ν ε : Type} {graph : Graph κ ν ε} {members : List Nat}
    {a : Nat} (h : graph.Closed) (hm : members ∈ graph.cycles) (ha : a ∈ members) :
    a < graph.numVertices := by
  obtain ⟨b, hb, hne⟩ := h.cyclesExact.exists_ne hm a
  exact h.lt_of_components ((h.cyclesExact.mem_iff_components hm ha).mp hb) hne.symm

namespace CompileOrder.Progress.Valid

variable {κ ν ε : Type} {graph : Graph κ ν ε} {progress : Progress} {id : Nat}

theorem exists_step (h : Valid graph progress) (hs : progress.step? graph = none)
    (hid : id < graph.numVertices) (hn : id ∉ progress.listed) :
    ∃ other, graph.Step id other ∧ other ∉ progress.listed := by
  by_contra hm
  push Not at hm
  exact h.not_canFollow hs id ⟨hid, hn, fun other ho => hm other (Graph.mem_successors_iff.mp ho)⟩

/-- The documents that are left over lead to each other, and so to one that leads to itself. -/
theorem exists_cyclic (h : Valid graph progress) (hc : graph.Closed)
    (hs : progress.step? graph = none) (hid : id < graph.numVertices) (hn : id ∉ progress.listed) :
    ∃ cyclic, graph.Reaches id cyclic ∧ Relation.TransGen graph.Step cyclic cyclic := by
  let left (other : Nat) : Prop :=
    other < graph.numVertices ∧ other ∉ progress.listed ∧ graph.Reaches id other
  have hwait : ∀ a, left a → ∃ b, left b ∧ Relation.TransGen graph.Step a b := by
    rintro a ⟨ha, hna, hr⟩
    obtain ⟨b, hab, hnb⟩ := h.exists_step hs ha hna
    have hb : b < graph.numVertices := by
      obtain ⟨edge, he, _, rfl⟩ := hab
      exact (hc edge he).2
    exact ⟨b, ⟨hb, hnb, hr.tail hab⟩, .single hab⟩
  have hfinite : {other | left other}.Finite :=
    (Set.finite_lt_nat graph.numVertices).subset fun _ hx => hx.1
  obtain ⟨cyclic, ⟨_, _, hr⟩, hcyclic⟩ := exists_transGen_self hfinite hwait ⟨hid, hn, .refl⟩
  exact ⟨cyclic, hr, hcyclic⟩

theorem hasCycle (h : Valid graph progress) (hc : graph.Closed)
    (hs : progress.step? graph = none) (hl : progress.listed.length ≠ graph.numVertices) :
    graph.HasCycle := by
  obtain ⟨id, hid, hn⟩ : ∃ id < graph.numVertices, id ∉ progress.listed := by
    by_contra hall
    push Not at hall
    exact hl (h.length_listed_of_forall_mem hall)
  obtain ⟨cyclic, _, hcyclic⟩ := h.exists_cyclic hc hs hid hn
  exact ⟨cyclic, hcyclic⟩

end CompileOrder.Progress.Valid

namespace CompileOrder

structure Represents (order : CompileOrder) (requires : DocumentId → DocumentId → Prop) : Prop where
  closed : order.graph.Closed
  keys : ∀ id < order.graph.numVertices, order.graph.keyOf? id = some ⟨id⟩
  step_iff : ∀ a b, order.graph.Step a b ↔ requires ⟨a⟩ ⟨b⟩
  irrefl : ∀ document, ¬ requires document document

namespace Represents

variable {order : CompileOrder} {requires : DocumentId → DocumentId → Prop}

theorem not_step_self (h : order.Represents requires) (id : Nat) : ¬ order.graph.Step id id := by
  rw [h.step_iff]
  exact h.irrefl _

theorem transGen_iff (h : order.Represents requires) {a b : DocumentId} :
    Relation.TransGen order.graph.Step a.index b.index ↔ Relation.TransGen requires a b :=
  ⟨fun hp => hp.lift DocumentId.mk fun _ _ => (h.step_iff _ _).mp,
    fun hp => hp.lift DocumentId.index fun _ _ => (h.step_iff _ _).mpr⟩

theorem reaches_iff (h : order.Represents requires) {a b : DocumentId} :
    order.graph.Reaches a.index b.index ↔ Relation.ReflTransGen requires a b :=
  ⟨fun hp => hp.lift DocumentId.mk fun _ _ => (h.step_iff _ _).mp,
    fun hp => hp.lift DocumentId.index fun _ _ => (h.step_iff _ _).mpr⟩

theorem hasCycle_iff (h : order.Represents requires) :
    order.graph.HasCycle ↔ ∃ document, Relation.TransGen requires document document := by
  constructor
  · rintro ⟨id, hid⟩
    exact ⟨⟨id⟩, h.transGen_iff.mp hid⟩
  · rintro ⟨document, hd⟩
    exact ⟨document.index, h.transGen_iff.mpr hd⟩

theorem error_iff (h : order.Represents requires) :
    (∃ diagnostic, order.order = .error diagnostic) ↔ order.graph.HasCycle := by
  have hsource : ∀ edge ∈ order.graph.edges, edge.source < order.graph.numVertices :=
    fun edge he => (h.closed edge he).1
  have hv := order.reached_final.valid hsource
  rcases order_cases h.keys hv with ⟨ho, hl⟩ | ⟨hl, diagnostic, ho⟩
  · refine iff_of_false ?_ ?_
    · rintro ⟨_, he⟩
      cases ho.symm.trans he
    · rintro ⟨id, hid⟩
      rw [← Graph.mem_successors_eq_step] at hid
      exact Nat.lt_irrefl _ ((hv.arrangement hsource hl).idxOf_lt_of_transGen hid)
  · exact iff_of_true ⟨diagnostic, ho⟩ (hv.hasCycle h.closed (Progress.step?_run ..) hl)

theorem cycles_eq (h : order.Represents requires) :
    order.cycles = order.graph.cycles.map fun members => members.map DocumentId.mk := by
  refine List.map_congr_left fun members hm => ?_
  rw [← List.filterMap_eq_map]
  exact List.filterMap_congr fun id hid => h.keys id (h.closed.lt_of_mem_cycle hm hid)

theorem cycles_ne_nil_iff (h : order.Represents requires) :
    order.cycles ≠ [] ↔ order.graph.HasCycle := by
  rw [← h.closed.cycles_ne_nil_iff h.not_step_self, h.cycles_eq, Ne, List.map_eq_nil_iff]

theorem exists_cons_of_mem (h : order.Represents requires) {cycle : List DocumentId}
    (hc : cycle ∈ order.cycles) : ∃ first rest, cycle = first :: rest := by
  rw [h.cycles_eq] at hc
  obtain ⟨members, hm, rfl⟩ := List.mem_map.mp hc
  obtain ⟨id, hid, _⟩ := h.closed.cyclesExact.exists_ne hm 0
  exact List.exists_cons_of_ne_nil (List.ne_nil_of_mem (List.mem_map_of_mem hid))

theorem exists_cycle (h : order.Represents requires) {a b : DocumentId} (hne : a ≠ b)
    (hab : Relation.ReflTransGen requires a b) (hba : Relation.ReflTransGen requires b a) :
    ∃ cycle ∈ order.cycles, a ∈ cycle ∧ b ∈ cycle := by
  have hi : a.index ≠ b.index := fun he => hne (congrArg DocumentId.mk he)
  obtain ⟨members, hm, ha, hb⟩ :=
    h.closed.exists_cycle ⟨h.reaches_iff.mpr hab, h.reaches_iff.mpr hba⟩ hi
  rw [h.cycles_eq]
  exact ⟨_, List.mem_map_of_mem hm, List.mem_map_of_mem ha, List.mem_map_of_mem hb⟩

end Represents

theorem represents_ofDependency {store : Store} {dependency : DependencyGraph}
    (hb : ∀ a b, dependency.Requires a b → store.HasDocument a ∧ store.HasDocument b) :
    (ofDependency store dependency).Represents dependency.Requires := by
  have hstep : ∀ a b, (ofDependency store dependency).graph.Step a b ↔
      dependency.Requires ⟨a⟩ ⟨b⟩ := fun a b =>
    Graph.mem_successors_iff.symm.trans mem_successors_ofDependency
  have hlt : ∀ id, store.HasDocument ⟨id⟩ →
      id < (ofDependency store dependency).graph.numVertices := by
    rintro id ⟨document, hd⟩
    rw [numVertices_ofDependency]
    exact (List.getElem?_eq_some_iff.mp hd).1
  refine ⟨fun edge he => ?_, fun id hid => ?_, hstep, fun _ hr => hr.1 rfl⟩
  · obtain ⟨hsource, htarget⟩ := hb _ _ ((hstep _ _).mp ⟨edge, he, rfl, rfl⟩)
    exact ⟨hlt _ hsource, hlt _ htarget⟩
  · rw [numVertices_ofDependency] at hid
    exact keyOf?_ofDependency hid

/-- The diagnostic is that of a group of documents: it is at the first one and names the others. -/
def Reports (store : Store) (cycle : List DocumentId) (diagnostic : Diagnostic) : Prop :=
  ∃ first rest, cycle = first :: rest ∧ diagnostic.location = store.documentLocation first ∧
    diagnostic.related = rest.map fun id => (store.documentLocation id, "Part of the cycle")

theorem Represents.forall₂_cycleDiagnostics {order : CompileOrder}
    {requires : DocumentId → DocumentId → Prop} (h : order.Represents requires) (store : Store) :
    List.Forall₂ (Reports store) order.cycles (order.cycleDiagnostics store) := by
  refine forall₂_filterMap fun cycle hc => ?_
  obtain ⟨first, rest, rfl⟩ := h.exists_cons_of_mem hc
  refine ⟨_, rfl, first, rest, rfl, ?_⟩
  rw [Diagnostic.foldl_addRelated fun id => (store.documentLocation id, "Part of the cycle")]
  exact ⟨rfl, rfl⟩

end CompileOrder

/-- The two ways to find cycles of documents agree: there is no compile order exactly if there is a
group of documents that depend on each other, and the analysis reports each group once. -/
structure Analysis.DocumentCyclesExact (analysis : Analysis) (store : Store) : Prop where
  cyclic_iff : analysis.compileOrder.cycles ≠ [] ↔
    ∃ document, Relation.TransGen analysis.dependency.Requires document document
  error_iff : (∃ diagnostic, analysis.compileOrder.order = .error diagnostic) ↔
    analysis.compileOrder.cycles ≠ []
  reported_iff : (∃ diagnostic ∈ analysis.diagnostics,
    diagnostic.code = .circularCompileDependency) ↔ analysis.compileOrder.cycles ≠ []
  reports : List.Forall₂ (CompileOrder.Reports store) analysis.compileOrder.cycles
    (analysis.diagnostics.filter (·.code = .circularCompileDependency))

namespace Store

variable {store : Store}

theorem Registry.represents_compileOrder (h : store.Registry) :
    store.analyze.analysis.compileOrder.Represents store.analyze.analysis.dependency.Requires := by
  refine CompileOrder.represents_ofDependency ?_
  rintro a b ⟨_, edge, _, u, v, hu, hv, rfl, rfl⟩
  have hd := h.analyze.vertices_dependencies store.visibilityOf
  exact ⟨h.analyze.hasDocument hd hu, h.analyze.hasDocument hd hv⟩

theorem Registry.documentCyclesExact_analyze (h : store.Registry) :
    store.analyze.analysis.DocumentCyclesExact store.analyze.store := by
  have hr := h.represents_compileOrder
  have hv := congrArg Prod.snd h.analyze.vertexGraph_eq
  have hreports := hr.forall₂_cycleDiagnostics store.analyze.store
  rw [← reports, ← filter_code_analyze hv ErrorCode.phase?_eq_compileOrder_iff] at hreports
  refine ⟨hr.cycles_ne_nil_iff.trans hr.hasCycle_iff, hr.error_iff.trans hr.cycles_ne_nil_iff.symm,
    ?_, hreports⟩
  rw [← List.length_pos_iff, hreports.length_eq, List.length_filter_pos_iff]
  simp only [decide_eq_true_eq]

end Store

namespace Analysis.Faithful

variable {analysis : Analysis} {store : Store} {x y : Nat} {u v : UnitId}

theorem document_step (hs : analysis.dependency.Step x y)
    (hu : analysis.dependency.target? x = some (.unit u))
    (hv : analysis.dependency.target? y = some (.unit v)) :
    Relation.ReflTransGen analysis.dependency.Requires u.document v.document := by
  by_cases hd : u.document = v.document
  · rw [hd]
  · obtain ⟨edge, he, rfl, rfl⟩ := hs
    exact .single ⟨hd, edge, he, u, v, DependencyGraph.label?_bind_unit?_iff.mpr hu,
      DependencyGraph.label?_bind_unit?_iff.mpr hv, rfl, rfl⟩

/-- A path of units is a path of their documents, except that it may stay in a document. -/
theorem document_reaches (h : analysis.Faithful store) (hp : analysis.dependency.Reaches x y)
    (hu : analysis.dependency.target? x = some (.unit u))
    (hv : analysis.dependency.target? y = some (.unit v)) :
    Relation.ReflTransGen analysis.dependency.Requires u.document v.document := by
  induction hp using Relation.ReflTransGen.head_induction_on generalizing u with
  | refl => rw [DependencyGraph.unit_unique hu hv]
  | @head x z hs hp ih =>
    -- A path does not go through a library, because that would have no edge to go on.
    obtain ⟨w, hw⟩ : ∃ w, analysis.dependency.target? z = some (.unit w) := by
      rcases hp.cases_head with rfl | ⟨_, hz, _⟩
      · exact ⟨v, hv⟩
      · exact h.exists_unit_of_step hz
    exact (document_step hs hu hw).trans (ih hw)

end Analysis.Faithful

theorem Store.Registry.exists_cycle_of_entangled {store : Store} (h : store.Registry) {u v : UnitId}
    (he : store.analyze.analysis.dependency.Entangled u v) (hd : u.document ≠ v.document) :
    ∃ cycle ∈ store.analyze.analysis.compileOrder.cycles,
      u.document ∈ cycle ∧ v.document ∈ cycle := by
  obtain ⟨_, x, y, hu, hv, hxy, hyx⟩ := he
  exact h.represents_compileOrder.exists_cycle hd (h.faithful_analyze.document_reaches hxy hu hv)
    (h.faithful_analyze.document_reaches hyx hv hu)

namespace Design

theorem Grounded.documentCyclesExact {design : Design} (h : design.Grounded) {analysis : Analysis}
    (ha : design.analysis = some analysis) : analysis.DocumentCyclesExact design.store := by
  obtain ⟨store, hb, hs, rfl⟩ := h.analyzed analysis ha
  rw [hs]
  exact hb.registry.documentCyclesExact_analyze

/-- In every analyzed design the search for a compile order fails exactly if there is a group of
documents that depend on each other. What an analysis returns then holds one diagnostic for each
group. -/
theorem Reachable.document_cycles_exact {design : Design} (h : design.Reachable) :
    (∀ analysis, design.analysis = some analysis → analysis.DocumentCyclesExact design.store) ∧
    ∃ analysis, design.analyze.design.analysis = some analysis ∧
      design.analyze.answer = .ok analysis.diagnostics ∧
      analysis.DocumentCyclesExact design.analyze.design.store :=
  ⟨fun _ ha => h.grounded.documentCyclesExact ha,
    _, rfl, rfl, h.analyze.grounded.documentCyclesExact rfl⟩

/-- Three documents that depend on each other although no unit depends on itself, and a fourth one
that depends on one of them. -/
def ferry : Design :=
  let here : Identifier := ⟨"WOrk", by decide +kernel⟩
  let keel : Identifier := ⟨"keel", by decide +kernel⟩
  let deck : Identifier := ⟨"deck", by decide +kernel⟩
  let mast : Identifier := ⟨"mast", by decide +kernel⟩
  let uses (part : Identifier) : ContextItem :=
    .use [{ item := .all (.selected (.simple here) part) }]
  let package (ident : Identifier) (context : List ContextItem) : DesignUnit :=
    { ident, context, body := .package none [] }
  let design := ((withConfig {}).createLibrary "ferry").design
  let design := (design.addDocument
    { units := [package ⟨"bow", by decide +kernel⟩ [uses deck], package keel []] } ⟨0⟩).design
  let design := (design.addDocument
    { units := [package ⟨"buoy", by decide +kernel⟩ [uses keel]] } ⟨0⟩).design
  let design := (design.addDocument
    { units := [package deck [], package ⟨"hull", by decide +kernel⟩ [uses mast]] } ⟨0⟩).design
  (design.addDocument
    { units := [package mast [], package ⟨"sail", by decide +kernel⟩ [uses keel]] } ⟨0⟩).design

theorem cycles_ferry :
    ferry.store.analyze.analysis.compileOrder.cycles = [[⟨0⟩, ⟨2⟩, ⟨3⟩]] := by
  let shape : Graph Unit Unit CompileEdge :=
    { vertices := List.replicate 4 ((), ())
      edges := [⟨0, 2, ⟨"ferry.bow", "ferry.deck"⟩⟩, ⟨1, 0, ⟨"ferry.buoy", "ferry.keel"⟩⟩,
        ⟨2, 3, ⟨"ferry.hull", "ferry.mast"⟩⟩, ⟨3, 0, ⟨"ferry.sail", "ferry.keel"⟩⟩] }
  have hshape : shape.cycles = [[0, 2, 3]] := by cbv
  have hgraph : ferry.store.analyze.analysis.compileOrder.graph.cycles = shape.cycles :=
    Graph.cycles_congr (by decide +kernel) (by decide +kernel)
  rw [CompileOrder.cycles, hgraph, hshape]
  decide +kernel

theorem ferry_document_cycles : ferry.analyze.design.Reachable ∧
    ∃ analysis, ferry.analyze.design.analysis = some analysis ∧
      analysis.compileOrder.cycles = [[⟨0⟩, ⟨2⟩, ⟨3⟩]] ∧
      analysis.DocumentCyclesExact ferry.analyze.design.store := by
  have h : ferry.analyze.design.Reachable := .analyze (.addDocument _ _ (.addDocument _ _
    (.addDocument _ _ (.addDocument _ _ (.createLibrary _ (.start _))))))
  exact ⟨h, ferry.store.analyze.analysis, rfl, cycles_ferry, h.document_cycles_exact.1 _ rfl⟩

/-- Units of different documents that depend on each other are both reported. Their documents are in
one group of documents that depend on each other, so that there is no compile order. -/
theorem Reachable.entangled_documents {design : Design} {analysis : Analysis} (h : design.Reachable)
    (ha : design.analysis = some analysis) {u v : UnitId} (he : analysis.dependency.Entangled u v)
    (hd : u.document ≠ v.document) :
    (analysis.circularFor u ≠ [] ∧ analysis.circularFor v ≠ []) ∧
    (∃ cycle ∈ analysis.compileOrder.cycles, u.document ∈ cycle ∧ v.document ∈ cycle) ∧
    ∃ diagnostic, analysis.compileOrder.order = .error diagnostic := by
  obtain ⟨store, hb, _, rfl⟩ := h.grounded.analyzed analysis ha
  have hr := hb.registry
  have hc := hr.circularExact_analyze
  obtain ⟨cycle, hm, hu, hv⟩ := hr.exists_cycle_of_entangled he hd
  refine ⟨⟨(hc.reported_iff u).mpr ⟨v, he⟩, (hc.reported_iff v).mpr ⟨u, he.symm⟩⟩,
    ⟨cycle, hm, hu, hv⟩, ?_⟩
  exact hr.documentCyclesExact_analyze.error_iff.mpr (List.ne_nil_of_mem hm)

theorem wagons_entangled_documents : wagons.analyze.design.Reachable ∧
    ∃ analysis, wagons.analyze.design.analysis = some analysis ∧
      analysis.dependency.Entangled ⟨⟨0⟩, 0⟩ ⟨⟨1⟩, 1⟩ ∧
      (analysis.circularFor ⟨⟨0⟩, 0⟩ ≠ [] ∧ analysis.circularFor ⟨⟨1⟩, 1⟩ ≠ []) ∧
      (∃ cycle ∈ analysis.compileOrder.cycles, ⟨0⟩ ∈ cycle ∧ ⟨1⟩ ∈ cycle) ∧
      ∃ diagnostic, analysis.compileOrder.order = .error diagnostic := by
  have h : wagons.Reachable :=
    .addDocument _ _ (.addDocument _ _ (.createLibrary _ (.start _)))
  have hm : [2, 3, 4] ∈ wagons.store.analyze.analysis.dependency.cycles := by simp [cycles_wagons]
  have hu : ⟨⟨0⟩, 0⟩ ∈ wagons.store.analyze.analysis.dependency.unitsAmong [2, 3, 4] := by
    simp [unitsAmong_wagons]
  have hv : ⟨⟨1⟩, 1⟩ ∈ wagons.store.analyze.analysis.dependency.unitsAmong [2, 3, 4] := by
    simp [unitsAmong_wagons]
  have hf := h.grounded.built.registry.faithful_analyze
  have he := (hf.mem_unitsAmong_iff_entangled hm hu).mp ⟨hv, by decide⟩
  exact ⟨h.analyze, wagons.store.analyze.analysis, rfl, he,
    h.analyze.entangled_documents rfl he (by decide)⟩

end Design

end Vhdl
