import Vhdl.Proofs.DocumentGraph

/-! # Documents without a compile order

If there is no compile order, the diagnostic names all documents that could not be listed. A
document that is listed leads only to documents before it, and one that is not listed leads to
others that are not, until one comes again. The documents that are named are therefore those which
lead to a group of documents that depend on each other, and not only the documents of such groups.
-/

namespace Vhdl

namespace CompileOrder

namespace Progress.Valid

variable {κ ν ε : Type} {graph : Graph κ ν ε} {progress : Progress} {id other : Nat}

theorem idxOf_lt_of_transGen (h : Valid graph progress) (hm : id ∈ progress.listed)
    (hr : Relation.TransGen graph.Step id other) :
    progress.listed.idxOf other < progress.listed.idxOf id := by
  have hstep {a b : Nat} (ha : a ∈ progress.listed) (hab : graph.Step a b) :
      progress.listed.idxOf b < progress.listed.idxOf a :=
    idxOf_lt_of_eligible ha (Graph.mem_successors_iff.mpr hab)
      fun before x after hx => (h.least before x after hx).1
  induction hr with
  | single hs => exact hstep hm hs
  | tail _ hs ih =>
    have hlisted := ih.trans (List.idxOf_lt_length_iff.mpr hm)
    exact (hstep (List.idxOf_lt_length_iff.mp hlisted) hs).trans ih

/-- What is left over at the end are the documents that lead to a cycle. -/
theorem not_mem_listed_iff (h : Valid graph progress) (hc : graph.Closed)
    (hs : progress.step? graph = none) (hid : id < graph.numVertices) :
    id ∉ progress.listed ↔
      ∃ cyclic, graph.Reaches id cyclic ∧ Relation.TransGen graph.Step cyclic cyclic := by
  refine ⟨h.exists_cyclic hc hs hid, ?_⟩
  rintro ⟨cyclic, hr, hcyclic⟩ hm
  -- The cycle would be listed as well, and its document before itself.
  have hlisted : cyclic ∈ progress.listed := by
    rcases Relation.reflTransGen_iff_eq_or_transGen.mp hr with rfl | hr
    · exact hm
    · have hlt := h.idxOf_lt_of_transGen hm hr
      exact List.idxOf_lt_length_iff.mp (hlt.trans (List.idxOf_lt_length_iff.mpr hm))
  exact Nat.lt_irrefl _ (h.idxOf_lt_of_transGen hlisted hcyclic)

theorem pending_pos_iff (h : Valid graph progress) (hs : progress.step? graph = none)
    (hid : id < graph.numVertices) :
    progress.pending[id]?.any (0 < ·) = true ↔ id ∉ progress.listed := by
  constructor
  · intro hpos hm
    simp [(h.listed_zero id hm).2] at hpos
  · intro hn
    have hne : progress.pending[id]? ≠ some 0 := by
      intro hzero
      have hready := (h.ready_iff id).mpr ⟨hid, hn, hzero⟩
      rw [(step?_eq_none_iff.mp hs).2] at hready
      exact List.not_mem_nil hready
    rw [h.counts id hid] at hne ⊢
    rw [Option.any_some, decide_eq_true_eq, Int.natCast_pos]
    exact Nat.pos_of_ne_zero fun hzero => hne (by rw [hzero]; rfl)

end Progress.Valid

variable {order : CompileOrder} {requires : DocumentId → DocumentId → Prop}

def stuck (order : CompileOrder) : List DocumentId :=
  (order.graph.vertexIds.filter (· ∉ order.final.listed)).map DocumentId.mk

theorem mem_stuck {document : DocumentId} : document ∈ order.stuck ↔
    document.index < order.graph.numVertices ∧ document.index ∉ order.final.listed := by
  refine (List.mem_map_of_injective documentEquiv.injective (a := document.index)).trans ?_
  simp [Graph.vertexIds]

theorem pairwise_stuck (order : CompileOrder) :
    order.stuck.Pairwise fun a b => a.index < b.index :=
  List.pairwise_map.mpr (List.pairwise_lt_range.filter _)

def stuckMessage (names : List String) : String :=
  "No compile order exists, these documents depend on each other: " ++
    String.intercalate ", " names

namespace Represents

theorem valid_final (h : order.Represents requires) : Progress.Valid order.graph order.final :=
  order.reached_final.valid fun edge he => (h.closed edge he).1

theorem eq_of_order_eq_error (h : order.Represents requires) {diagnostic : Diagnostic}
    (he : order.order = .error diagnostic) : diagnostic = .error .design
      (stuckMessage (order.stuck.filterMap fun id => order.graph.label? id.index))
      .circularCompileDependency := by
  have hpending : order.graph.vertexIds.filter (fun id => order.final.pending[id]?.any (0 < ·)) =
      order.graph.vertexIds.filter (· ∉ order.final.listed) := by
    refine List.filter_congr fun id hid => Bool.eq_iff_iff.mpr ?_
    rw [h.valid_final.pending_pos_iff (Progress.step?_run ..) (List.mem_range.mp hid),
      decide_eq_true_eq]
  unfold CompileOrder.order at he
  dsimp only at he
  rw [← final, hpending] at he
  split at he
  · cases he
  · cases he
    rw [stuck, List.filterMap_map]
    rfl

theorem lt_of_transGen (h : order.Represents requires) {document other : DocumentId}
    (hr : Relation.TransGen requires document other) :
    document.index < order.graph.numVertices := by
  obtain ⟨next, hs, _⟩ := Relation.TransGen.head'_iff.mp hr
  obtain ⟨edge, he, hsource, _⟩ := (h.step_iff document.index next.index).mpr hs
  exact hsource ▸ (h.closed edge he).1

theorem mem_stuck_iff (h : order.Represents requires) {document : DocumentId} :
    document ∈ order.stuck ↔ ∃ cyclic, Relation.ReflTransGen requires document cyclic ∧
      Relation.TransGen requires cyclic cyclic := by
  have hleft (hlt : document.index < order.graph.numVertices) :=
    h.valid_final.not_mem_listed_iff h.closed (Progress.step?_run ..) hlt
  rw [mem_stuck]
  constructor
  · rintro ⟨hlt, hn⟩
    obtain ⟨cyclic, hr, hcyclic⟩ := (hleft hlt).mp hn
    exact ⟨⟨cyclic⟩, h.reaches_iff.mp hr, h.transGen_iff.mp hcyclic⟩
  · rintro ⟨cyclic, hr, hcyclic⟩
    have hlt := h.lt_of_transGen (hcyclic.trans_right hr)
    exact ⟨hlt, (hleft hlt).mpr ⟨_, h.reaches_iff.mpr hr, h.transGen_iff.mpr hcyclic⟩⟩

theorem mem_flatten_cycles_iff (h : order.Represents requires) {document : DocumentId} :
    document ∈ order.cycles.flatten ↔ Relation.TransGen requires document document := by
  rw [← h.transGen_iff, ← h.closed.mem_flatten_cycles_iff h.not_step_self, h.cycles_eq,
    ← List.map_flatten]
  exact List.mem_map_of_injective documentEquiv.injective

end Represents

/-- What is said if there is no compile order. All documents that lead to a group of documents which
depend on each other are named, in the order they were added. They are the documents of these
groups exactly if only such documents require one of them. -/
structure StuckExact (order : CompileOrder) (store : Store)
    (requires : DocumentId → DocumentId → Prop) (diagnostic : Diagnostic)
    (named : List DocumentId) : Prop where
  diagnostic_eq : diagnostic = .error .design
    (stuckMessage (named.map fun id => (store.documentLocation id).name)) .circularCompileDependency
  ordered : named.Pairwise fun a b => a.index < b.index
  named_iff : ∀ document, document ∈ named ↔ ∃ cyclic,
    Relation.ReflTransGen requires document cyclic ∧ Relation.TransGen requires cyclic cyclic
  cyclic_iff : ∀ document, document ∈ order.cycles.flatten ↔
    Relation.TransGen requires document document
  same_iff : (∀ document, document ∈ named ↔ document ∈ order.cycles.flatten) ↔
    ∀ document other, requires document other → other ∈ order.cycles.flatten →
      document ∈ order.cycles.flatten

/-- The documents that lead to a cycle are on a cycle themselves exactly if no other document
requires one of those. -/
theorem leads_iff_cyclic_iff {α : Type} {r : α → α → Prop} :
    (∀ x, (∃ y, Relation.ReflTransGen r x y ∧ Relation.TransGen r y y) ↔ Relation.TransGen r x x) ↔
      ∀ x y, r x y → Relation.TransGen r y y → Relation.TransGen r x x := by
  constructor
  · intro h x y hs hy
    exact (h x).mp ⟨y, .single hs, hy⟩
  · refine fun h x => ⟨?_, fun hx => ⟨x, .refl, hx⟩⟩
    rintro ⟨y, hr, hy⟩
    induction hr using Relation.ReflTransGen.head_induction_on with
    | refl => exact hy
    | head hs _ ih => exact h _ _ hs ih

theorem label?_ofDependency {store : Store} {dependency : DependencyGraph} {id : DocumentId}
    (h : id.index < store.documents.length) :
    (ofDependency store dependency).graph.label? id.index =
      some (store.documentLocation id).name := by
  simp [Graph.label?, Graph.vertex?, vertices_eq_mapIdx, Store.documentLocation, Store.document?, h]

theorem stuckExact_ofDependency {store : Store} {dependency : DependencyGraph}
    (h : (ofDependency store dependency).Represents dependency.Requires) {diagnostic : Diagnostic}
    (he : (ofDependency store dependency).order = .error diagnostic) :
    (ofDependency store dependency).StuckExact store dependency.Requires diagnostic
      (ofDependency store dependency).stuck := by
  refine ⟨?_, pairwise_stuck _, fun _ => h.mem_stuck_iff, fun _ => h.mem_flatten_cycles_iff, ?_⟩
  · rw [h.eq_of_order_eq_error he, ← List.filterMap_eq_map]
    congr 2
    refine List.filterMap_congr fun id hid => label?_ofDependency ?_
    rw [← numVertices_ofDependency]
    exact (mem_stuck.mp hid).1
  · simp only [h.mem_stuck_iff, h.mem_flatten_cycles_iff]
    exact leads_iff_cyclic_iff

end CompileOrder

namespace Design

/-- If an analyzed design has no compile order, the diagnostic names exactly the documents that lead
to a group of documents which depend on each other. -/
theorem Reachable.stuck_documents {design : Design} {analysis : Analysis} {diagnostic : Diagnostic}
    (h : design.Reachable) (ha : design.analysis = some analysis)
    (he : analysis.compileOrder.order = .error diagnostic) :
    ∃ named, analysis.compileOrder.StuckExact design.store analysis.dependency.Requires diagnostic
      named := by
  obtain ⟨store, hb, hs, rfl⟩ := h.grounded.analyzed analysis ha
  rw [hs]
  exact ⟨_, CompileOrder.stuckExact_ofDependency hb.registry.represents_compileOrder he⟩

/-- Two documents that depend on each other, one that depends on them and one they depend on. -/
def glade : Design :=
  let here : Identifier := ⟨"woRk", by decide +kernel⟩
  let oak : Identifier := ⟨"oak", by decide +kernel⟩
  let elm : Identifier := ⟨"elm", by decide +kernel⟩
  let moss : Identifier := ⟨"moss", by decide +kernel⟩
  let document (path : String) (ident : Identifier) (used : List Identifier) : Document :=
    { path := some (.ofString path)
      units := [{ ident
                  context := [.use (used.map fun part =>
                    { item := .all (.selected (.simple here) part) })]
                  body := .package none [] }] }
  let design := ((withConfig {}).createLibrary "glade").design
  let design := (design.addDocument (document "roots.vhd" oak [elm, moss]) ⟨0⟩).design
  let design := (design.addDocument (document "crown.vhd" elm [oak]) ⟨0⟩).design
  let design := (design.addDocument
    (document "nest.vhd" ⟨"wren", by decide +kernel⟩ [elm]) ⟨0⟩).design
  (design.addDocument (document "soil.vhd" moss []) ⟨0⟩).design

theorem glade_graph : glade.store.analyze.analysis.compileOrder =
    ⟨{ vertices := [(⟨0⟩, "roots.vhd"), (⟨1⟩, "crown.vhd"), (⟨2⟩, "nest.vhd"), (⟨3⟩, "soil.vhd")]
       edges := [⟨0, 1, ⟨"glade.oak", "glade.elm"⟩⟩, ⟨0, 3, ⟨"glade.oak", "glade.moss"⟩⟩,
         ⟨1, 0, ⟨"glade.elm", "glade.oak"⟩⟩, ⟨2, 1, ⟨"glade.wren", "glade.elm"⟩⟩] }⟩ :=
  congrArg₂ (fun vertices edges => CompileOrder.mk ⟨vertices, edges⟩)
    (by decide +kernel : glade.store.analyze.analysis.compileOrder.graph.vertices = _)
    (by decide +kernel : glade.store.analyze.analysis.compileOrder.graph.edges = _)

theorem glade_order : glade.store.analyze.analysis.compileOrder.order = .error (.error .design
    ("No compile order exists, these documents depend on each other: " ++
      "roots.vhd, crown.vhd, nest.vhd") .circularCompileDependency) := by
  rw [glade_graph]
  cbv

theorem glade_stuck_documents : glade.analyze.design.Reachable ∧
    ∃ analysis diagnostic, glade.analyze.design.analysis = some analysis ∧
      analysis.compileOrder.order = .error diagnostic ∧
      ∃ named, analysis.compileOrder.StuckExact glade.analyze.design.store
        analysis.dependency.Requires diagnostic named := by
  have h : glade.analyze.design.Reachable := .analyze (.addDocument _ _ (.addDocument _ _
    (.addDocument _ _ (.addDocument _ _ (.createLibrary _ (.start _))))))
  exact ⟨h, glade.store.analyze.analysis, _, rfl, glade_order, h.stuck_documents rfl glade_order⟩

/-- The third document is named although it is in no group of documents that depend on each
other. -/
theorem glade_names_dependent : (∃ diagnostic,
    glade.store.analyze.analysis.compileOrder.order = .error diagnostic ∧
      diagnostic.message = "No compile order exists, these documents depend on each other: " ++
        "roots.vhd, crown.vhd, nest.vhd") ∧
    glade.store.analyze.analysis.compileOrder.cycles = [[⟨0⟩, ⟨1⟩]] := by
  refine ⟨⟨_, glade_order, rfl⟩, ?_⟩
  rw [glade_graph]
  cbv

end Design

end Vhdl
