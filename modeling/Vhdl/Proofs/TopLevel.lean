import Vhdl.Proofs.Components
import Vhdl.Proofs.Roots

/-! # Designs without a top level

The hierarchy goes up from an architecture to its entity and from a unit to the architectures that
instantiate it. Above an architecture that is not at the top there is another architecture. A design
without a top level therefore instantiates itself, provided that predefined libraries keep to
themselves.
-/

namespace Vhdl

namespace Graph

variable {κ ν ε : Type}

theorem mem_edges_foldl_addEdge [DecidableEq ε] {graph : Graph κ ν ε} {edges : List (Edge ε)}
    {edge : Edge ε} : edge ∈ (edges.foldl (fun graph edge => (graph.addEdge edge).1) graph).edges ↔
      edge ∈ graph.edges ∨ edge ∈ edges ∧ edge.source ≠ edge.target := by
  induction edges generalizing graph with
  | nil => simp
  | cons first rest ih =>
    rw [List.foldl_cons, ih, mem_edges_addEdge, List.mem_cons, or_assoc]
    refine or_congr_right ⟨?_, ?_⟩
    · rintro (⟨rfl, hl⟩ | ⟨hm, hl⟩)
      · exact ⟨.inl rfl, hl⟩
      · exact ⟨.inr hm, hl⟩
    · rintro ⟨rfl | hm, hl⟩
      · exact .inl ⟨rfl, hl⟩
      · exact .inr ⟨hm, hl⟩

end Graph

namespace Hierarchy

variable {graph : DependencyGraph} {place number : Nat}

theorem nodup_kept (graph : DependencyGraph) : (kept graph).Nodup := by
  have hn : (graph.numbered.map (·.1)).Nodup := by
    rw [Graph.numbered, List.map_map]
    exact List.zipIdx_map_snd 0 graph.vertices ▸ List.nodup_range'
  exact hn.sublist (List.filter_sublist.map _)

theorem idxOf?_kept_iff : (kept graph).idxOf? number = some place ↔
    (kept graph)[place]? = some number := by
  rw [List.idxOf?_eq_some_iff, List.getElem?_eq_some_iff]
  refine exists_congr fun hp => and_iff_left_of_imp fun he other ho hx => ?_
  have hi := (nodup_kept graph).getElem_inj_iff.mp (hx.trans he.symm)
  omega

theorem renumber?_eq_some_iff {edge : Edge EdgeKind} {source target : Nat} {kind : EdgeKind} :
    renumber? (kept graph) edge = some ⟨source, target, kind⟩ ↔
      (kept graph)[source]? = some edge.source ∧ (kept graph)[target]? = some edge.target ∧
        edge.weight = kind := by
  rw [← idxOf?_kept_iff, ← idxOf?_kept_iff, renumber?]
  cases (kept graph).idxOf? edge.source <;> cases (kept graph).idxOf? edge.target <;> simp

theorem ofEdge?_eq_some_iff {edge : Edge EdgeKind} {source target : Nat} {kind : EdgeKind} :
    ofEdge? edge = some ⟨source, target, kind⟩ ↔
      kind.edgeClass = .implements ∧ edge = ⟨source, target, kind⟩ ∨
        kind.edgeClass = .instantiates ∧ edge = ⟨target, source, kind⟩ := by
  constructor
  · intro he
    unfold ofEdge? at he
    split at he
    · next hc =>
      obtain rfl := Option.some.inj he
      exact .inl ⟨hc, rfl⟩
    · next hc =>
      obtain ⟨rfl, rfl, rfl⟩ := Edge.mk.inj (Option.some.inj he)
      exact .inr ⟨hc, rfl⟩
    · cases he
  · rintro (⟨hc, rfl⟩ | ⟨hc, rfl⟩) <;> simp [ofEdge?, hc]

/-- The edge of the hierarchy that stands for a dependency, between the places of its ends. -/
def edgeOf? (graph : DependencyGraph) (edge : Edge EdgeKind) : Option (Edge EdgeKind) :=
  (renumber? (kept graph) edge).bind ofEdge?

theorem edgeOf?_eq_some_iff {edge : Edge EdgeKind} {source target : Nat} {kind : EdgeKind} :
    edgeOf? graph edge = some ⟨source, target, kind⟩ ↔ edge.weight = kind ∧
      (kind.edgeClass = .implements ∧ (kept graph)[source]? = some edge.source ∧
          (kept graph)[target]? = some edge.target ∨
        kind.edgeClass = .instantiates ∧ (kept graph)[target]? = some edge.source ∧
          (kept graph)[source]? = some edge.target) := by
  simp only [edgeOf?, Option.bind_eq_some_iff, ofEdge?_eq_some_iff]
  constructor
  · rintro ⟨_, hr, ⟨hc, rfl⟩ | ⟨hc, rfl⟩⟩
    · obtain ⟨hs, ht, hw⟩ := renumber?_eq_some_iff.mp hr
      exact ⟨hw, .inl ⟨hc, hs, ht⟩⟩
    · obtain ⟨hs, ht, hw⟩ := renumber?_eq_some_iff.mp hr
      exact ⟨hw, .inr ⟨hc, hs, ht⟩⟩
  · rintro ⟨hw, ⟨hc, hs, ht⟩ | ⟨hc, hs, ht⟩⟩
    · exact ⟨_, renumber?_eq_some_iff.mpr ⟨hs, ht, hw⟩, .inl ⟨hc, rfl⟩⟩
    · exact ⟨_, renumber?_eq_some_iff.mpr ⟨hs, ht, hw⟩, .inr ⟨hc, rfl⟩⟩

theorem mem_edges_graphOf_iff {source target : Nat} {kind : EdgeKind} :
    ⟨source, target, kind⟩ ∈ (graphOf graph).edges ↔ source ≠ target ∧ ∃ a b,
      (kept graph)[source]? = some a ∧ (kept graph)[target]? = some b ∧
        (kind.edgeClass = .implements ∧ ⟨a, b, kind⟩ ∈ graph.edges ∨
          kind.edgeClass = .instantiates ∧ ⟨b, a, kind⟩ ∈ graph.edges) := by
  unfold graphOf
  rw [Graph.mem_edges_foldl_addEdge, or_iff_right List.not_mem_nil, and_comm]
  refine and_congr_right fun _ => List.mem_filterMap.trans ⟨?_, ?_⟩
  · rintro ⟨⟨a, b, _⟩, he, hx⟩
    obtain ⟨rfl, ⟨hc, ha, hb⟩ | ⟨hc, ha, hb⟩⟩ := edgeOf?_eq_some_iff.mp hx
    · exact ⟨a, b, ha, hb, .inl ⟨hc, he⟩⟩
    · exact ⟨b, a, hb, ha, .inr ⟨hc, he⟩⟩
  · rintro ⟨a, b, ha, hb, ⟨hc, he⟩ | ⟨hc, he⟩⟩
    · exact ⟨_, he, edgeOf?_eq_some_iff.mpr ⟨rfl, .inl ⟨hc, ha, hb⟩⟩⟩
    · exact ⟨_, he, edgeOf?_eq_some_iff.mpr ⟨rfl, .inr ⟨hc, hb, ha⟩⟩⟩

end Hierarchy

namespace Store

def Predefined (store : Store) (id : UnitId) : Prop :=
  store.HasUnit id fun own _ => store.config.isPredefined own.name = true

def OwnArchitecture (store : Store) (id : UnitId) : Prop :=
  store.HasUnit id fun own unit =>
    store.config.isPredefined own.name = false ∧ unit.kind = .architecture

/-- No architecture of a predefined library instantiates a unit of another library that is not
predefined. -/
def PredefinedClosed (store : Store) : Prop :=
  ∀ a b, store.Instantiates a b → store.Predefined a → store.Predefined b

variable {store : Store} {id other entity : UnitId}

theorem OwnArchitecture.isHierarchical (h : store.OwnArchitecture id) : store.IsHierarchical id :=
  h.imp fun _ _ hk => .inr hk.2

theorem Registry.not_predefined_iff (h : store.Registry) {P : Library → DesignUnit → Prop}
    (hid : store.HasUnit id P) :
    ¬ store.Predefined id ↔
      store.HasUnit id fun own unit => store.config.isPredefined own.name = false ∧ P own unit := by
  obtain ⟨library, hm, unit, hu, hp⟩ := hid
  constructor
  · intro hn
    refine ⟨library, hm, unit, hu, Bool.eq_false_of_not_eq_true fun hx => hn ?_, hp⟩
    exact ⟨library, hm, unit, hu, hx⟩
  · rintro ⟨_, hm', _, hu', hf, _⟩ ⟨_, hm'', _, hu'', ht⟩
    obtain ⟨rfl, _⟩ := h.library_unique hm' hm'' hu' hu''
    cases hf.symm.trans ht

theorem Settled.ownArchitecture_of_instantiates (h : store.Settled) (hc : store.PredefinedClosed)
    (hi : store.Instantiates other id) (hn : ¬ store.Predefined id) : store.OwnArchitecture other :=
  (h.registry.not_predefined_iff hi.architecture).mp fun hp => hn (hc other id hi hp)

theorem Settled.predefined_iff_of_linkedTo (h : store.Settled) (hl : store.LinkedTo id entity) :
    store.Predefined id ↔ store.Predefined entity := by
  have ⟨library, hm, unit, hu, _⟩ := hl
  obtain ⟨_, _, found, hf, rfl, _⟩ :=
    h.entity_of_linkedTo hl (P := (· = library)) ⟨library, hm, unit, hu, rfl⟩
  constructor
  · rintro ⟨_, hm', _, hu', hp⟩
    obtain ⟨rfl, _⟩ := h.registry.library_unique hm hm' hu hu'
    exact ⟨_, hm, found, hf, hp⟩
  · rintro ⟨_, hm', _, hf', hp⟩
    obtain ⟨rfl, _⟩ := h.registry.library_unique hm hm' hf hf'
    exact ⟨_, hm, unit, hu, hp⟩

theorem Settled.exists_above (h : store.Settled) (hc : store.PredefinedClosed)
    (ha : store.OwnArchitecture id) (hn : ¬ store.Top id) : ∃ above, store.OwnArchitecture above ∧
      (above ≠ id ∧ store.Instantiates above id ∨
        ∃ entity, store.LinkedTo id entity ∧ store.Instantiates above entity) := by
  obtain ⟨library, hm, unit, hu, hp, hk⟩ := ha
  have hself : store.HasUnit id fun _ unit => unit.kind = .architecture :=
    ⟨library, hm, unit, hu, hk⟩
  have hown := (h.registry.not_predefined_iff hself).mpr ⟨library, hm, unit, hu, hp, hk⟩
  by_contra hx
  refine hn ((h.top_iff hm hu (.inr hk)).mpr ⟨hp, ⟨fun other hl => ?_, ?_⟩, ?_⟩)
  · exact h.ne_of_entity hself (h.linkedTo_entity hl) rfl
  · rintro ⟨other, hne, hi⟩
    exact hx ⟨other, h.ownArchitecture_of_instantiates hc hi hown, .inl ⟨hne, hi⟩⟩
  · intro entity hl other hi
    have hn := mt (h.predefined_iff_of_linkedTo hl).mpr hown
    exact hx ⟨other, h.ownArchitecture_of_instantiates hc hi hn, .inr ⟨entity, hl, hi⟩⟩

/-- Where nothing is at the top, a unit that is not predefined brings an architecture along. -/
theorem Settled.exists_ownArchitecture (h : store.Settled) (hc : store.PredefinedClosed)
    (hid : store.IsHierarchical id) (hown : ¬ store.Predefined id) (hn : ¬ store.Top id) :
    ∃ other, store.OwnArchitecture other := by
  obtain ⟨library, hm, unit, hu, hp, hk⟩ := (h.registry.not_predefined_iff hid).mp hown
  rcases hk with he | ha
  · have hself : store.HasUnit id fun _ unit => unit.kind = .entity := ⟨library, hm, unit, hu, he⟩
    by_contra hx
    refine hn ((h.top_iff hm hu (.inl he)).mpr ⟨hp, ⟨fun other hl => hx ⟨other, ?_⟩, ?_⟩, ?_⟩)
    · have hn := mt (h.predefined_iff_of_linkedTo hl).mp hown
      exact (h.registry.not_predefined_iff hl.architecture).mp hn
    · rintro ⟨other, _, hi⟩
      exact hx ⟨other, h.ownArchitecture_of_instantiates hc hi hown⟩
    · intro entity hl
      exact (h.ne_of_entity hl.architecture hself rfl).elim
  · exact ⟨id, library, hm, unit, hu, hp, ha⟩

end Store

def Analysis.OwnPlace (analysis : Analysis) (store : Store) (place : Nat) : Prop :=
  ∃ id, analysis.hierarchy.graph.target? place = some (.unit id) ∧ store.OwnArchitecture id

namespace Analysis.Faithful

variable {analysis : Analysis} {store : Store} {a b : UnitId} {x y : Nat}

theorem mem_edges_of_connects (h : analysis.Faithful store) {kind : EdgeKind} {s t : Target}
    (hc : analysis.dependency.Connects kind s t) (hx : analysis.dependency.target? x = some s)
    (hy : analysis.dependency.target? y = some t) : ⟨x, y, kind⟩ ∈ analysis.dependency.edges := by
  obtain ⟨source, destination, hs, hd, he⟩ := hc
  rwa [h.target?_inj hx hs, h.target?_inj hy hd]

theorem mem_hierarchy_edges (h : analysis.Faithful store) {kind : EdgeKind} (hne : a ≠ b)
    (hx : analysis.hierarchy.graph.target? x = some (.unit a))
    (hy : analysis.hierarchy.graph.target? y = some (.unit b))
    (hc : kind.edgeClass = .implements ∧ analysis.dependency.Connects kind (.unit a) (.unit b) ∨
      kind.edgeClass = .instantiates ∧ analysis.dependency.Connects kind (.unit b) (.unit a)) :
    ⟨x, y, kind⟩ ∈ analysis.hierarchy.graph.edges := by
  have hxy : x ≠ y := by
    rintro rfl
    exact hne (DependencyGraph.unit_unique hx hy)
  rw [h.target?_hierarchy] at hx hy
  obtain ⟨m, hm, ha⟩ := Option.bind_eq_some_iff.mp hx
  obtain ⟨n, hn, hb⟩ := Option.bind_eq_some_iff.mp hy
  rw [h.hierarchy]
  refine Hierarchy.mem_edges_graphOf_iff.mpr ⟨hxy, m, n, hm, hn, ?_⟩
  exact hc.imp (fun hi => ⟨hi.1, h.mem_edges_of_connects hi.2 ha hb⟩)
    fun hi => ⟨hi.1, h.mem_edges_of_connects hi.2 hb ha⟩

theorem step_of_linkedTo (h : analysis.Faithful store) (hl : store.LinkedTo a b)
    (hx : analysis.hierarchy.graph.target? x = some (.unit a))
    (hy : analysis.hierarchy.graph.target? y = some (.unit b)) :
    analysis.hierarchy.graph.Step x y :=
  have hne := h.settled.ne_of_entity hl.architecture (h.settled.linkedTo_entity hl)
  ⟨_, h.mem_hierarchy_edges hne hx hy (.inl ⟨rfl, h.connects_linkedTo_iff.mpr hl⟩), rfl, rfl⟩

theorem step_of_instantiates (h : analysis.Faithful store) (hi : store.Instantiates b a)
    (hne : a ≠ b) (hx : analysis.hierarchy.graph.target? x = some (.unit a))
    (hy : analysis.hierarchy.graph.target? y = some (.unit b)) :
    analysis.hierarchy.graph.Step x y := by
  obtain ⟨kind, hk, hb⟩ := hi
  have hc := (h.instances.edge_iff kind (EdgeKind.isLinked_of_instantiates hk) b a).mpr ⟨hne, hb⟩
  exact ⟨_, h.mem_hierarchy_edges hne hx hy (.inr ⟨hk, hc⟩), rfl, rfl⟩

theorem not_top (h : analysis.Faithful store) (hr : analysis.hierarchy.roots = []) (id : UnitId) :
    ¬ store.Top id := by
  intro htop
  obtain ⟨place, hp⟩ := h.rootsExact.complete id htop
  have hm := (h.rootsExact.mem_iff place).mpr ⟨id, hp, htop⟩
  rw [hr] at hm
  cases hm

theorem exists_ownPlace_above (h : analysis.Faithful store) (hc : store.PredefinedClosed)
    (hn : ∀ id, ¬ store.Top id) (hx : analysis.OwnPlace store x) :
    ∃ y, analysis.OwnPlace store y ∧ Relation.TransGen analysis.hierarchy.graph.Step x y := by
  obtain ⟨a, hx, ha⟩ := hx
  obtain ⟨b, hb, hup⟩ := h.settled.exists_above hc ha (hn a)
  obtain ⟨y, hy⟩ := h.exists_place hb.isHierarchical
  refine ⟨y, ⟨b, hy, hb⟩, ?_⟩
  rcases hup with ⟨hne, hi⟩ | ⟨entity, hl, hi⟩
  · exact .single (h.step_of_instantiates hi hne.symm hx hy)
  · have he := h.settled.linkedTo_entity hl
    obtain ⟨z, hz⟩ := h.exists_place (he.imp fun _ _ hk => .inl hk)
    have hne := (h.settled.ne_of_entity hi.architecture he).symm
    exact .tail (.single (h.step_of_linkedTo hl hx hz)) (h.step_of_instantiates hi hne hz hy)

/-- Without a top level the hierarchy leads from architecture to architecture, so that it must lead
back to one of them. -/
theorem hasCycle (h : analysis.Faithful store) (hc : store.PredefinedClosed)
    (hr : analysis.hierarchy.roots = []) {id : UnitId} (hid : store.IsHierarchical id)
    (hown : ¬ store.Predefined id) : analysis.hierarchy.graph.HasCycle := by
  have hfinite : {place | analysis.OwnPlace store place}.Finite := by
    refine (Set.finite_lt_nat analysis.hierarchy.graph.numVertices).subset ?_
    rintro place ⟨id, hp, _⟩
    obtain ⟨_, _, hv, _⟩ := DependencyGraph.target?_eq_some_iff.mp hp
    exact (List.getElem?_eq_some_iff.mp hv).1
  obtain ⟨a, ha⟩ := h.settled.exists_ownArchitecture hc hid hown (h.not_top hr id)
  obtain ⟨x, hx⟩ := h.exists_place ha.isHierarchical
  obtain ⟨y, _, hy⟩ := exists_transGen_self hfinite
    (fun _ => h.exists_ownPlace_above hc (h.not_top hr)) ⟨a, hx, ha⟩
  exact ⟨y, hy⟩

end Analysis.Faithful

theorem Hierarchy.roots_eq_nil_of_topLevel {hierarchy : Hierarchy}
    (h : hierarchy.topLevel = .none) : hierarchy.roots = [] := by
  unfold topLevel at h
  split at h
  · assumption
  · cases h
  · cases h

theorem Hierarchy.of_noTopLevel {hierarchy : Hierarchy} {diagnostic : Diagnostic}
    (hd : diagnostic ∈ hierarchy.topLevelDiagnostics) (hc : diagnostic.code = .noTopLevel) :
    hierarchy.roots = [] ∧ ∃ entry ∈ hierarchy.graph.vertices, entry.2.predefined = false := by
  unfold topLevelDiagnostics at hd
  split at hd
  · cases hd
  · next ht =>
    split at hd
    · next ha =>
      obtain ⟨entry, he, hp⟩ := List.any_eq_true.mp ha
      exact ⟨roots_eq_nil_of_topLevel ht, entry, he, by simpa using hp⟩
    · cases hd
  · obtain rfl := List.mem_singleton.mp hd
    rw [relateCandidates, Diagnostic.code_foldl_addRelated fun entry : String × UnitVertex =>
      (locationOf entry.1 entry.2, "Candidate")] at hc
    cases hc

theorem Analysis.Faithful.exists_not_predefined {analysis : Analysis} {store : Store}
    (h : analysis.Faithful store) {entry : String × UnitVertex}
    (hm : entry ∈ analysis.hierarchy.graph.vertices) (hp : entry.2.predefined = false) :
    ∃ id, store.IsHierarchical id ∧ ¬ store.Predefined id := by
  rw [h.hierarchy] at hm
  obtain ⟨hv, hh⟩ := List.mem_filter.mp (Hierarchy.vertices_graphOf analysis.dependency ▸ hm)
  obtain ⟨number, hv⟩ := List.mem_iff_getElem?.mp hv
  rcases h.vertex_cases hv with ⟨hk, _⟩ | ⟨id, _, hu⟩
  · simp [Hierarchy.isHierarchical, hk] at hh
  · have hid : store.IsHierarchical id := hu.imp fun _ _ hx => by
      simpa [Hierarchy.isHierarchical, hx.1] using hh
    refine ⟨id, hid, (h.settled.registry.not_predefined_iff hid).mpr ?_⟩
    exact h.settled.registry.hasUnit_and (hu.imp fun _ _ hx => hx.2.symm.trans hp) hid

theorem Store.Registry.of_noTopLevel {store : Store} (h : store.Registry) {diagnostic : Diagnostic}
    (hd : diagnostic ∈ store.analyze.analysis.diagnostics) (hc : diagnostic.code = .noTopLevel) :
    store.analyze.analysis.hierarchy.roots = [] ∧ ∃ id, store.analyze.store.IsHierarchical id ∧
      ¬ store.analyze.store.Predefined id := by
  have hp : diagnostic.code.phase? = some .topLevel := by
    rw [hc]
    rfl
  have hm := mem_reports (congrArg Prod.snd h.analyze.vertexGraph_eq) hd hp
  rw [reports] at hm
  obtain ⟨hr, entry, hv, hp⟩ := Hierarchy.of_noTopLevel hm hc
  exact ⟨hr, h.faithful_analyze.exists_not_predefined hv hp⟩

theorem Analysis.Faithful.predefined_iff {analysis : Analysis} {store : Store}
    (h : analysis.Faithful store) {number : Nat} {id : UnitId}
    (ht : analysis.dependency.target? number = some (.unit id)) :
    store.Predefined id ↔
      (analysis.dependency.label? number).map UnitVertex.predefined = some true := by
  obtain ⟨key, vertex, hv, hx⟩ := DependencyGraph.target?_eq_some_iff.mp ht
  have hl : analysis.dependency.label? number = some vertex := by
    rw [Graph.label?, Graph.vertex?, hv, Option.map_some]
  rw [hl, Option.map_some, Option.some_inj]
  have hu := h.hasUnit_of_vertex hv hx
  constructor
  · intro hp
    obtain ⟨_, _, _, _, hp, _, he⟩ := h.settled.registry.hasUnit_and hp hu
    exact he.trans hp
  · exact fun hp => hu.imp fun _ _ he => he.2.symm.trans hp

/-- Whether predefined libraries keep to themselves can be read off the edges. -/
theorem Analysis.Faithful.predefinedClosed {analysis : Analysis} {store : Store}
    (h : analysis.Faithful store) (he : ∀ edge ∈ analysis.dependency.edges,
      edge.weight.edgeClass = .instantiates →
      (analysis.dependency.label? edge.source).map UnitVertex.predefined = some true →
      (analysis.dependency.label? edge.target).map UnitVertex.predefined = some true) :
    store.PredefinedClosed := by
  rintro a b ⟨kind, hk, hb⟩ hp
  by_cases hne : b = a
  · exact hne ▸ hp
  · obtain ⟨source, destination, hs, hd, hm⟩ :=
      (h.instances.edge_iff kind (EdgeKind.isLinked_of_instantiates hk) a b).mpr ⟨hne, hb⟩
    exact (h.predefined_iff hd).mpr (he _ hm hk ((h.predefined_iff hs).mp hp))

/-- A missing top level has a cause. If predefined libraries keep to themselves, then a reachable
design whose analysis reports that there is no top level has a cycle in its hierarchy. Without a
cycle there is a root as soon as some entity or architecture is not predefined. -/
theorem Design.Reachable.top_level_or_cycle {design : Design} (h : design.Reachable)
    (hc : design.analyze.design.store.PredefinedClosed) :
    ∃ analysis, design.analyze.design.analysis = some analysis ∧
      ((∃ diagnostic ∈ analysis.diagnostics, diagnostic.code = .noTopLevel) →
        analysis.hierarchy.graph.HasCycle) ∧
      (¬ analysis.hierarchy.graph.HasCycle →
        (∃ id, design.analyze.design.store.IsHierarchical id ∧
          ¬ design.analyze.design.store.Predefined id) → analysis.hierarchy.roots ≠ []) := by
  have hr := h.grounded.built.registry
  refine ⟨_, rfl, ?_, ?_⟩
  · rintro ⟨diagnostic, hd, hcode⟩
    obtain ⟨hroots, id, hid, hown⟩ := hr.of_noTopLevel hd hcode
    exact hr.faithful_analyze.hasCycle hc hroots hid hown
  · rintro hn ⟨id, hid, hown⟩ hroots
    exact hn (hr.faithful_analyze.hasCycle hc hroots hid hown)

/-- Two architectures that instantiate the entity of each other, and a predefined library in which
one unit instantiates another. -/
def Design.relayUnits : List DesignUnit :=
  let cell : Identifier := ⟨"cell", by decide +kernel⟩
  let shell : Identifier := ⟨"shell", by decide +kernel⟩
  let relay : Identifier := ⟨"relay", by decide +kernel⟩
  let stage : Identifier := ⟨"stage", by decide +kernel⟩
  let outer : Identifier := ⟨"outer", by decide +kernel⟩
  let holding (ident entity part : Identifier) : DesignUnit :=
    { ident
      body := .architecture { item := entity } []
        [.mk none (.instantiation { unit := .component (.simple part) })] }
  [{ ident := cell, body := .entity none none [] [] },
    { ident := shell, body := .entity none none [] [] },
    holding outer shell cell,
    { ident := relay, body := .entity none none [] [] },
    holding outer relay stage,
    { ident := stage, body := .entity none none [] [] },
    holding outer stage relay]

def Design.relays : Design :=
  let design := ((withConfig {}).createLibrary "ieee").design
  let design := (design.createLibrary "panel").design
  let design := (design.addDocument { units := relayUnits.take 3 } ⟨0⟩).design
  (design.addDocument { units := relayUnits.drop 3 } ⟨1⟩).design

theorem Design.relays_cycle : relays.Reachable ∧
    relays.analyze.design.store.PredefinedClosed ∧
    (relays.store.reports .topLevel).map Diagnostic.code = [.noTopLevel] ∧
    (relays.analyze.design.analysis.map fun analysis => analysis.hierarchy.graph.edgeKeys) =
      some [("ieee.shell(outer)", "ieee.shell", .entityImplementation),
        ("panel.relay(outer)", "panel.relay", .entityImplementation),
        ("panel.stage(outer)", "panel.stage", .entityImplementation),
        ("ieee.cell", "ieee.shell(outer)", .componentInstantiation),
        ("panel.stage", "panel.relay(outer)", .componentInstantiation),
        ("panel.relay", "panel.stage(outer)", .componentInstantiation)] ∧
    ∃ analysis, relays.analyze.design.analysis = some analysis ∧
      ((∃ diagnostic ∈ analysis.diagnostics, diagnostic.code = .noTopLevel) →
        analysis.hierarchy.graph.HasCycle) ∧
      (¬ analysis.hierarchy.graph.HasCycle →
        (∃ id, relays.analyze.design.store.IsHierarchical id ∧
          ¬ relays.analyze.design.store.Predefined id) → analysis.hierarchy.roots ≠ []) :=
  have h : relays.Reachable :=
    .addDocument _ _ (.addDocument _ _ (.createLibrary _ (.createLibrary _ (.start _))))
  have hc : relays.analyze.design.store.PredefinedClosed :=
    h.grounded.built.registry.faithful_analyze.predefinedClosed (by decide +kernel)
  ⟨h, hc, by decide +kernel, by decide +kernel, h.top_level_or_cycle hc⟩

end Vhdl
