import Vhdl.Proofs.Vertices

/-! # Dependency graphs by their keys

What a dependency graph says about roots and used units can be read off its keys and the edges
between them. The numbers of the vertices and the order of the edges play no role.
-/

namespace Vhdl

namespace Graph

variable {κ ν ε : Type} {graph : Graph κ ν ε} {key : κ} {id other : Nat}

theorem map_numbered (graph : Graph κ ν ε) : graph.numbered.map Prod.snd = graph.vertices := by
  rw [numbered, List.map_map]
  exact List.zipIdx_map_fst 0 graph.vertices

theorem keyOf?_eq_getElem? (graph : Graph κ ν ε) (id : Nat) :
    graph.keyOf? id = (graph.vertices.map Prod.fst)[id]? := by
  rw [List.getElem?_map]
  rfl

theorem keyOf?_inj (h : (graph.vertices.map Prod.fst).Nodup) (hi : graph.keyOf? id = some key)
    (ho : graph.keyOf? other = some key) : id = other := by
  rw [keyOf?_eq_getElem?] at hi ho
  exact (List.getElem?_inj (List.getElem?_eq_some_iff.mp hi).1 h).mp (hi.trans ho.symm)

theorem keyOf?_of_vertexId? [DecidableEq κ] (h : graph.vertexId? key = some id) :
    graph.keyOf? id = some key := by
  obtain ⟨hlt, he, _⟩ := List.findIdx?_eq_some_iff_getElem.mp h
  have hk : graph.vertices[id].1 = key := by simpa using he
  rw [keyOf?, vertex?, List.getElem?_eq_getElem hlt, Option.map_some, hk]

theorem vertexId?_eq_some_iff [DecidableEq κ] (h : (graph.vertices.map Prod.fst).Nodup) :
    graph.vertexId? key = some id ↔ graph.keyOf? id = some key := by
  refine ⟨keyOf?_of_vertexId?, fun hk => ?_⟩
  cases hv : graph.vertexId? key with
  | none =>
    rw [keyOf?_eq_getElem?] at hk
    exact absurd (List.mem_of_getElem? hk) (vertexId?_eq_none_iff.mp hv)
  | some found => rw [keyOf?_inj h (keyOf?_of_vertexId? hv) hk]

end Graph

section Reach

variable {α : Type} [DecidableEq α] {next : α → List α} {unseen todo : List α}

theorem reach_sound {x : α} (h : x ∈ reach next unseen todo) :
    ∃ start ∈ todo, start ∈ unseen ∧ Relation.ReflTransGen (fun a b => b ∈ next a) start x := by
  induction unseen, todo using reach.induct next with
  | case1 unseen => simp [reach] at h
  | case2 unseen y todo hy ih =>
    rw [reach, if_pos hy, List.mem_cons] at h
    rcases h with rfl | h
    · exact ⟨x, List.mem_cons_self, hy, .refl⟩
    · obtain ⟨start, hs, hu, hp⟩ := ih h
      rcases List.mem_append.mp hs with hs | hs
      · exact ⟨y, List.mem_cons_self, hy, .head hs hp⟩
      · exact ⟨start, List.mem_cons_of_mem y hs, List.mem_of_mem_erase hu, hp⟩
  | case3 unseen y todo hy ih =>
    rw [reach, if_neg hy] at h
    obtain ⟨start, hs, hu, hp⟩ := ih h
    exact ⟨start, List.mem_cons_of_mem y hs, hu, hp⟩

/-- The search finds where it starts, and it goes on from everything it finds. -/
theorem reach_closed : (∀ x ∈ todo, x ∈ unseen → x ∈ reach next unseen todo) ∧
    ∀ x ∈ reach next unseen todo, ∀ y ∈ next x, y ∈ unseen → y ∈ reach next unseen todo := by
  induction unseen, todo using reach.induct next with
  | case1 unseen => simp [reach]
  | case2 unseen z todo hz ih =>
    obtain ⟨hstart, hstep⟩ := ih
    rw [reach, if_pos hz]
    have hrest : ∀ y, y ∈ unseen → (y ∈ unseen.erase z →
        y ∈ reach next (unseen.erase z) (next z ++ todo)) →
        y ∈ z :: reach next (unseen.erase z) (next z ++ todo) := by
      intro y hy hr
      by_cases he : y = z
      · exact he ▸ List.mem_cons_self
      · exact List.mem_cons_of_mem z (hr ((List.mem_erase_of_ne he).mpr hy))
    refine ⟨fun x hx hu => ?_, fun x hx y hy hu => hrest y hu fun hr => ?_⟩
    · rcases List.mem_cons.mp hx with rfl | hx
      · exact List.mem_cons_self
      · exact hrest x hu fun hr => hstart x (List.mem_append_right _ hx) hr
    · rcases List.mem_cons.mp hx with rfl | hx
      · exact hstart y (List.mem_append_left _ hy) hr
      · exact hstep x hx y hy hr
  | case3 unseen z todo hz ih =>
    rw [reach, if_neg hz]
    refine ⟨fun x hx hu => ?_, ih.2⟩
    rcases List.mem_cons.mp hx with rfl | hx
    · exact absurd hu hz
    · exact ih.1 x hx hu

/-- Where steps stay among the unseen, the search finds all that steps lead to. -/
theorem mem_reach_iff (h : ∀ x ∈ unseen, ∀ y ∈ next x, y ∈ unseen) {x : α} :
    x ∈ reach next unseen todo ↔ ∃ start ∈ todo, start ∈ unseen ∧
      Relation.ReflTransGen (fun a b => b ∈ next a) start x := by
  refine ⟨reach_sound, ?_⟩
  rintro ⟨start, hs, hu, hp⟩
  suffices x ∈ unseen ∧ x ∈ reach next unseen todo from this.2
  induction hp with
  | refl => exact ⟨hu, reach_closed.1 start hs hu⟩
  | tail _ hy ih =>
    have hu := h _ ih.1 _ hy
    exact ⟨hu, reach_closed.2 _ ih.2 _ hy hu⟩

end Reach

namespace DependencyGraph

variable {graph : DependencyGraph} {id other : Nat} {key : String} {vertex : UnitVertex}

def vertexKinds (graph : DependencyGraph) : List (String × VertexKind × Bool) :=
  graph.vertices.map fun (key, vertex) => (key, vertex.kind, vertex.predefined)

/-- Keys are distinct, edges have ends, and no vertex implements two others. -/
structure Keyed (graph : DependencyGraph) : Prop where
  keys : (graph.vertices.map Prod.fst).Nodup
  ends : ∀ edge ∈ graph.edges, edge.source < graph.numVertices ∧ edge.target < graph.numVertices
  implements_once : ∀ e ∈ graph.edges, ∀ f ∈ graph.edges, e.source = f.source →
    e.weight.edgeClass = .implements → f.weight.edgeClass = .implements → e.target = f.target

theorem keyOf?_of_vertex? (h : graph.vertices[id]? = some (key, vertex)) :
    graph.keyOf? id = some key := by
  rw [Graph.keyOf?, Graph.vertex?, h, Option.map_some]

theorem exists_keyOf? (h : id < graph.numVertices) : ∃ key, graph.keyOf? id = some key := by
  refine ⟨graph.vertices[id].1, ?_⟩
  rw [Graph.keyOf?, Graph.vertex?, List.getElem?_eq_getElem h, Option.map_some]

theorem Keyed.keyOf?_inj (h : graph.Keyed) (hi : graph.keyOf? id = some key)
    (ho : graph.keyOf? other = some key) : id = other :=
  Graph.keyOf?_inj h.keys hi ho

theorem Keyed.vertexId?_eq_some_iff (h : graph.Keyed) :
    graph.vertexId? key = some id ↔ graph.keyOf? id = some key :=
  Graph.vertexId?_eq_some_iff h.keys

theorem mem_edgeKeys_iff {source target : String} {kind : EdgeKind} :
    (source, target, kind) ∈ graph.edgeKeys ↔ ∃ edge ∈ graph.edges,
      graph.keyOf? edge.source = some source ∧ graph.keyOf? edge.target = some target ∧
        edge.weight = kind := by
  rw [edgeKeys, List.mem_filterMap]
  refine exists_congr fun edge => and_congr_right fun _ => ?_
  cases graph.keyOf? edge.source <;> cases graph.keyOf? edge.target <;> simp

theorem Keyed.exists_incoming_iff (h : graph.Keyed) (hk : graph.keyOf? id = some key)
    (P : EdgeKind → Prop) : (∃ edge ∈ graph.edges, edge.target = id ∧ P edge.weight) ↔
      ∃ source kind, (source, key, kind) ∈ graph.edgeKeys ∧ P kind := by
  constructor
  · rintro ⟨edge, he, rfl, hp⟩
    obtain ⟨source, hs⟩ := exists_keyOf? (h.ends edge he).1
    exact ⟨source, edge.weight, mem_edgeKeys_iff.mpr ⟨edge, he, hs, hk, rfl⟩, hp⟩
  · rintro ⟨source, kind, he, hp⟩
    obtain ⟨edge, hm, _, ht, rfl⟩ := mem_edgeKeys_iff.mp he
    exact ⟨edge, hm, h.keyOf?_inj ht hk, hp⟩

theorem isInstantiated_iff_edges : graph.isInstantiated id = true ↔
    ∃ edge ∈ graph.edges, edge.target = id ∧ edge.weight.edgeClass = .instantiates := by
  simp [isInstantiated, Graph.incoming]

theorem Keyed.isInstantiated_iff (h : graph.Keyed) (hk : graph.keyOf? id = some key) :
    graph.isInstantiated id = true ↔
      ∃ source kind, (source, key, kind) ∈ graph.edgeKeys ∧ kind.edgeClass = .instantiates := by
  rw [isInstantiated_iff_edges, h.exists_incoming_iff hk (·.edgeClass = .instantiates)]

theorem mem_implementations_iff : other ∈ graph.implementations id ↔ ∃ edge ∈ graph.edges,
    edge.source = other ∧ edge.target = id ∧ edge.weight.edgeClass = .implements := by
  simp only [implementations, Graph.incoming, List.mem_map, List.mem_filter, decide_eq_true_iff]
  exact exists_congr fun edge => by tauto

theorem Keyed.implementations_eq_nil_iff (h : graph.Keyed) (hk : graph.keyOf? id = some key) :
    graph.implementations id = [] ↔
      ∀ source kind, (source, key, kind) ∈ graph.edgeKeys → kind.edgeClass ≠ .implements := by
  have hx := h.exists_incoming_iff hk (·.edgeClass = .implements)
  rw [List.eq_nil_iff_forall_not_mem]
  simp only [mem_implementations_iff]
  constructor
  · intro hn source kind he hc
    obtain ⟨edge, he, ht, hc⟩ := hx.mpr ⟨source, kind, he, hc⟩
    exact hn edge.source ⟨edge, he, rfl, ht, hc⟩
  · rintro hn _ ⟨edge, he, rfl, ht, hc⟩
    obtain ⟨source, kind, he, hc⟩ := hx.mp ⟨edge, he, ht, hc⟩
    exact hn source kind he hc

theorem Keyed.implemented?_eq_some_iff (h : graph.Keyed) :
    graph.implemented? id = some other ↔ ∃ edge ∈ graph.edges,
      edge.source = id ∧ edge.target = other ∧ edge.weight.edgeClass = .implements := by
  rw [implemented?, Option.map_eq_some_iff]
  constructor
  · rintro ⟨edge, hf, rfl⟩
    have hm := List.mem_filter.mp (List.mem_of_find?_eq_some hf)
    exact ⟨edge, hm.1, by simpa using hm.2, rfl, by simpa using List.find?_some hf⟩
  · rintro ⟨edge, he, rfl, rfl, hc⟩
    cases hf : (graph.outgoing edge.source).find? (·.weight.edgeClass = .implements) with
    | none =>
      have hn := List.find?_eq_none.mp hf edge (List.mem_filter.mpr ⟨he, by simp⟩)
      exact absurd (decide_eq_true hc) hn
    | some found =>
      have hm := List.mem_filter.mp (List.mem_of_find?_eq_some hf)
      have hs : found.source = edge.source := by simpa using hm.2
      exact ⟨found, rfl,
        h.implements_once found hm.1 edge he hs (by simpa using List.find?_some hf) hc⟩

/-- The key is that of a root: of an entity or architecture of a library that is not predefined.
No edge goes there but by references, and what it implements is not instantiated either. -/
structure RootKey (graph : DependencyGraph) (key : String) : Prop where
  kind : (key, .unit .entity, false) ∈ graph.vertexKinds ∨
    (key, .unit .architecture, false) ∈ graph.vertexKinds
  free : ∀ source kind, (source, key, kind) ∈ graph.edgeKeys → kind.edgeClass = .references
  owner_free : ∀ target kind, (key, target, kind) ∈ graph.edgeKeys →
    kind.edgeClass = .implements → ∀ source other, (source, target, other) ∈ graph.edgeKeys →
      other.edgeClass ≠ .instantiates

theorem isRoot_iff_edges : Hierarchy.isRoot graph id vertex = true ↔ vertex.predefined = false ∧
    (graph.implementations id = [] ∧ ¬ graph.isInstantiated id = true) ∧
    ∀ entity, graph.implemented? id = some entity → ¬ graph.isInstantiated entity = true := by
  unfold Hierarchy.isRoot
  cases graph.implemented? id <;> simp [and_assoc]

theorem Keyed.free_iff (h : graph.Keyed) (hk : graph.keyOf? id = some key) :
    graph.implementations id = [] ∧ ¬ graph.isInstantiated id = true ↔
      ∀ source kind, (source, key, kind) ∈ graph.edgeKeys → kind.edgeClass = .references := by
  rw [h.implementations_eq_nil_iff hk, h.isInstantiated_iff hk]
  constructor
  · rintro ⟨hi, hn⟩ source kind he
    cases hc : kind.edgeClass with
    | references => rfl
    | implements => exact absurd hc (hi source kind he)
    | instantiates => exact absurd ⟨source, kind, he, hc⟩ hn
  · intro hr
    refine ⟨fun source kind he hc => ?_, ?_⟩
    · cases (hr source kind he).symm.trans hc
    · rintro ⟨source, kind, he, hc⟩
      cases (hr source kind he).symm.trans hc

theorem Keyed.owner_free_iff (h : graph.Keyed) (hk : graph.keyOf? id = some key) :
    (∀ entity, graph.implemented? id = some entity → ¬ graph.isInstantiated entity = true) ↔
      ∀ target kind, (key, target, kind) ∈ graph.edgeKeys → kind.edgeClass = .implements →
        ∀ source other, (source, target, other) ∈ graph.edgeKeys →
          other.edgeClass ≠ .instantiates := by
  constructor
  · intro hn target kind he hc source other ho hi
    obtain ⟨edge, hm, hs, ht, rfl⟩ := mem_edgeKeys_iff.mp he
    have hx := h.implemented?_eq_some_iff.mpr ⟨edge, hm, h.keyOf?_inj hs hk, rfl, hc⟩
    exact hn edge.target hx ((h.isInstantiated_iff ht).mpr ⟨source, other, ho, hi⟩)
  · intro hn entity hx hi
    obtain ⟨edge, he, rfl, rfl, hc⟩ := h.implemented?_eq_some_iff.mp hx
    obtain ⟨target, ht⟩ := exists_keyOf? (h.ends edge he).2
    obtain ⟨source, other, ho, hi⟩ := (h.isInstantiated_iff ht).mp hi
    have hk := mem_edgeKeys_iff.mpr ⟨edge, he, hk, ht, rfl⟩
    exact hn target edge.weight hk hc source other ho hi

theorem mem_numbered_iff :
    (id, key, vertex) ∈ graph.numbered ↔ graph.vertices[id]? = some (key, vertex) := by
  simp [Graph.numbered, List.mem_zipIdx_iff_getElem?]

end DependencyGraph

namespace Hierarchy

variable {graph : DependencyGraph} {key : String} {place number : Nat}

theorem vertices_graphOf (graph : DependencyGraph) :
    (graphOf graph).vertices = graph.vertices.filter fun (_, vertex) => isHierarchical vertex := by
  unfold graphOf
  dsimp only
  generalize graph.edges.filterMap _ = edges
  generalize graph.vertices.filter _ = vertices
  suffices ∀ start : DependencyGraph,
      (edges.foldl (fun graph edge => (graph.addEdge edge).1) start).vertices = start.vertices from
    this { vertices }
  induction edges with
  | nil => exact fun _ => rfl
  | cons edge edges ih => exact fun start => (ih _).trans (Graph.vertices_addEdge start edge)

theorem vertices_graphOf_eq_map (graph : DependencyGraph) :
    (graphOf graph).vertices =
      (graph.numbered.filter fun (_, _, vertex) => isHierarchical vertex).map Prod.snd := by
  rw [vertices_graphOf]
  conv_lhs => rw [← graph.map_numbered, List.filter_map]
  rfl

theorem mem_kept_iff : number ∈ kept graph ↔ ∃ key vertex,
    graph.vertices[number]? = some (key, vertex) ∧ isHierarchical vertex = true := by
  simp only [kept, List.mem_map, List.mem_filter]
  constructor
  · rintro ⟨⟨_, key, vertex⟩, ⟨hm, hh⟩, rfl⟩
    exact ⟨key, vertex, DependencyGraph.mem_numbered_iff.mp hm, hh⟩
  · rintro ⟨key, vertex, hv, hh⟩
    exact ⟨(number, key, vertex), ⟨DependencyGraph.mem_numbered_iff.mpr hv, hh⟩, rfl⟩

theorem vertices_graphOf_getElem? (graph : DependencyGraph) (place : Nat) :
    (graphOf graph).vertices[place]? = (kept graph)[place]?.bind (graph.vertices[·]?) := by
  rw [vertices_graphOf_eq_map, kept, List.getElem?_map, List.getElem?_map]
  cases hp : (graph.numbered.filter fun (_, _, vertex) => isHierarchical vertex)[place]? with
  | none => rfl
  | some entry =>
    have hm := (List.mem_filter.mp (List.mem_of_getElem? hp)).1
    exact (DependencyGraph.mem_numbered_iff.mp hm).symm

theorem mem_roots_iff : place ∈ (ofDependency graph).roots ↔ ∃ number key vertex,
    (kept graph)[place]? = some number ∧ graph.vertices[number]? = some (key, vertex) ∧
      isRoot graph number vertex = true := by
  simp only [ofDependency, List.mem_filterMap, kept, List.getElem?_map, Option.map_eq_some_iff]
  constructor
  · rintro ⟨⟨⟨number, key, vertex⟩, _⟩, hp, hr⟩
    have hp := List.mem_zipIdx_iff_getElem?.mp hp
    have hm := (List.mem_filter.mp (List.mem_of_getElem? hp)).1
    obtain ⟨hroot, he⟩ := Option.ite_none_right_eq_some.mp hr
    obtain rfl := Option.some.inj he
    exact ⟨number, key, vertex, ⟨_, hp, rfl⟩, DependencyGraph.mem_numbered_iff.mp hm, hroot⟩
  · rintro ⟨_, key, vertex, ⟨⟨number, key', vertex'⟩, hp, rfl⟩, hv, hroot⟩
    have hm := (List.mem_filter.mp (List.mem_of_getElem? hp)).1
    cases hv.symm.trans (DependencyGraph.mem_numbered_iff.mp hm)
    exact ⟨((number, key, vertex), place), List.mem_zipIdx_iff_getElem?.mpr hp, if_pos hroot⟩

theorem mem_rootKeys_iff : key ∈ (ofDependency graph).rootKeys ↔
    ∃ id vertex, graph.vertices[id]? = some (key, vertex) ∧ isHierarchical vertex = true ∧
      isRoot graph id vertex = true := by
  have hkey : ∀ place id, (kept graph)[place]? = some id →
      (ofDependency graph).graph.keyOf? place = (graph.vertices[id]?).map Prod.fst := by
    intro place id hp
    rw [Graph.keyOf?, Graph.vertex?]
    exact congrArg _ ((vertices_graphOf_getElem? graph place).trans (by rw [hp, Option.bind_some]))
  simp only [rootKeys, List.mem_filterMap, mem_roots_iff]
  constructor
  · rintro ⟨place, ⟨id, key', vertex, hp, hv, hr⟩, hk⟩
    rw [hkey place id hp, hv] at hk
    obtain rfl := Option.some.inj hk
    obtain ⟨_, _, hv', hh⟩ := mem_kept_iff.mp (List.mem_of_getElem? hp)
    cases hv.symm.trans hv'
    exact ⟨id, vertex, hv, hh, hr⟩
  · rintro ⟨id, vertex, hv, hh, hr⟩
    obtain ⟨place, hp⟩ := List.mem_iff_getElem?.mp (mem_kept_iff.mpr ⟨key, vertex, hv, hh⟩)
    exact ⟨place, ⟨id, key, vertex, hp, hv, hr⟩, by rw [hkey place id hp, hv, Option.map_some]⟩

end Hierarchy

namespace DependencyGraph

variable {graph : DependencyGraph} {id other : Nat} {key : String} {vertex : UnitVertex}

theorem mem_vertexKinds_iff {kind : VertexKind} {predefined : Bool} :
    (key, kind, predefined) ∈ graph.vertexKinds ↔ ∃ (id : Nat) (vertex : UnitVertex),
      graph.vertices[id]? = some (key, vertex) ∧ vertex.kind = kind ∧
        vertex.predefined = predefined := by
  rw [vertexKinds, List.mem_map]
  constructor
  · rintro ⟨⟨_, vertex⟩, hm, he⟩
    obtain ⟨id, hv⟩ := List.mem_iff_getElem?.mp hm
    cases he
    exact ⟨id, vertex, hv, rfl, rfl⟩
  · rintro ⟨id, vertex, hv, rfl, rfl⟩
    exact ⟨(key, vertex), List.mem_of_getElem? hv, rfl⟩

/-- The roots of the hierarchy by the edges between keys. -/
theorem Keyed.mem_rootKeys_iff (h : graph.Keyed) :
    key ∈ (Hierarchy.ofDependency graph).rootKeys ↔ graph.RootKey key := by
  rw [Hierarchy.mem_rootKeys_iff]
  constructor
  · rintro ⟨id, vertex, hv, hh, hr⟩
    have hk := keyOf?_of_vertex? hv
    obtain ⟨hp, hf, ho⟩ := isRoot_iff_edges.mp hr
    refine ⟨?_, (h.free_iff hk).mp hf, (h.owner_free_iff hk).mp ho⟩
    simp only [Hierarchy.isHierarchical, Bool.or_eq_true, decide_eq_true_iff] at hh
    exact hh.imp (fun hk => mem_vertexKinds_iff.mpr ⟨id, vertex, hv, hk, hp⟩)
      fun hk => mem_vertexKinds_iff.mpr ⟨id, vertex, hv, hk, hp⟩
  · rintro ⟨hk, hf, ho⟩
    have hv : ∃ (id : Nat) (vertex : UnitVertex), graph.vertices[id]? = some (key, vertex) ∧
        Hierarchy.isHierarchical vertex = true ∧ vertex.predefined = false := by
      rcases hk with hk | hk <;> obtain ⟨id, vertex, hv, hk, hp⟩ := mem_vertexKinds_iff.mp hk <;>
        exact ⟨id, vertex, hv, by simp [Hierarchy.isHierarchical, hk], hp⟩
    obtain ⟨id, vertex, hv, hh, hp⟩ := hv
    have hk := keyOf?_of_vertex? hv
    exact ⟨id, vertex, hv, hh,
      isRoot_iff_edges.mpr ⟨hp, (h.free_iff hk).mpr hf, (h.owner_free_iff hk).mpr ho⟩⟩

/-- From a key use goes on to what it depends on and to what implements it. -/
def KeyStep (graph : DependencyGraph) (a b : String) : Prop :=
  ∃ kind, (a, b, kind) ∈ graph.edgeKeys ∨
    (b, a, kind) ∈ graph.edgeKeys ∧ kind.edgeClass = .implements

def UsedKey (graph : DependencyGraph) (key : String) : Prop :=
  ∃ root, graph.RootKey root ∧ Relation.ReflTransGen graph.KeyStep root key

theorem mem_nextUsed_iff : other ∈ Analysis.nextUsed graph id ↔
    ∃ edge ∈ graph.edges, edge.source = id ∧ edge.target = other ∨
      edge.source = other ∧ edge.target = id ∧ edge.weight.edgeClass = .implements := by
  rw [Analysis.nextUsed, List.mem_append, mem_implementations_iff]
  simp only [Graph.successors, Graph.outgoing, List.mem_map, List.mem_filter, decide_eq_true_iff]
  constructor
  · rintro (⟨edge, ⟨he, hs⟩, ht⟩ | ⟨edge, he, hx⟩)
    · exact ⟨edge, he, .inl ⟨hs, ht⟩⟩
    · exact ⟨edge, he, .inr hx⟩
  · rintro ⟨edge, he, ⟨hs, ht⟩ | hx⟩
    · exact .inl ⟨edge, ⟨he, hs⟩, ht⟩
    · exact .inr ⟨edge, he, hx⟩

theorem Keyed.nextUsed_mem (h : graph.Keyed) : ∀ x ∈ graph.vertexIds,
    ∀ y ∈ Analysis.nextUsed graph x, y ∈ graph.vertexIds := by
  intro x _ y hy
  obtain ⟨edge, he, ⟨_, rfl⟩ | ⟨rfl, _⟩⟩ := mem_nextUsed_iff.mp hy
  · exact List.mem_range.mpr (h.ends edge he).2
  · exact List.mem_range.mpr (h.ends edge he).1

theorem Keyed.keyStep_of_nextUsed (h : graph.Keyed) (hk : graph.keyOf? id = some key)
    (hn : other ∈ Analysis.nextUsed graph id) :
    ∃ next, graph.keyOf? other = some next ∧ graph.KeyStep key next := by
  obtain ⟨edge, he, ⟨rfl, rfl⟩ | ⟨rfl, rfl, hc⟩⟩ := mem_nextUsed_iff.mp hn
  · obtain ⟨next, ht⟩ := exists_keyOf? (h.ends edge he).2
    exact ⟨next, ht, edge.weight, .inl (mem_edgeKeys_iff.mpr ⟨edge, he, hk, ht, rfl⟩)⟩
  · obtain ⟨next, hs⟩ := exists_keyOf? (h.ends edge he).1
    exact ⟨next, hs, edge.weight, .inr ⟨mem_edgeKeys_iff.mpr ⟨edge, he, hs, hk, rfl⟩, hc⟩⟩

theorem Keyed.nextUsed_of_keyStep (h : graph.Keyed) (hk : graph.keyOf? id = some key)
    {next : String} (hs : graph.KeyStep key next) :
    ∃ other, graph.keyOf? other = some next ∧ other ∈ Analysis.nextUsed graph id := by
  obtain ⟨kind, he | ⟨he, hc⟩⟩ := hs
  · obtain ⟨edge, hm, hs, ht, rfl⟩ := mem_edgeKeys_iff.mp he
    exact ⟨edge.target, ht, mem_nextUsed_iff.mpr ⟨edge, hm, .inl ⟨h.keyOf?_inj hs hk, rfl⟩⟩⟩
  · obtain ⟨edge, hm, hs, ht, rfl⟩ := mem_edgeKeys_iff.mp he
    exact ⟨edge.source, hs,
      mem_nextUsed_iff.mpr ⟨edge, hm, .inr ⟨rfl, h.keyOf?_inj ht hk, hc⟩⟩⟩

theorem Keyed.path_keys (h : graph.Keyed) (hk : graph.keyOf? id = some key)
    (hp : Relation.ReflTransGen (fun a b => b ∈ Analysis.nextUsed graph a) id other) :
    ∃ last, graph.keyOf? other = some last ∧ Relation.ReflTransGen graph.KeyStep key last := by
  induction hp with
  | refl => exact ⟨key, hk, .refl⟩
  | tail _ hn ih =>
    obtain ⟨last, hl, hp⟩ := ih
    obtain ⟨next, hk, hs⟩ := h.keyStep_of_nextUsed hl hn
    exact ⟨next, hk, hp.tail hs⟩

theorem Keyed.path_numbers (h : graph.Keyed) (hk : graph.keyOf? id = some key) {last : String}
    (hp : Relation.ReflTransGen graph.KeyStep key last) : ∃ other, graph.keyOf? other = some last ∧
      Relation.ReflTransGen (fun a b => b ∈ Analysis.nextUsed graph a) id other := by
  induction hp with
  | refl => exact ⟨id, hk, .refl⟩
  | tail _ hs ih =>
    obtain ⟨found, hf, hp⟩ := ih
    obtain ⟨next, hk, hn⟩ := h.nextUsed_of_keyStep hf hs
    exact ⟨next, hk, hp.tail hn⟩

theorem RootKey.exists_keyOf? (h : graph.RootKey key) : ∃ id, graph.keyOf? id = some key := by
  rcases h.kind with hk | hk <;> obtain ⟨id, vertex, hv, _⟩ := mem_vertexKinds_iff.mp hk <;>
    exact ⟨id, keyOf?_of_vertex? hv⟩

end DependencyGraph

namespace Analysis

variable {analysis : Analysis} {id : Nat} {key : String}

theorem mem_usedVertices_iff (h : analysis.dependency.Keyed)
    (hh : analysis.hierarchy = .ofDependency analysis.dependency)
    (hk : analysis.dependency.keyOf? id = some key) :
    id ∈ analysis.usedVertices ↔ analysis.dependency.UsedKey key := by
  rw [usedVertices, mem_reach_iff h.nextUsed_mem, hh]
  constructor
  · rintro ⟨start, hs, _, hp⟩
    obtain ⟨root, hr, hv⟩ := List.mem_filterMap.mp hs
    obtain ⟨last, hl, hp⟩ := h.path_keys (h.vertexId?_eq_some_iff.mp hv) hp
    rw [Option.some.inj (hk.symm.trans hl)]
    exact ⟨root, h.mem_rootKeys_iff.mp hr, hp⟩
  · rintro ⟨root, hr, hp⟩
    obtain ⟨start, hs⟩ := hr.exists_keyOf?
    obtain ⟨other, ho, hp⟩ := h.path_numbers hs hp
    rw [h.keyOf?_inj hk ho]
    refine ⟨start, List.mem_filterMap.mpr ⟨root, h.mem_rootKeys_iff.mpr hr,
      h.vertexId?_eq_some_iff.mpr hs⟩, ?_, hp⟩
    obtain ⟨entry, he, _⟩ := Option.map_eq_some_iff.mp hs
    exact List.mem_range.mpr (List.getElem?_eq_some_iff.mp he).1

theorem mem_unusedUnits_iff {unit : UnitId} : unit ∈ analysis.unusedUnits ↔
    ∃ (id : Nat) (key : String) (vertex : UnitVertex),
      analysis.dependency.vertices[id]? = some (key, vertex) ∧ vertex.predefined = false ∧
        id ∉ analysis.usedVertices ∧ vertex.unit? = some unit := by
  rw [unusedUnits, List.mem_filterMap]
  constructor
  · rintro ⟨⟨id, key, vertex⟩, hm, hu⟩
    dsimp only at hu
    split at hu
    · cases hu
    · next hn =>
      refine ⟨id, key, vertex, DependencyGraph.mem_numbered_iff.mp hm, ?_⟩
      simpa [hu] using hn
  · rintro ⟨id, key, vertex, hv, hp, hn, hu⟩
    exact ⟨(id, key, vertex), DependencyGraph.mem_numbered_iff.mpr hv, by simp [hp, hn, hu]⟩

end Analysis

namespace DependencyGraph

/-- The same keys with vertices of the same kinds, and the same edges between them. -/
structure SameKeys (graph other : DependencyGraph) : Prop where
  vertices : ∀ entry, entry ∈ graph.vertexKinds ↔ entry ∈ other.vertexKinds
  edges : ∀ edge, edge ∈ graph.edgeKeys ↔ edge ∈ other.edgeKeys

variable {graph other : DependencyGraph} {key : String}

theorem SameKeys.rootKey_iff (h : graph.SameKeys other) :
    graph.RootKey key ↔ other.RootKey key := by
  constructor
  · rintro ⟨hk, hf, ho⟩
    simp only [h.vertices, h.edges] at hk hf ho
    exact ⟨hk, hf, ho⟩
  · rintro ⟨hk, hf, ho⟩
    simp only [← h.vertices, ← h.edges] at hk hf ho
    exact ⟨hk, hf, ho⟩

theorem SameKeys.usedKey_iff (h : graph.SameKeys other) :
    graph.UsedKey key ↔ other.UsedKey key := by
  have hs : graph.KeyStep = other.KeyStep := by
    funext a b
    simp only [KeyStep, h.edges]
  simp only [UsedKey, h.rootKey_iff, hs]

end DependencyGraph

end Vhdl
