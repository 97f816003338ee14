import Vhdl.Proofs.Components

/-! # How graphs grow

A graph is made by offering vertices and edges to it. It keeps the first vertex of each key and the
first of equal edges, and turns away edges that lead back to where they start. What it lists is
therefore told by the offers, in their order.
-/

namespace Vhdl

section FirstsBy

variable {α β : Type} [DecidableEq β] {tag : α → β}

/-- The members that do not repeat the tag of an earlier one. -/
def firstsBy (tag : α → β) : List α → List α
  | [] => []
  | x :: rest => x :: (firstsBy tag rest).filter (tag · ≠ tag x)

theorem mem_map_firstsBy {xs : List α} {t : β} :
    t ∈ (firstsBy tag xs).map tag ↔ t ∈ xs.map tag := by
  induction xs with
  | nil => rfl
  | cons x rest ih =>
    simp only [firstsBy, List.map_cons, List.mem_cons, ← ih, List.mem_map, List.mem_filter,
      decide_eq_true_eq]
    refine or_congr_right' fun hne => exists_congr fun y => ⟨fun h => ⟨h.1.1, h.2⟩, ?_⟩
    rintro ⟨hy, rfl⟩
    exact ⟨⟨hy, hne⟩, rfl⟩

theorem mem_of_mem_firstsBy {xs : List α} {x : α} (h : x ∈ firstsBy tag xs) : x ∈ xs := by
  induction xs with
  | nil => exact h
  | cons y rest ih =>
    rcases List.mem_cons.mp h with rfl | h
    · exact List.mem_cons_self
    · exact List.mem_cons_of_mem y (ih (List.mem_of_mem_filter h))

theorem nodup_map_firstsBy (tag : α → β) (xs : List α) : ((firstsBy tag xs).map tag).Nodup := by
  induction xs with
  | nil => exact List.nodup_nil
  | cons x rest ih =>
    refine List.nodup_cons.mpr ⟨?_, ih.sublist (List.filter_sublist.map tag)⟩
    simp [List.mem_filter]

theorem firstsBy_concat (tag : α → β) (xs : List α) (x : α) : firstsBy tag (xs ++ [x]) =
    if tag x ∈ xs.map tag then firstsBy tag xs else firstsBy tag xs ++ [x] := by
  induction xs with
  | nil => rfl
  | cons y rest ih =>
    rw [List.cons_append, firstsBy, ih, firstsBy]
    by_cases hy : tag x = tag y
    · have hm : tag x ∈ (y :: rest).map tag := by simp [hy]
      rw [if_pos hm]
      split
      · rfl
      · simp [hy]
    · simp only [List.map_cons, List.mem_cons, hy, false_or]
      split
      · rfl
      · simp [hy]

end FirstsBy

namespace Graph

section Calls

variable {κ ν ε : Type}

theorem edges_addVertex [DecidableEq κ] (graph : Graph κ ν ε) (key : κ) (label : ν) :
    (graph.addVertex key label).1.edges = graph.edges := by
  unfold addVertex
  split <;> rfl

theorem vertices_addVertex [DecidableEq κ] (graph : Graph κ ν ε) (key : κ) (label : ν) :
    (graph.addVertex key label).1.vertices =
      if key ∈ graph.vertices.map Prod.fst then graph.vertices
      else graph.vertices ++ [(key, label)] := by
  unfold addVertex
  split
  · next id hid =>
    have hm : key ∈ graph.vertices.map Prod.fst := by
      by_contra hn
      cases (vertexId?_eq_none_iff.mpr hn).symm.trans hid
    rw [if_pos hm]
  · next hnone => rw [if_neg (vertexId?_eq_none_iff.mp hnone)]

theorem edges_addEdge [DecidableEq ε] (graph : Graph κ ν ε) (edge : Edge ε) :
    (graph.addEdge edge).1.edges =
      if edge.source = edge.target ∨ edge ∈ graph.edges then graph.edges
      else graph.edges ++ [edge] := by
  unfold addEdge
  split
  · next hl => rw [if_pos (.inl hl)]
  · next hl =>
    simp only [List.contains_iff_mem]
    split
    · next hm => rw [if_pos (.inr hm)]
    · next hm => rw [if_neg (not_or.mpr ⟨hl, hm⟩)]

theorem addEdge_ne_self_iff [DecidableEq ε] (graph : Graph κ ν ε) (edge : Edge ε) :
    (graph.addEdge edge).1 ≠ graph ↔ (graph.addEdge edge).2 = .added := by
  unfold addEdge
  split
  · simp
  · split
    · simp
    · -- Only here an edge is added, and the list of edges gets longer.
      refine iff_of_true (fun h => ?_) rfl
      have hlength := congrArg (·.edges.length) h
      simp at hlength

/-- The list holds the edges of the graph that pass the test, in the order of insertion, and the
number is how many these are. -/
structure ListsEdges (graph : Graph κ ν ε) (test : Edge ε → Prop) (listed : List (Edge ε))
    (degree : Nat) : Prop where
  ordered : listed.Sublist graph.edges
  mem_iff : ∀ edge, edge ∈ listed ↔ edge ∈ graph.edges ∧ test edge
  length : degree = listed.length

theorem listsEdges_outgoing (graph : Graph κ ν ε) (id : Nat) :
    graph.ListsEdges (·.source = id) (graph.outgoing id) (graph.outDegree id) where
  ordered := List.filter_sublist
  mem_iff edge := by simp [outgoing]
  length := rfl

theorem listsEdges_incoming (graph : Graph κ ν ε) (id : Nat) :
    graph.ListsEdges (·.target = id) (graph.incoming id) (graph.inDegree id) where
  ordered := List.filter_sublist
  mem_iff edge := by simp [incoming]
  length := rfl

end Calls

variable {κ ν ε : Type} [DecidableEq κ] [DecidableEq ε] {graph : Graph κ ν ε}
  {offers : List (κ × ν)} {joins : List (Edge ε)}

inductive MadeFrom : List (κ × ν) → List (Edge ε) → Graph κ ν ε → Prop where
  | empty : MadeFrom [] [] empty
  | addVertex {offers : List (κ × ν)} {joins : List (Edge ε)} {graph : Graph κ ν ε} (key : κ)
      (label : ν) : MadeFrom offers joins graph →
      MadeFrom (offers ++ [(key, label)]) joins (graph.addVertex key label).1
  | addEdge {offers : List (κ × ν)} {joins : List (Edge ε)} {graph : Graph κ ν ε} (edge : Edge ε) :
      edge.source < graph.numVertices → edge.target < graph.numVertices →
      MadeFrom offers joins graph → MadeFrom offers (joins ++ [edge]) (graph.addEdge edge).1

namespace MadeFrom

theorem made (h : MadeFrom offers joins graph) : graph.Made := by
  induction h with
  | empty => exact .empty
  | addVertex key label _ ih => exact .addVertex key label ih
  | addEdge edge hs ht _ ih => exact .addEdge edge hs ht ih

theorem vertices_eq (h : MadeFrom offers joins graph) :
    graph.vertices = firstsBy Prod.fst offers := by
  induction h with
  | empty => rfl
  | addVertex key label _ ih =>
    rw [vertices_addVertex, firstsBy_concat, ih]
    simp only [mem_map_firstsBy]
  | addEdge edge _ _ _ ih => rw [vertices_addEdge, ih]

theorem edges_eq (h : MadeFrom offers joins graph) :
    graph.edges = firstsBy id (joins.filter fun edge => edge.source ≠ edge.target) := by
  induction h with
  | empty => rfl
  | addVertex key label _ ih => rw [edges_addVertex, ih]
  | @addEdge _ joins graph edge _ _ _ ih =>
    rw [edges_addEdge, List.filter_append]
    by_cases hl : edge.source = edge.target
    · simpa [hl] using ih
    · have hm : edge ∈ graph.edges ↔
          id edge ∈ (joins.filter fun edge => edge.source ≠ edge.target).map id := by
        rw [ih, ← mem_map_firstsBy, List.map_id, id]
      rw [List.filter_cons_of_pos (by simpa using hl), List.filter_nil, firstsBy_concat, ← ih]
      simp only [hl, false_or, hm]

theorem nodup_keys (h : MadeFrom offers joins graph) : (graph.vertices.map Prod.fst).Nodup :=
  h.vertices_eq ▸ nodup_map_firstsBy Prod.fst offers

theorem nodup_edges (h : MadeFrom offers joins graph) : graph.edges.Nodup := by
  rw [h.edges_eq, ← List.map_id (firstsBy id _)]
  exact nodup_map_firstsBy id _

theorem source_ne_target (h : MadeFrom offers joins graph) {edge : Edge ε}
    (he : edge ∈ graph.edges) : edge.source ≠ edge.target := by
  rw [h.edges_eq] at he
  exact of_decide_eq_true (List.mem_filter.mp (mem_of_mem_firstsBy he)).2

theorem addVertex_taken (h : MadeFrom offers joins graph) {key : κ} {id : Nat}
    (hk : graph.keyOf? id = some key) (label : ν) :
    graph.addVertex key label = (graph, .error id) := by
  rw [Graph.addVertex, (vertexId?_eq_some_iff h.nodup_keys).mpr hk]

theorem addVertex_vacant (h : MadeFrom offers joins graph) {key : κ}
    (hk : ∀ id, graph.keyOf? id ≠ some key) (label : ν) : graph.addVertex key label =
      ({ graph with vertices := graph.vertices ++ [(key, label)] }, .ok graph.numVertices) := by
  have hnone : graph.vertexId? key = none := by
    refine Option.eq_none_iff_forall_ne_some.mpr fun id hid => hk id ?_
    exact (vertexId?_eq_some_iff h.nodup_keys).mp hid
  rw [Graph.addVertex, hnone]

end MadeFrom

/-- What a graph keeps of the vertices and edges that were offered to it, and how it answers. -/
structure KeepsExactly (graph : Graph κ ν ε) (offers : List (κ × ν)) (joins : List (Edge ε)) :
    Prop where
  vertices : graph.vertices = firstsBy Prod.fst offers
  keys : (graph.vertices.map Prod.fst).Nodup
  vertexId : ∀ key id, graph.vertexId? key = some id ↔ graph.keyOf? id = some key
  taken : ∀ key id, graph.keyOf? id = some key →
    ∀ label, graph.addVertex key label = (graph, .error id)
  vacant : ∀ key, (∀ id, graph.keyOf? id ≠ some key) → ∀ label, graph.addVertex key label =
    ({ graph with vertices := graph.vertices ++ [(key, label)] }, .ok graph.numVertices)
  edges : graph.edges = firstsBy id (joins.filter fun edge => edge.source ≠ edge.target)
  closed : graph.Closed
  loopless : ∀ edge ∈ graph.edges, edge.source ≠ edge.target
  unrepeated : graph.edges.Nodup
  changed_iff : ∀ edge, (graph.addEdge edge).1 ≠ graph ↔ (graph.addEdge edge).2 = .added
  outgoing : ∀ id, graph.ListsEdges (·.source = id) (graph.outgoing id) (graph.outDegree id)
  incoming : ∀ id, graph.ListsEdges (·.target = id) (graph.incoming id) (graph.inDegree id)

/-- A graph lists the first vertex of each key and each edge that is no loop once, in the order of
the offers. It finds vertices by their keys and edges by their ends, and tells what it turns
away. -/
theorem MadeFrom.keepsExactly (h : MadeFrom offers joins graph) :
    graph.KeepsExactly offers joins where
  vertices := h.vertices_eq
  keys := h.nodup_keys
  vertexId _ _ := vertexId?_eq_some_iff h.nodup_keys
  taken _ _ := h.addVertex_taken
  vacant _ := h.addVertex_vacant
  edges := h.edges_eq
  closed := h.made.closed
  loopless _ := h.source_ne_target
  unrepeated := h.nodup_edges
  changed_iff := graph.addEdge_ne_self_iff
  outgoing := graph.listsEdges_outgoing
  incoming := graph.listsEdges_incoming

end Graph

end Vhdl
