import Vhdl.Graph.Keyed
import Vhdl.Proofs.Growth
import Vhdl.Proofs.Table

/-! # Stored graphs against their lists

The table of keys and the numbers at the vertices of a stored graph say nothing that the lists of
its vertices and edges do not say. Every call keeps it so, and all answers are those of the lists.
-/

namespace Vhdl

section Numbers

variable {ε : Type} {edges : List (Edge ε)} {direction : EdgeDirection} {id : Nat}

def numbersOf (edges : List (Edge ε)) (direction : EdgeDirection) (id : Nat) : List Nat :=
  (edges.zipIdx.filter fun entry => entry.1.holder direction = id).map Prod.snd

theorem numbersOf_concat (edges : List (Edge ε)) (edge : Edge ε) (direction : EdgeDirection)
    (id : Nat) : numbersOf (edges ++ [edge]) direction id =
      numbersOf edges direction id ++
        if edge.holder direction = id then [edges.length] else [] := by
  simp only [numbersOf, List.zipIdx_append, List.filter_append, List.map_append]
  split <;> next h => simp [h]

theorem numbersOf_eq_nil (h : ∀ edge ∈ edges, edge.holder direction ≠ id) :
    numbersOf edges direction id = [] := by
  simp only [numbersOf, List.map_eq_nil_iff, List.filter_eq_nil_iff, decide_eq_true_eq]
  intro entry he
  exact h entry.1 (List.fst_mem_of_mem_zipIdx he)

theorem pairwise_numbersOf (edges : List (Edge ε)) (direction : EdgeDirection) (id : Nat) :
    (numbersOf edges direction id).Pairwise (· < ·) := by
  apply List.Pairwise.sublist (List.filter_sublist.map Prod.snd)
  rw [List.zipIdx_map_snd]
  exact List.pairwise_lt_range' 1

theorem map_fst_filter_zipIdx (edges : List (Edge ε)) (direction : EdgeDirection) (id : Nat) :
    (edges.zipIdx.filter fun entry => entry.1.holder direction = id).map Prod.fst =
      edges.filter (·.holder direction = id) := by
  conv_rhs => rw [← List.zipIdx_map_fst 0 edges, List.filter_map]
  rfl

theorem length_numbersOf (edges : List (Edge ε)) (direction : EdgeDirection) (id : Nat) :
    (numbersOf edges direction id).length = (edges.filter (·.holder direction = id)).length := by
  rw [← map_fst_filter_zipIdx, numbersOf, List.length_map, List.length_map]

theorem filterMap_numbersOf (edges : List (Edge ε)) (direction : EdgeDirection) (id : Nat) :
    (numbersOf edges direction id).filterMap (edges[·]?) =
      edges.filter (·.holder direction = id) := by
  have hat : ∀ entry ∈ edges.zipIdx.filter fun entry => entry.1.holder direction = id,
      edges[entry.2]? = some entry.1 := by
    intro entry he
    exact List.mem_zipIdx_iff_getElem?.mp (List.mem_of_mem_filter he)
  rw [← map_fst_filter_zipIdx, numbersOf, List.filterMap_map, ← List.filterMap_eq_map]
  exact List.filterMap_congr hat

/-- The latest number comes first in the stored list, so sorting turns it around. -/
theorem mergeSort_reverse_numbersOf (edges : List (Edge ε)) (direction : EdgeDirection) (id : Nat) :
    (numbersOf edges direction id).reverse.mergeSort (· ≤ ·) = numbersOf edges direction id := by
  have hsorted := List.pairwise_mergeSort' (· ≤ ·) (numbersOf edges direction id).reverse
  have hperm := (List.mergeSort_perm (numbersOf edges direction id).reverse (· ≤ ·)).trans
    (List.reverse_perm _)
  apply List.Perm.eq_of_pairwise _ hsorted _ hperm
  · intro a b _ _ hab hba
    omega
  · exact (pairwise_numbersOf edges direction id).imp Nat.le_of_lt

end Numbers

namespace KeyedGraph

variable {κ ν ε : Type} {graph : KeyedGraph κ ν ε}

theorem numVertices_view (graph : KeyedGraph κ ν ε) :
    graph.view.numVertices = graph.numVertices :=
  List.length_map _

theorem keyOf?_view (graph : KeyedGraph κ ν ε) (id : Nat) :
    graph.view.keyOf? id = graph.keyOf? id := by
  simp [keyOf?, Graph.keyOf?, Graph.vertex?, KeyedGraph.view, Function.comp_def]

theorem map_modify {α β : Type} {f : α → α} {g : α → β} (h : ∀ x, g (f x) = g x) (xs : List α)
    (i : Nat) : (xs.modify i f).map g = xs.map g := by
  apply List.ext_getElem?
  intro j
  rw [List.getElem?_map, List.getElem?_map, List.getElem?_modify]
  cases xs[j]? with
  | none => rfl
  | some x => by_cases hi : i = j <;> simp [hi, h]

theorem view_insertEdge (graph : KeyedGraph κ ν ε) (edge : Edge ε) :
    (graph.insertEdge edge).view = { graph.view with edges := graph.view.edges ++ [edge] } := by
  have hpush : ∀ direction (node : Node κ ν), let pushed := node.push graph.edges.length direction
      (pushed.key, pushed.label) = (node.key, node.label) := by
    intro direction node
    cases direction <;> rfl
  rw [view, insertEdge, map_modify (hpush .incoming), map_modify (hpush .outgoing)]
  rfl

theorem numbers_insertEdge {edge : Edge ε} {id : Nat} {node : Node κ ν}
    (hn : (graph.insertEdge edge).nodes[id]? = some node) :
    ∃ old, graph.nodes[id]? = some old ∧ ∀ direction, node.numbers direction =
      (if edge.holder direction = id then [graph.edges.length] else []) ++
        old.numbers direction := by
  simp only [insertEdge, List.getElem?_modify, Option.map_eq_map, Option.map_map,
    Option.map_eq_some_iff] at hn
  obtain ⟨old, ho, rfl⟩ := hn
  refine ⟨old, ho, fun direction => ?_⟩
  by_cases hs : edge.source = id <;> by_cases ht : edge.target = id <;> cases direction <;>
    simp [hs, ht, Edge.holder, Node.push, Node.numbers]

variable [DecidableEq κ]

/-- The table leads to the first vertex of each key, and each vertex has the numbers of its
edges. -/
structure Coherent (graph : KeyedGraph κ ν ε) : Prop where
  ids : ∀ key, graph.ids.get? key = graph.view.vertexId? key
  closed : graph.view.Closed
  numbers : ∀ id node direction, graph.nodes[id]? = some node →
    node.numbers direction = (numbersOf graph.edges direction id).reverse

theorem vertexId?_addVertex (graph : Graph κ ν ε) (key other : κ) (label : ν) :
    Graph.vertexId? { graph with vertices := graph.vertices ++ [(key, label)] } other =
      (graph.vertexId? other).or (if key = other then some graph.numVertices else none) := by
  rw [Graph.vertexId?, List.findIdx?_append]
  by_cases h : key = other <;> simp [h, Graph.vertexId?, Graph.numVertices]

namespace Coherent

theorem empty : Coherent ({} : KeyedGraph κ ν ε) where
  ids _ := rfl
  closed _ he := by cases he
  numbers _ _ _ hn := by cases hn

theorem closed_holder (h : graph.Coherent) {edge : Edge ε} (he : edge ∈ graph.edges)
    (direction : EdgeDirection) : edge.holder direction < graph.nodes.length := by
  have hc := h.closed edge he
  rw [numVertices_view] at hc
  cases direction with
  | outgoing => exact hc.1
  | incoming => exact hc.2

theorem numbersOf_length (h : graph.Coherent) {id : Nat} (hid : graph.nodes.length ≤ id)
    (direction : EdgeDirection) : numbersOf graph.edges direction id = [] := by
  apply numbersOf_eq_nil
  intro edge he
  have := h.closed_holder he direction
  omega

theorem numbers_eq (h : graph.Coherent) (id : Nat) (direction : EdgeDirection) :
    graph.numbers id direction = (numbersOf graph.edges direction id).reverse := by
  cases hn : graph.nodes[id]? with
  | some node => simp [KeyedGraph.numbers, hn, h.numbers id node direction hn]
  | none =>
    have hid := List.getElem?_eq_none_iff.mp hn
    simp [KeyedGraph.numbers, hn, h.numbersOf_length hid]

theorem directed_eq (h : graph.Coherent) (id : Nat) (direction : EdgeDirection) :
    graph.directed id direction = graph.edges.filter (·.holder direction = id) := by
  rw [directed, numberedEdges, h.numbers_eq, mergeSort_reverse_numbersOf, filterMap_numbersOf]

theorem length_numbers (h : graph.Coherent) (id : Nat) (direction : EdgeDirection) :
    (graph.numbers id direction).length =
      (graph.edges.filter (·.holder direction = id)).length := by
  rw [h.numbers_eq, List.length_reverse, length_numbersOf]

theorem connecting_eq (h : graph.Coherent) (source target : Nat) :
    graph.connecting source target =
      ((graph.edges.filter (·.source = source)).filter (·.target = target)).reverse := by
  rw [connecting, numberedEdges, h.numbers_eq, List.filterMap_reverse, filterMap_numbersOf,
    List.filter_reverse]
  rfl

theorem mem_connecting_iff (h : graph.Coherent) {source target : Nat} {edge : Edge ε} :
    edge ∈ graph.connecting source target ↔
      edge ∈ graph.edges ∧ edge.source = source ∧ edge.target = target := by
  simp [h.connecting_eq, and_assoc, and_comm]

theorem view_addVertex (h : graph.Coherent) (key : κ) (label : ν) :
    (graph.addVertex key label).1.view = (graph.view.addVertex key label).1 ∧
      (graph.addVertex key label).2 = (graph.view.addVertex key label).2 := by
  unfold addVertex Graph.addVertex
  rw [h.ids]
  cases graph.view.vertexId? key with
  | some id => exact ⟨rfl, rfl⟩
  | none => simp [view, Graph.numVertices]

theorem addVertex (h : graph.Coherent) (key : κ) (label : ν) :
    (graph.addVertex key label).1.Coherent := by
  unfold KeyedGraph.addVertex
  cases hk : graph.ids.get? key with
  | some id => exact h
  | none =>
    have hv : graph.view.vertexId? key = none := (h.ids key).symm.trans hk
    have hview : ({ graph with
        nodes := graph.nodes ++ [{ key, label }]
        ids := graph.ids.insert key graph.nodes.length } : KeyedGraph κ ν ε).view =
          { graph.view with vertices := graph.view.vertices ++ [(key, label)] } := by
      simp [view]
    refine ⟨fun other => ?_, ?_, fun id node direction hn => ?_⟩
    · rw [hview, vertexId?_addVertex, Table.get?_insert, h.ids]
      by_cases ho : other = key
      · rw [if_pos ho, ho, hv, if_pos rfl, Option.none_or, numVertices_view]
        rfl
      · rw [if_neg ho, if_neg (Ne.symm ho), Option.or_none]
    · rw [hview]
      intro edge he
      have hc := h.closed edge he
      simp only [Graph.numVertices, List.length_append] at hc ⊢
      omega
    · rcases Store.getElem?_concat_iff.mp hn with hn | ⟨rfl, rfl⟩
      · exact h.numbers id node direction hn
      · have hnil := h.numbersOf_length (Nat.le_refl _) direction
        cases direction <;> simp [Node.numbers, hnil]

theorem insertEdge (h : graph.Coherent) {edge : Edge ε} (hs : edge.source < graph.numVertices)
    (ht : edge.target < graph.numVertices) : (graph.insertEdge edge).Coherent := by
  refine ⟨fun key => ?_, ?_, fun id node direction hn => ?_⟩
  · rw [view_insertEdge]
    exact h.ids key
  · rw [view_insertEdge]
    intro other ho
    rcases List.mem_append.mp ho with ho | ho
    · exact h.closed other ho
    · cases List.mem_singleton.mp ho
      exact graph.numVertices_view.symm ▸ ⟨hs, ht⟩
  · obtain ⟨old, ho, hnumbers⟩ := numbers_insertEdge hn
    rw [hnumbers, h.numbers id old direction ho]
    change _ = (numbersOf (graph.edges ++ [edge]) direction id).reverse
    rw [numbersOf_concat]
    split <;> simp

theorem hasEdge_eq (h : graph.Coherent) (source target : Nat) :
    graph.hasEdge source target = graph.view.hasEdge source target := by
  rw [Bool.eq_iff_iff, KeyedGraph.hasEdge, Graph.hasEdge]
  simp only [Bool.not_eq_true', List.isEmpty_eq_false_iff_exists_mem, h.mem_connecting_iff,
    List.any_eq_true, Bool.and_eq_true, decide_eq_true_eq]
  rfl

variable [DecidableEq ε]

theorem any_connecting_iff (h : graph.Coherent) (edge : Edge ε) :
    (graph.connecting edge.source edge.target).any (·.weight = edge.weight) = true ↔
      edge ∈ graph.edges := by
  simp only [List.any_eq_true, h.mem_connecting_iff, decide_eq_true_eq]
  constructor
  · rintro ⟨⟨source, target, weight⟩, ⟨hm, rfl, rfl⟩, rfl⟩
    exact hm
  · intro hm
    exact ⟨edge, ⟨hm, rfl, rfl⟩, rfl⟩

theorem addEdge_eq (h : graph.Coherent) (edge : Edge ε) : graph.addEdge edge =
    if edge.source = edge.target then (graph, .selfLoop)
    else if edge ∈ graph.edges then (graph, .alreadyExists)
    else (graph.insertEdge edge, .added) := by
  simp only [KeyedGraph.addEdge, h.any_connecting_iff]

theorem view_addEdge (h : graph.Coherent) (edge : Edge ε) :
    (graph.addEdge edge).1.view = (graph.view.addEdge edge).1 ∧
      (graph.addEdge edge).2 = (graph.view.addEdge edge).2 := by
  have hc : graph.view.edges.contains edge = true ↔ edge ∈ graph.edges := List.contains_iff_mem
  simp only [h.addEdge_eq, Graph.addEdge, hc]
  split
  · exact ⟨rfl, rfl⟩
  · split
    · exact ⟨rfl, rfl⟩
    · exact ⟨view_insertEdge graph edge, rfl⟩

theorem addEdge (h : graph.Coherent) {edge : Edge ε} (hs : edge.source < graph.numVertices)
    (ht : edge.target < graph.numVertices) : (graph.addEdge edge).1.Coherent := by
  rw [h.addEdge_eq]
  split
  · exact h
  · split
    · exact h
    · exact h.insertEdge hs ht

theorem addEdge_ne_self_iff (h : graph.Coherent) (edge : Edge ε) :
    (graph.addEdge edge).1 ≠ graph ↔ (graph.addEdge edge).2 = .added := by
  rw [h.addEdge_eq]
  split
  · simp
  · split
    · simp
    · refine iff_of_true (fun he => ?_) rfl
      have hlength := congrArg (·.edges.length) he
      simp [KeyedGraph.insertEdge] at hlength

end Coherent

variable [DecidableEq ε]

/-- The graph is made by offering these vertices and these edges, both listed in the order of the
offers. An edge is offered between vertices that are there. -/
inductive MadeFrom : List (κ × ν) → List (Edge ε) → KeyedGraph κ ν ε → Prop where
  | empty : MadeFrom [] [] {}
  | addVertex {offers : List (κ × ν)} {joins : List (Edge ε)} {graph : KeyedGraph κ ν ε} (key : κ)
      (label : ν) : MadeFrom offers joins graph →
      MadeFrom (offers ++ [(key, label)]) joins (graph.addVertex key label).1
  | addEdge {offers : List (κ × ν)} {joins : List (Edge ε)} {graph : KeyedGraph κ ν ε}
      (edge : Edge ε) : edge.source < graph.numVertices → edge.target < graph.numVertices →
      MadeFrom offers joins graph → MadeFrom offers (joins ++ [edge]) (graph.addEdge edge).1

variable {offers : List (κ × ν)} {joins : List (Edge ε)}

theorem MadeFrom.coherent (h : MadeFrom offers joins graph) : graph.Coherent := by
  induction h with
  | empty => exact .empty
  | addVertex key label _ ih => exact ih.addVertex key label
  | addEdge edge hs ht _ ih => exact ih.addEdge hs ht

theorem MadeFrom.view (h : MadeFrom offers joins graph) :
    Graph.MadeFrom offers joins graph.view := by
  induction h with
  | empty => exact .empty
  | addVertex key label hm ih =>
    rw [(hm.coherent.view_addVertex key label).1]
    exact ih.addVertex key label
  | addEdge edge hs ht hm ih =>
    rw [(hm.coherent.view_addEdge edge).1]
    rw [← numVertices_view] at hs ht
    exact ih.addEdge edge hs ht

/-- All calls answer what the lists of vertices and edges answer, and what they leave is told by
the lists. -/
structure AnswersExactly (graph : KeyedGraph κ ν ε) : Prop where
  vertexId : ∀ key, graph.vertexId? key = graph.view.vertexId? key
  keyOf : ∀ id, graph.keyOf? id = graph.view.keyOf? id
  addVertex : ∀ key label,
    (graph.addVertex key label).1.view = (graph.view.addVertex key label).1 ∧
      (graph.addVertex key label).2 = (graph.view.addVertex key label).2
  taken : ∀ key id, graph.keyOf? id = some key →
    ∀ label, graph.addVertex key label = (graph, .error id)
  addEdge : ∀ edge, (graph.addEdge edge).1.view = (graph.view.addEdge edge).1 ∧
    (graph.addEdge edge).2 = (graph.view.addEdge edge).2
  changed_iff : ∀ edge, (graph.addEdge edge).1 ≠ graph ↔ (graph.addEdge edge).2 = .added
  hasEdge : ∀ source target, graph.hasEdge source target = graph.view.hasEdge source target
  outgoing : ∀ id, graph.outgoing id = graph.view.outgoing id
  incoming : ∀ id, graph.incoming id = graph.view.incoming id
  outDegree : ∀ id, graph.outDegree id = graph.view.outDegree id
  inDegree : ∀ id, graph.inDegree id = graph.view.inDegree id

theorem MadeFrom.addVertex_taken (h : MadeFrom offers joins graph) {key : κ} {id : Nat}
    (hk : graph.keyOf? id = some key) (label : ν) :
    graph.addVertex key label = (graph, .error id) := by
  rw [← keyOf?_view] at hk
  have hid := (h.coherent.ids key).trans ((Graph.vertexId?_eq_some_iff h.view.nodup_keys).mpr hk)
  rw [KeyedGraph.addVertex, hid]

theorem MadeFrom.answersExactly (h : MadeFrom offers joins graph) : graph.AnswersExactly where
  vertexId := h.coherent.ids
  keyOf id := (graph.keyOf?_view id).symm
  addVertex := h.coherent.view_addVertex
  taken _ _ := h.addVertex_taken
  addEdge := h.coherent.view_addEdge
  changed_iff := h.coherent.addEdge_ne_self_iff
  hasEdge := h.coherent.hasEdge_eq
  outgoing id := h.coherent.directed_eq id .outgoing
  incoming id := h.coherent.directed_eq id .incoming
  outDegree id := h.coherent.length_numbers id .outgoing
  inDegree id := h.coherent.length_numbers id .incoming

/-- A stored graph keeps the first vertex of each key and each edge that is no loop once, and it
finds them again by the table and by the numbers at the vertices. -/
theorem MadeFrom.keeps_and_answers (h : MadeFrom offers joins graph) :
    graph.view.KeepsExactly offers joins ∧ graph.AnswersExactly :=
  ⟨h.view.keepsExactly, h.answersExactly⟩

def quays : KeyedGraph String Nat String :=
  let graph : KeyedGraph String Nat String := (addVertex {} "north" 0).1
  let graph := ((graph.addVertex "south" 1).1.addVertex "north" 2).1
  let graph := ((graph.addEdge ⟨1, 0, "rail"⟩).1.addEdge ⟨1, 1, "rail"⟩).1
  let graph := ((graph.addVertex "east" 3).1.addEdge ⟨1, 0, "rail"⟩).1
  ((graph.addEdge ⟨1, 0, "road"⟩).1.addEdge ⟨2, 0, "rail"⟩).1

def quayOffers : List (String × Nat) := [("north", 0), ("south", 1), ("north", 2), ("east", 3)]

def quayJoins : List (Edge String) :=
  [⟨1, 0, "rail"⟩, ⟨1, 1, "rail"⟩, ⟨1, 0, "rail"⟩, ⟨1, 0, "road"⟩, ⟨2, 0, "rail"⟩]

/-- The vertex stores its edges with the latest one first and lists them in order. -/
theorem quays_answer : MadeFrom quayOffers quayJoins quays ∧
    quays.view.KeepsExactly quayOffers quayJoins ∧ quays.AnswersExactly ∧
    quays.view.vertices = [("north", 0), ("south", 1), ("east", 3)] ∧
    quays.numbers 0 .incoming = [2, 1, 0] ∧
    quays.incoming 0 = [⟨1, 0, "rail"⟩, ⟨1, 0, "road"⟩, ⟨2, 0, "rail"⟩] := by
  have h : MadeFrom _ _ ({} : KeyedGraph String Nat String) := .empty
  have h := ((h.addVertex "north" 0).addVertex "south" 1).addVertex "north" 2
  have h := (h.addEdge ⟨1, 0, "rail"⟩ (by decide) (by decide)).addEdge ⟨1, 1, "rail"⟩ (by decide)
    (by decide)
  have h := (h.addVertex "east" 3).addEdge ⟨1, 0, "rail"⟩ (by decide) (by decide)
  have h := (h.addEdge ⟨1, 0, "road"⟩ (by decide) (by decide)).addEdge ⟨2, 0, "rail"⟩ (by decide)
    (by decide)
  obtain ⟨hkeeps, hanswers⟩ := h.keeps_and_answers
  exact ⟨h, hkeeps, hanswers, by decide, by decide, (hanswers.incoming 0).trans (by decide)⟩

end KeyedGraph

end Vhdl
