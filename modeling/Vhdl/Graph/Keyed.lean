import Vhdl.Graph
import Vhdl.Table

/-! # Stored graphs

A keyed graph in the form that is stored. A table leads from the keys to the vertices, and each
vertex has the numbers of the edges that leave it and of those that enter it, the latest one first.
-/

namespace Vhdl

inductive EdgeDirection where
  | outgoing
  | incoming
  deriving DecidableEq, Repr

/-- The vertex that has the edge in its list. -/
def Edge.holder {ε : Type} (edge : Edge ε) : EdgeDirection → Nat
  | .outgoing => edge.source
  | .incoming => edge.target

structure Node (κ ν : Type) where
  key : κ
  label : ν
  outgoing : List Nat := []
  incoming : List Nat := []

namespace Node

variable {κ ν : Type}

def numbers (node : Node κ ν) : EdgeDirection → List Nat
  | .outgoing => node.outgoing
  | .incoming => node.incoming

def push (node : Node κ ν) (number : Nat) : EdgeDirection → Node κ ν
  | .outgoing => { node with outgoing := number :: node.outgoing }
  | .incoming => { node with incoming := number :: node.incoming }

end Node

structure KeyedGraph (κ ν ε : Type) where
  nodes : List (Node κ ν) := []
  edges : List (Edge ε) := []
  ids : Table κ Nat := {}

namespace KeyedGraph

variable {κ ν ε : Type} [DecidableEq κ] [DecidableEq ε]

/-- The vertices and edges without the table and the numbers. -/
def view (graph : KeyedGraph κ ν ε) : Graph κ ν ε where
  vertices := graph.nodes.map fun node => (node.key, node.label)
  edges := graph.edges

def numVertices (graph : KeyedGraph κ ν ε) : Nat :=
  graph.nodes.length

def numEdges (graph : KeyedGraph κ ν ε) : Nat :=
  graph.edges.length

def keyOf? (graph : KeyedGraph κ ν ε) (id : Nat) : Option κ :=
  graph.nodes[id]?.map Node.key

def vertexId? (graph : KeyedGraph κ ν ε) (key : κ) : Option Nat :=
  graph.ids.get? key

def addVertex (graph : KeyedGraph κ ν ε) (key : κ) (label : ν) :
    KeyedGraph κ ν ε × Except Nat Nat :=
  match graph.ids.get? key with
  | some id => (graph, .error id)
  | none =>
    let id := graph.nodes.length
    ({ graph with
      nodes := graph.nodes ++ [{ key, label }]
      ids := graph.ids.insert key id }, .ok id)

def numbers (graph : KeyedGraph κ ν ε) (id : Nat) (direction : EdgeDirection) : List Nat :=
  graph.nodes[id]?.elim [] (·.numbers direction)

def numberedEdges (graph : KeyedGraph κ ν ε) (numbers : List Nat) : List (Edge ε) :=
  numbers.filterMap (graph.edges[·]?)

/-- The edges between two vertices, the latest one first. -/
def connecting (graph : KeyedGraph κ ν ε) (source target : Nat) : List (Edge ε) :=
  (graph.numberedEdges (graph.numbers source .outgoing)).filter (·.target = target)

def insertEdge (graph : KeyedGraph κ ν ε) (edge : Edge ε) : KeyedGraph κ ν ε :=
  let number := graph.edges.length
  let nodes := graph.nodes.modify edge.source (·.push number .outgoing)
  { graph with
    nodes := nodes.modify edge.target (·.push number .incoming)
    edges := graph.edges ++ [edge] }

def addEdge (graph : KeyedGraph κ ν ε) (edge : Edge ε) : KeyedGraph κ ν ε × EdgeStatus :=
  if edge.source = edge.target then (graph, .selfLoop)
  else if (graph.connecting edge.source edge.target).any (·.weight = edge.weight) then
    (graph, .alreadyExists)
  else (graph.insertEdge edge, .added)

def hasEdge (graph : KeyedGraph κ ν ε) (source target : Nat) : Bool :=
  !(graph.connecting source target).isEmpty

/-- The edges at a vertex in the order they were added. -/
def directed (graph : KeyedGraph κ ν ε) (id : Nat) (direction : EdgeDirection) : List (Edge ε) :=
  graph.numberedEdges ((graph.numbers id direction).mergeSort (· ≤ ·))

def outgoing (graph : KeyedGraph κ ν ε) (id : Nat) : List (Edge ε) :=
  graph.directed id .outgoing

def incoming (graph : KeyedGraph κ ν ε) (id : Nat) : List (Edge ε) :=
  graph.directed id .incoming

def successors (graph : KeyedGraph κ ν ε) (id : Nat) : List Nat :=
  (graph.outgoing id).map Edge.target

def predecessors (graph : KeyedGraph κ ν ε) (id : Nat) : List Nat :=
  (graph.incoming id).map Edge.source

def outDegree (graph : KeyedGraph κ ν ε) (id : Nat) : Nat :=
  (graph.numbers id .outgoing).length

def inDegree (graph : KeyedGraph κ ν ε) (id : Nat) : Nat :=
  (graph.numbers id .incoming).length

end KeyedGraph

end Vhdl
