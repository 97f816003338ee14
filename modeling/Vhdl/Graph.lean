/-! # Keyed graphs

A directed graph whose vertices have distinct keys. Vertices are numbered from zero, and vertices
and edges are listed in the order they were added. There are no loops at a vertex and no two equal
edges.
-/

namespace Vhdl

structure Edge (ε : Type) where
  source : Nat
  target : Nat
  weight : ε
  deriving DecidableEq, Repr

/-- A graph with keys `κ`, vertex labels `ν` and edge weights `ε`. -/
structure Graph (κ ν ε : Type) where
  vertices : List (κ × ν) := []
  edges : List (Edge ε) := []

/-- What became of an edge that was to be added. -/
inductive EdgeStatus where
  | added
  | alreadyExists
  | selfLoop
  deriving DecidableEq, Repr

namespace Graph

variable {κ ν ε : Type} [DecidableEq κ] [DecidableEq ε]

def empty : Graph κ ν ε := {}

def numVertices (graph : Graph κ ν ε) : Nat :=
  graph.vertices.length

def numEdges (graph : Graph κ ν ε) : Nat :=
  graph.edges.length

def vertex? (graph : Graph κ ν ε) (id : Nat) : Option (κ × ν) :=
  graph.vertices[id]?

def label? (graph : Graph κ ν ε) (id : Nat) : Option ν :=
  (graph.vertex? id).map (·.2)

def keyOf? (graph : Graph κ ν ε) (id : Nat) : Option κ :=
  (graph.vertex? id).map (·.1)

def vertexId? (graph : Graph κ ν ε) (key : κ) : Option Nat :=
  graph.vertices.findIdx? (·.1 = key)

/-- The vertices with their numbers. -/
def numbered (graph : Graph κ ν ε) : List (Nat × κ × ν) :=
  graph.vertices.zipIdx.map fun (vertex, id) => (id, vertex)

/-- Add a vertex, or find the one that has the key already. -/
def addVertex (graph : Graph κ ν ε) (key : κ) (label : ν) : Graph κ ν ε × Except Nat Nat :=
  match graph.vertexId? key with
  | some id => (graph, .error id)
  | none => ({ graph with vertices := graph.vertices ++ [(key, label)] }, .ok graph.numVertices)

def addEdge (graph : Graph κ ν ε) (edge : Edge ε) : Graph κ ν ε × EdgeStatus :=
  if edge.source = edge.target then (graph, .selfLoop)
  else if graph.edges.contains edge then (graph, .alreadyExists)
  else ({ graph with edges := graph.edges ++ [edge] }, .added)

def hasEdge (graph : Graph κ ν ε) (source target : Nat) : Bool :=
  graph.edges.any fun edge => edge.source = source && edge.target = target

def outgoing (graph : Graph κ ν ε) (id : Nat) : List (Edge ε) :=
  graph.edges.filter (·.source = id)

def incoming (graph : Graph κ ν ε) (id : Nat) : List (Edge ε) :=
  graph.edges.filter (·.target = id)

def successors (graph : Graph κ ν ε) (id : Nat) : List Nat :=
  (graph.outgoing id).map Edge.target

def predecessors (graph : Graph κ ν ε) (id : Nat) : List Nat :=
  (graph.incoming id).map Edge.source

def outDegree (graph : Graph κ ν ε) (id : Nat) : Nat :=
  (graph.outgoing id).length

def inDegree (graph : Graph κ ν ε) (id : Nat) : Nat :=
  (graph.incoming id).length

/-- One line for each vertex, then one for each edge. -/
def render (vertexText : κ → ν → String) (weightText : ε → String) (graph : Graph κ ν ε) :
    String :=
  let name (id : Nat) := (graph.vertex? id).map fun (key, label) => vertexText key label
  String.join (graph.vertices.map fun (key, label) => vertexText key label ++ "\n") ++
    String.join (graph.edges.filterMap fun edge =>
      match name edge.source, name edge.target with
      | some source, some target =>
        some (source ++ " -> " ++ target ++ " [" ++ weightText edge.weight ++ "]\n")
      | _, _ => none)

end Graph

end Vhdl
