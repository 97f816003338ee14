import Vhdl.Dependency
import Vhdl.Diagnostic
import Vhdl.Text.Lowercase

/-! # The instantiation hierarchy

The entities and architectures of a dependency graph. Implementation edges keep their direction and
instantiation edges are reversed, so that the units below a vertex are its predecessors. Roots are
what nothing instantiates.
-/

namespace Vhdl

/-- The place of a vertex in a tree: for each level below the root, whether the vertex or its
ancestor there is the last one of its siblings. -/
structure Twig where
  lasts : List Bool
  deriving DecidableEq, Repr

namespace Twig

def root : Twig := ⟨[]⟩

def child (twig : Twig) (last : Bool) : Twig :=
  ⟨twig.lasts ++ [last]⟩

def depth (twig : Twig) : Nat :=
  twig.lasts.length

/-- The drawing in front of what is below the twig. -/
def indent (lasts : List Bool) : String :=
  String.join (lasts.map fun last => if last then "   " else "│  ")

/-- The drawing in front of the vertex itself. -/
def drawing (twig : Twig) : String :=
  match twig.lasts.getLast? with
  | none => ""
  | some last => indent twig.lasts.dropLast ++ (if last then "└─ " else "├─ ")

end Twig

inductive TopLevel where
  | unique (root : Nat)
  | none
  | ambiguous (roots : List Nat)
  deriving DecidableEq, Repr

structure Hierarchy where
  graph : DependencyGraph := {}
  roots : List Nat := []

namespace Hierarchy

def isHierarchical (vertex : UnitVertex) : Bool :=
  vertex.kind = .unit .entity || vertex.kind = .unit .architecture

/-- The edge of the hierarchy that stands for a dependency. -/
def ofEdge? (edge : Edge EdgeKind) : Option (Edge EdgeKind) :=
  match edge.weight.edgeClass with
  | .implements => some edge
  | .instantiates => some ⟨edge.target, edge.source, edge.weight⟩
  | .references => none

/-- The numbers of the vertices that the hierarchy keeps, in order. -/
def kept (dependency : DependencyGraph) : List Nat :=
  (dependency.numbered.filter fun (_, _, vertex) => isHierarchical vertex).map (·.1)

/-- Number the ends of an edge by their places among the kept vertices. -/
def renumber? (kept : List Nat) (edge : Edge EdgeKind) : Option (Edge EdgeKind) :=
  match kept.idxOf? edge.source, kept.idxOf? edge.target with
  | some source, some target => some ⟨source, target, edge.weight⟩
  | _, _ => none

def graphOf (dependency : DependencyGraph) : DependencyGraph :=
  let kept := kept dependency
  let vertices := dependency.vertices.filter fun (_, vertex) => isHierarchical vertex
  let edges := dependency.edges.filterMap fun edge => (renumber? kept edge).bind ofEdge?
  edges.foldl (fun graph edge => (graph.addEdge edge).1) { vertices }

/-- A root is an architecture, or an entity without architectures, that nothing instantiates. Who
instantiates an entity instantiates all its architectures. -/
def isRoot (dependency : DependencyGraph) (id : Nat) (vertex : UnitVertex) : Bool :=
  !vertex.predefined && (dependency.implementations id).isEmpty &&
    !dependency.isInstantiated id &&
    match dependency.implemented? id with
    | some entity => !dependency.isInstantiated entity
    | none => true

def ofDependency (dependency : DependencyGraph) : Hierarchy where
  graph := graphOf dependency
  roots := (dependency.numbered.filter fun (_, _, vertex) => isHierarchical vertex).zipIdx.filterMap
    fun ((id, _, vertex), place) => if isRoot dependency id vertex then some place else none

def rootKeys (hierarchy : Hierarchy) : List String :=
  hierarchy.roots.filterMap hierarchy.graph.keyOf?

def topLevel (hierarchy : Hierarchy) : TopLevel :=
  match hierarchy.roots with
  | [] => .none
  | [root] => .unique root
  | roots => .ambiguous roots

/-- A root is named by its key, by its entity, or by entity and architecture. -/
def isNamed (key : String) (vertex : UnitVertex) (wanted : String) : Bool :=
  key = wanted ||
    match vertex.kind with
    | .unit .entity => vertex.name = wanted
    | .unit .architecture =>
      let entity := vertex.primaryName.getD ""
      entity = wanted || entity ++ "(" ++ vertex.name ++ ")" = wanted
    | _ => false

def locationOf (key : String) (vertex : UnitVertex) : Location :=
  match vertex.unit? with
  | some id => ⟨.unit id, key⟩
  | none => ⟨.design, key⟩

/-- Relate a diagnostic to the given candidates for the top level. -/
def relateCandidates (hierarchy : Hierarchy) (diagnostic : Diagnostic) (roots : List Nat) :
    Diagnostic :=
  (roots.filterMap hierarchy.graph.vertex?).foldl
    (fun diagnostic (key, vertex) => diagnostic.addRelated (locationOf key vertex) "Candidate")
    diagnostic

/-- Pick the root of that name, in any case. -/
def selectTopLevel (hierarchy : Hierarchy) (name : String) : Except Diagnostic Nat :=
  let wanted := Text.lowercase name
  let candidates := hierarchy.roots.filter fun id =>
    (hierarchy.graph.vertex? id).any fun (key, vertex) => isNamed key vertex wanted
  match candidates with
  | [root] => .ok root
  | [] =>
    .error (.error .design ("No top level candidate named '" ++ name ++ "'") .noTopLevel)
  | _ =>
    .error (hierarchy.relateCandidates
      (.error .design
        ("'" ++ name ++ "' matches " ++ Nat.repr candidates.length ++ " top level candidates")
        .ambiguousTopLevel)
      candidates)

/-- The units that an architecture instantiates, and the architectures of an entity. -/
def children (hierarchy : Hierarchy) (id : Nat) : List Nat :=
  hierarchy.graph.predecessors id

/-- The twigs of siblings, all but the last of which are marked as having one after them. -/
def siblings (twig : Twig) : List Nat → List (Twig × Nat)
  | [] => []
  | [id] => [(twig.child true, id)]
  | id :: next :: rest => (twig.child false, id) :: siblings twig (next :: rest)

/-- The vertices from `id` down, each with its twig. A vertex that is not in `fresh` is an ancestor
of itself and is not expanded again. -/
def expand (children : Nat → List Nat) (fresh : List Nat) (twig : Twig) (id : Nat) :
    List (Twig × Nat) :=
  (twig, id) ::
    if id ∈ fresh then
      (siblings twig (children id)).flatMap fun (twig, child) =>
        expand children (fresh.erase id) twig child
    else []
termination_by fresh.length
decreasing_by
  rename_i present
  have shorter := List.length_erase_of_mem present
  have nonempty := List.length_pos_of_mem present
  omega

/-- All vertices below a root in depth-first order. -/
def tree (hierarchy : Hierarchy) (root : Nat) : List (Twig × Nat) :=
  expand hierarchy.children hierarchy.graph.vertexIds .root root

def walk (hierarchy : Hierarchy) (root : Nat) : List (Nat × Nat) :=
  (hierarchy.tree root).map fun (twig, id) => (twig.depth, id)

/-- The tree below a root, one key a line. -/
def treeView (hierarchy : Hierarchy) (root : Nat) : String :=
  String.join ((hierarchy.tree root).map fun (twig, id) =>
    twig.drawing ++ (hierarchy.graph.keyOf? id).getD "" ++ "\n")

/-- What there is to say about a missing or ambiguous top level. -/
def topLevelDiagnostics (hierarchy : Hierarchy) : List Diagnostic :=
  match hierarchy.topLevel with
  | .unique _ => []
  | .none =>
    if hierarchy.graph.vertices.any fun (_, vertex) => !vertex.predefined then
      [.ofCode .design "No top level found, every entity and architecture is instantiated"
        .noTopLevel]
    else []
  | .ambiguous roots =>
    [hierarchy.relateCandidates
      (.ofCode .design
        ("Found " ++ Nat.repr roots.length ++ " top level candidates: " ++
          String.intercalate ", " hierarchy.rootKeys)
        .ambiguousTopLevel)
      roots]

end Hierarchy

end Vhdl
