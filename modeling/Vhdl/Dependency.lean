import Vhdl.DesignUnit.Kind
import Vhdl.Graph.Reach
import Vhdl.Handle

/-! # Dependency graphs

The vertices are libraries and units. An edge goes from a unit to a library or unit that it depends
on, and says what made it depend.
-/

namespace Vhdl

inductive VertexKind where
  | library
  | unit (kind : UnitKind)
  deriving DecidableEq, Repr

def VertexKind.name : VertexKind → String
  | .library => "library"
  | .unit .packageBody => "package_body"
  | .unit kind => kind.describe

/-- A dependency names its target in a clause, implements it, or instantiates it. -/
inductive EdgeClass where
  | references
  | implements
  | instantiates
  deriving DecidableEq, Repr

def EdgeClass.name : EdgeClass → String
  | .references => "References"
  | .implements => "Implements"
  | .instantiates => "Instantiates"

inductive EdgeKind where
  | libraryClause
  | useClause
  | contextReference
  /-- From a configuration to the entity it configures. -/
  | configurationEntity
  /-- From an architecture to a configuration it instantiates. -/
  | configurationReference
  | entityImplementation
  | packageImplementation
  | entityInstantiation
  | componentInstantiation
  | configurationInstantiation
  deriving DecidableEq, Repr

namespace EdgeKind

def all : List EdgeKind :=
  [.libraryClause, .useClause, .contextReference, .configurationEntity, .configurationReference,
    .entityImplementation, .packageImplementation, .entityInstantiation, .componentInstantiation,
    .configurationInstantiation]

def name : EdgeKind → String
  | .libraryClause => "library_clause"
  | .useClause => "use_clause"
  | .contextReference => "context_reference"
  | .configurationEntity => "configuration_entity"
  | .configurationReference => "configuration_reference"
  | .entityImplementation => "entity_implementation"
  | .packageImplementation => "package_implementation"
  | .entityInstantiation => "entity_instantiation"
  | .componentInstantiation => "component_instantiation"
  | .configurationInstantiation => "configuration_instantiation"

def ofName? (text : String) : Option EdgeKind :=
  all.find? (·.name = text)

def edgeClass : EdgeKind → EdgeClass
  | .libraryClause | .useClause | .contextReference | .configurationEntity
  | .configurationReference => .references
  | .entityImplementation | .packageImplementation => .implements
  | .entityInstantiation | .componentInstantiation | .configurationInstantiation => .instantiates

end EdgeKind

structure UnitVertex where
  kind : VertexKind
  /-- Does the vertex belong to a predefined library? -/
  predefined : Bool
  target : Target
  /-- The normalized identifier of the library or unit. -/
  name : String
  /-- The normalized name of the primary unit of a secondary unit. -/
  primaryName : Option String := none
  deriving DecidableEq, Repr

namespace UnitVertex

def unit? (vertex : UnitVertex) : Option UnitId :=
  vertex.target.unit?

/-- The entity of an entity or architecture vertex. -/
def entityName? (vertex : UnitVertex) : Option String :=
  match vertex.kind with
  | .unit .entity => some vertex.name
  | .unit .architecture => vertex.primaryName
  | _ => none

end UnitVertex

/-- A dependency graph. Its keys are those of libraries and units. -/
abbrev DependencyGraph := Graph String UnitVertex EdgeKind

namespace DependencyGraph

def vertexOf? (graph : DependencyGraph) (target : Target) : Option Nat :=
  graph.vertices.findIdx? (·.2.target = target)

/-- Add an edge to a library or unit, provided that it has a vertex. -/
def link (graph : DependencyGraph) (source : Nat) (target : Target) (kind : EdgeKind) :
    DependencyGraph :=
  match graph.vertexOf? target with
  | some target => (graph.addEdge ⟨source, target, kind⟩).1
  | none => graph

/-- Is there an edge of that kind between the vertices with these keys? -/
def hasKeyEdge (graph : DependencyGraph) (source target : String) (kind : EdgeKind) : Bool :=
  match graph.vertexId? source, graph.vertexId? target with
  | some source, some target => graph.edges.contains ⟨source, target, kind⟩
  | _, _ => false

/-- The edges with the keys of their ends. -/
def edgeKeys (graph : DependencyGraph) : List (String × String × EdgeKind) :=
  graph.edges.filterMap fun edge =>
    match graph.keyOf? edge.source, graph.keyOf? edge.target with
    | some source, some target => some (source, target, edge.weight)
    | _, _ => none

def isInstantiated (graph : DependencyGraph) (id : Nat) : Bool :=
  (graph.incoming id).any (·.weight.edgeClass = .instantiates)

/-- The entity that an architecture implements, or the package that a body implements. -/
def implemented? (graph : DependencyGraph) (id : Nat) : Option Nat :=
  ((graph.outgoing id).find? (·.weight.edgeClass = .implements)).map Edge.target

/-- The architectures of an entity, or the body of a package. -/
def implementations (graph : DependencyGraph) (id : Nat) : List Nat :=
  ((graph.incoming id).filter (·.weight.edgeClass = .implements)).map Edge.source

def render (graph : DependencyGraph) : String :=
  Graph.render (fun key _ => key) EdgeKind.name graph

end DependencyGraph

end Vhdl
