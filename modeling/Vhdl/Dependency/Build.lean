import Vhdl.Dependency
import Vhdl.Link
import Vhdl.Statement.Walk

/-! # Building the dependency graph

The vertices come first: each library, then its units. The slots of linked units give the edges of
clauses and implementations. Instantiation statements of architectures give the others.
-/

namespace Vhdl

namespace Library

def vertex (library : Library) (config : Config) : UnitVertex where
  kind := .library
  predefined := config.isPredefined library.name
  target := .library library.id
  name := library.ident.normalized

/-- The units in the order of their vertices: the architectures of an entity follow it, and
architectures of missing entities come last. Most architectures occur twice. -/
def vertexOrder (library : Library) (store : Store) : List UnitId :=
  let withArchitectures (id : UnitId) : List UnitId :=
    id :: ((store.unit? id).map fun unit => library.architecturesOf unit.ident.normalized).getD []
  library.unitsOfKind .context ++ library.unitsOfKind .configuration ++
    (library.unitsOfKind .entity).flatMap withArchitectures ++
    library.unitsOfKind .package ++ library.unitsOfKind .packageBody ++
    library.unitsOfKind .architecture

end Library

def RegisteredUnit.vertex (registered : RegisteredUnit) (predefined : Bool) : UnitVertex where
  kind := .unit registered.unit.kind
  predefined
  target := .unit registered.id
  name := registered.unit.ident.normalized
  primaryName := registered.unit.primaryName?.map Identifier.normalized

namespace Store

/-- The vertices to be added, each with its key. -/
def vertices (store : Store) : List (String × UnitVertex) :=
  store.libraries.flatMap fun library =>
    (library.ident.normalized, library.vertex store.config) ::
      ((library.vertexOrder store).eraseDups.filterMap store.registered?).map fun registered =>
        (registered.key, registered.vertex (store.config.isPredefined library.name))

/-- Two items cannot share a key. -/
def keyCollision (store : Store) (target other : Target) : Diagnostic :=
  let location := store.targetLocation target
  (Diagnostic.internal location
    ("'" ++ location.name ++
      "' has the same dependency graph key as another library or design unit")).addRelated
    (store.targetLocation other) "Key already used here"

/-- Add a vertex, or report that its key is used by another one. -/
def addVertex (store : Store) (state : DependencyGraph × List Diagnostic)
    (entry : String × UnitVertex) : DependencyGraph × List Diagnostic :=
  match state.1.addVertex entry.1 entry.2 with
  | (graph, .ok _) => (graph, state.2)
  | (graph, .error existing) =>
    match graph.label? existing with
    | some other => (graph, state.2 ++ [store.keyCollision entry.2.target other.target])
    | none => (graph, state.2)

/-- The graph of all vertices without edges. -/
def vertexGraph (store : Store) : DependencyGraph × List Diagnostic :=
  store.vertices.foldl store.addVertex ({}, [])

end Store

/-- An edge that is to be added from some vertex. -/
structure Dependence where
  target : Target
  kind : EdgeKind
  deriving DecidableEq, Repr

namespace DesignUnit

/-- What a linked unit refers to in its clauses, and the entity that it configures. -/
def references (unit : DesignUnit) : List Dependence :=
  (unit.libraryNames.filterMap Linked.target).map (⟨·, .libraryClause⟩) ++
    (unit.useNames.filterMap Linked.target).map (⟨·, .useClause⟩) ++
    (unit.contextNames.filterMap Linked.target).map (⟨·, .contextReference⟩) ++
    if unit.kind = .configuration then
      unit.primaryTarget.toList.map (⟨·, .configurationEntity⟩)
    else []

/-- What a linked secondary unit of that kind implements. -/
def implemented (kind : UnitKind) (edge : EdgeKind) (unit : DesignUnit) : List Dependence :=
  if unit.kind = kind then unit.primaryTarget.toList.map (⟨·, edge⟩) else []

end DesignUnit

/-- What an instantiation statement binds to, or why it binds to nothing. -/
structure Binding where
  dependences : List Dependence := []
  diagnostic : Option Diagnostic := none

namespace Site

/-- The primary unit that a simple name has in the own library, or a name with a library there. -/
def findUnit? (site : Site) (visibility : Visibility) (kind : UnitKind) (name : Name) :
    Option UnitId :=
  match name.segments? with
  | some ([ident], false) => site.store.primaryOfKind? site.library ident kind
  | some ([libraryName, ident], false) =>
    ((visibility.library? libraryName.normalized).bind site.store.library?).bind fun library =>
      site.store.primaryOfKind? library ident kind
  | _ => none

def findArchitecture? (site : Site) (entity : UnitId) (ident : Identifier) : Option UnitId :=
  (site.store.registered? entity).bind fun registered =>
    registered.library.get?
      (.architecture registered.unit.ident.normalized ident.normalized)

/-- The entity of the name of a component, in the own library or else in the first visible library
that has one. -/
def findComponent? (site : Site) (visibility : Visibility) (name : Name) : Option UnitId :=
  name.suffix?.bind fun ident =>
    ((site.library.id :: visibility.libraryIds).filterMap site.store.library?).findSome?
      fun library => site.store.primaryOfKind? library ident .entity

/-- The architecture that a linked configuration selects, or else its entity. -/
def configuredUnit? (site : Site) (configuration : UnitId) : Option UnitId :=
  (site.store.unit? configuration).bind fun unit =>
    (unit.primaryTarget.bind Target.unit?).map fun entity =>
      (unit.selectedArchitecture?.bind (site.findArchitecture? entity)).getD entity

def unbound (site : Site) (message : String) : Binding :=
  { diagnostic := some (.ofCode site.location message .unboundComponent) }

/-- An instance of an entity binds to the given architecture, if it exists, or to the entity. -/
def bindEntity (site : Site) (visibility : Visibility) (found : FoundInstance) (name : Name)
    (architecture : Option Identifier) : Binding :=
  match site.findUnit? visibility .entity name with
  | none =>
    site.unbound
      ("No entity '" ++ name.render ++ "' found for instance '" ++ found.path ++ "'")
  | some entity =>
    match architecture with
    | none => { dependences := [⟨.unit entity, .entityInstantiation⟩] }
    | some ident =>
      match site.findArchitecture? entity ident with
      | some architecture => { dependences := [⟨.unit architecture, .entityInstantiation⟩] }
      | none =>
        { dependences := [⟨.unit entity, .entityInstantiation⟩]
          diagnostic := some (.ofCode site.location
            ("No architecture '" ++ ident.text ++ "' for entity '" ++ name.render ++ "'")
            .noArchForEnt) }

def bindComponent (site : Site) (visibility : Visibility) (found : FoundInstance) (name : Name) :
    Binding :=
  match site.findComponent? visibility name with
  | some entity => { dependences := [⟨.unit entity, .componentInstantiation⟩] }
  | none =>
    site.unbound
      ("Component '" ++ name.render ++ "' of instance '" ++ found.path ++
        "' is not bound to any entity")

def bindConfiguration (site : Site) (visibility : Visibility) (found : FoundInstance)
    (name : Name) : Binding :=
  match site.findUnit? visibility .configuration name with
  | none =>
    site.unbound
      ("No configuration '" ++ name.render ++ "' found for instance '" ++ found.path ++ "'")
  | some configuration =>
    { dependences := ⟨.unit configuration, .configurationReference⟩ ::
        (site.configuredUnit? configuration).toList.map fun unit =>
          ⟨.unit unit, .configurationInstantiation⟩ }

def bind (site : Site) (visibility : Visibility) (found : FoundInstance) : Binding :=
  match found.statement.unit with
  | .entity name architecture => site.bindEntity visibility found name architecture
  | .component name => site.bindComponent visibility found name
  | .configuration name => site.bindConfiguration visibility found name

end Site

namespace Store

/-- The bindings of the instances in an architecture that sees what `visibility` says. -/
def bindings (store : Store) (visibility : Visibility) (registered : RegisteredUnit) :
    List Binding :=
  if registered.unit.kind = .architecture then
    (findInstances registered.unit.statements).map
      (Site.bind ⟨store, registered.library, registered.location⟩ visibility)
  else []

end Store

namespace DependencyGraph

/-- The units of a graph with their vertices. -/
def units (graph : DependencyGraph) : List (Nat × UnitId) :=
  graph.numbered.filterMap fun (id, _, vertex) => vertex.unit?.map fun unit => (id, unit)

/-- Add edges from vertices to whatever has a vertex. -/
def addDependences (graph : DependencyGraph) (dependences : List (Nat × Dependence)) :
    DependencyGraph :=
  dependences.foldl
    (fun graph (source, dependence) => graph.link source dependence.target dependence.kind) graph

end DependencyGraph

/-- A dependency graph, and what there was to say while it was built. -/
structure Dependencies where
  graph : DependencyGraph := {}
  diagnostics : List Diagnostic := []

/-- The graph of a store whose units are linked, `visibility` being what each unit sees. -/
def Store.dependencies (store : Store) (visibility : UnitId → Visibility) : Dependencies :=
  let (vertices, collisions) := store.vertexGraph
  let units := vertices.units.filterMap fun (source, id) =>
    (store.registered? id).map fun registered => (source, registered)
  let collect (dependences : RegisteredUnit → List Dependence) : List (Nat × Dependence) :=
    units.flatMap fun (source, registered) => (dependences registered).map fun d => (source, d)
  let bindings (registered : RegisteredUnit) : List Binding :=
    store.bindings (visibility registered.id) registered
  { graph := vertices.addDependences
      (collect (·.unit.references) ++
        collect (·.unit.implemented .architecture .entityImplementation) ++
        collect (·.unit.implemented .packageBody .packageImplementation) ++
        collect fun registered => (bindings registered).flatMap Binding.dependences)
    diagnostics := collisions ++
      units.flatMap fun (_, registered) => (bindings registered).filterMap Binding.diagnostic }

end Vhdl
